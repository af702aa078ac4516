import Bfx.KeyTable
import Bfx.TransferInterpreter

/-!
The spent flags of wallet transactions: which notifications set and clear them,
`AddToWallet`, `WalletUpdateSpent`, `CommitTransaction` and `SyncWithWallets`.
-/

namespace Bfx.WalletSpent

open CallOutcome HexText KeyTable TransferInterpreter Transaction List

variable {coin : COutPoint} {hash : UInt256}

section Flags

/-- `CheckTransaction` has accepted the values, so that no sum of them that the
wallet writes to its log throws. -/
structure CheckedTransaction where
  tx : CTransaction
  valueOut : ∃ nValueOut, getValueOut tx = .ok nValueOut

structure CWalletTx extends CheckedTransaction where
  hashBlock : UInt256
  nIndex : Int
  vMerkleBranch : List UInt256
  fFromMe : Bool
  vfSpent : List Bool

/-- `vfSpent.resize(n)`. -/
def resize (n : Nat) (vfSpent : List Bool) : List Bool :=
  vfSpent.take n ++ List.replicate (n - vfSpent.length) false

namespace CWalletTx

def spentFlag (wtx : CWalletTx) (nOut : Nat) : Bool := (wtx.vfSpent[nOut]?).getD false

/-- The common part of `MarkSpent` and `MarkUnspent`. -/
def setSpent (nOut : Nat) (value : Bool) (wtx : CWalletTx) : CWalletTx :=
  { wtx with vfSpent := (resize wtx.tx.vout.length wtx.vfSpent).set nOut value }

def markSpent (nOut : Nat) (wtx : CWalletTx) : Outcome CWalletTx :=
  if nOut ≥ wtx.tx.vout.length then raise "CWalletTx::MarkSpent() : nOut out of range"
  else .ok (wtx.setSpent nOut true)

def isSpent (nOut : Nat) (wtx : CWalletTx) : Outcome Bool :=
  if nOut ≥ wtx.tx.vout.length then raise "CWalletTx::IsSpent() : nOut out of range"
  else .ok (wtx.spentFlag nOut)

end CWalletTx

/-- The loop of `UpdateSpent`, which ends with the shorter vector. -/
def updateSpent : List Bool → List Bool → Bool × List Bool
  | new :: vfNewSpent, old :: vfSpent =>
    let (fReturn, vfSpent) := updateSpent vfNewSpent vfSpent
    (fReturn || (new && !old), (old || new) :: vfSpent)
  | _, vfSpent => (false, vfSpent)

theorem updateSpent_getD (vfNewSpent vfSpent : List Bool) (i : Nat)
    (hspent : (vfSpent[i]?).getD false = true) :
    ((updateSpent vfNewSpent vfSpent).2[i]?).getD false = true := by
  induction vfNewSpent generalizing vfSpent i with
  | nil => exact hspent
  | cons new vfNewSpent ih =>
    rcases vfSpent with _ | ⟨old, vfSpent⟩
    · exact hspent
    rcases i with _ | i
    · simp only [List.getElem?_cons_zero, Option.getD_some] at hspent
      simp [updateSpent, hspent]
    · exact ih vfSpent i hspent

theorem CWalletTx.spentFlag_setSpent {wtx : CWalletTx} (hi : i < wtx.tx.vout.length) (nOut : Nat)
    (value : Bool) :
    (wtx.setSpent nOut value).spentFlag i = if nOut = i then value else wtx.spentFlag i := by
  have hi' : (resize wtx.tx.vout.length wtx.vfSpent)[i]? = some ((wtx.vfSpent[i]?).getD false) := by
    rw [resize]
    rcases Nat.lt_or_ge i wtx.vfSpent.length with hlt | hge
    · rw [List.getElem?_append_left (by rw [length_take]; omega), List.getElem?_take_of_lt hi,
        List.getElem?_eq_getElem hlt]
      rfl
    rw [List.getElem?_append_right (by rw [length_take]; omega), List.getElem?_replicate,
      if_pos (by rw [length_take]; omega), List.getElem?_eq_none hge]
    rfl
  rw [CWalletTx.spentFlag, CWalletTx.setSpent]
  dsimp only
  split
  · rename_i heq
    subst heq
    rw [List.getElem?_set_self (List.getElem?_eq_some_iff.mp hi').1]
    rfl
  rename_i hne
  rw [List.getElem?_set_ne hne, hi']
  rfl

end Flags

section Wallet

/-- The keys of the wallet and the limit for small outputs. -/
structure WalletContext where
  getHash : CTransaction → UInt256
  isMine : Bytes → Bool
  nMinimumInputValue : Int

/-- `mapWallet`. -/
abbrev CWallet := List (UInt256 × CWalletTx)

variable (ctx : WalletContext)

/-- Whether an output of a transaction exists and belongs to the wallet. -/
def ownsOutput (tx : CTransaction) (n : Nat) : Bool :=
  match tx.vout[n]? with
  | some txout => ctx.isMine txout.scriptPubKey
  | none => false

/-- One turn of the first loop of `WalletUpdateSpent`. -/
def markInputSpent (txin : CTxIn) (wallet : CWallet) : CWallet :=
  match find txin.prevout.hash wallet with
  | some wtx =>
    if ownsOutput ctx wtx.tx txin.prevout.n && !wtx.spentFlag txin.prevout.n then
      modifyAt txin.prevout.hash (·.setSpent txin.prevout.n true) wallet
    else wallet
  | none => wallet

/-- The second loop: the outputs that belong to the wallet become unspent. -/
def markOwnUnspent : Nat → List CTxOut → CWalletTx → CWalletTx
  | _, [], wtx => wtx
  | i, txout :: vout, wtx =>
    markOwnUnspent (i + 1) vout
      (if ctx.isMine txout.scriptPubKey then wtx.setSpent i false else wtx)

/-- `fBlock` is set only for a transaction of the wallet. -/
def walletUpdateSpent (tx : CTransaction) (fBlock : Bool) (wallet : CWallet) : CWallet :=
  let wallet := tx.vin.foldl (fun wallet txin => markInputSpent ctx txin wallet) wallet
  if fBlock then modifyAt (ctx.getHash tx) (markOwnUnspent ctx 0 tx.vout) wallet else wallet

/-- What `AddToWallet` takes over into a transaction that is known, and whether
that changes it. -/
def mergeTx (wtxIn wtx : CWalletTx) : Bool × CWalletTx :=
  let newBlock := wtxIn.hashBlock ≠ 0 ∧ wtxIn.hashBlock ≠ wtx.hashBlock
  let newBranch := wtxIn.nIndex ≠ -1 ∧
    (wtxIn.vMerkleBranch ≠ wtx.vMerkleBranch ∨ wtxIn.nIndex ≠ wtx.nIndex)
  let newFromMe := wtxIn.fFromMe && !wtx.fFromMe
  let (newSpent, vfSpent) := updateSpent wtxIn.vfSpent wtx.vfSpent
  (decide newBlock || decide newBranch || newFromMe || newSpent, { wtx with
      hashBlock := if newBlock then wtxIn.hashBlock else wtx.hashBlock
      vMerkleBranch := if newBranch then wtxIn.vMerkleBranch else wtx.vMerkleBranch
      nIndex := if newBranch then wtxIn.nIndex else wtx.nIndex
      fFromMe := wtxIn.fFromMe || wtx.fFromMe
      vfSpent := vfSpent })

/-- `written` says whether the record, if it has to be written, reaches the
disk. -/
def addToWallet (wtxIn : CWalletTx) (written : Bool) (wallet : CWallet) : Bool × CWallet :=
  let hash := ctx.getHash wtxIn.tx
  match find hash wallet with
  | none =>
    let wallet := insertNew hash wtxIn wallet
    if !written then (false, wallet)
    else (true, walletUpdateSpent ctx wtxIn.tx (wtxIn.hashBlock ≠ 0) wallet)
  | some wtx =>
    let (fUpdated, merged) := mergeTx wtxIn wtx
    let wallet := modifyAt hash (fun _ => merged) wallet
    if fUpdated && !written then (false, wallet)
    else (true, walletUpdateSpent ctx wtx.tx (wtxIn.hashBlock ≠ 0) wallet)

def isMine (tx : CTransaction) : Bool :=
  tx.vout.any fun txout =>
    ctx.isMine txout.scriptPubKey && txout.nValue ≥ ctx.nMinimumInputValue

/-- The value of an output of the wallet that an input spends. -/
def inputDebit (wallet : CWallet) (txin : CTxIn) : Int :=
  match find txin.prevout.hash wallet with
  | some prev =>
    match prev.tx.vout[txin.prevout.n]? with
    | some txout => if ctx.isMine txout.scriptPubKey then txout.nValue else 0
    | none => 0
  | none => 0

def getDebitFrom (wallet : CWallet) (nDebit : Int) : List CTxIn → Outcome Int
  | [] => .ok nDebit
  | txin :: vin =>
    let nDebit := nDebit + inputDebit ctx wallet txin
    if !moneyRange nDebit then raise "CWallet::GetDebit() : value out of range"
    else getDebitFrom wallet nDebit vin

def isFromMe (wallet : CWallet) (tx : CTransaction) : Outcome Bool :=
  getDebitFrom ctx wallet 0 tx.vin >>= fun nDebit => .ok (nDebit > 0)

/-- A block as `SetMerkleBranch` reads it. -/
structure BlockView where
  hash : UInt256
  vtx : List CTransaction
  merkleBranch : Nat → List UInt256

def setMerkleBranch (block : BlockView) (wtx : CWalletTx) : CWalletTx :=
  match block.vtx.findIdx? (· == wtx.tx) with
  | some nIndex =>
    { wtx with
      hashBlock := block.hash, nIndex := nIndex, vMerkleBranch := block.merkleBranch nIndex }
  | none => { wtx with hashBlock := block.hash, nIndex := -1, vMerkleBranch := [] }

def newWalletTx (tx : CheckedTransaction) (pblock : Option BlockView) : CWalletTx :=
  let wtx : CWalletTx := { tx with
    hashBlock := 0, nIndex := -1, vMerkleBranch := [], fFromMe := false, vfSpent := [] }
  match pblock with
  | some block => setMerkleBranch block wtx
  | none => wtx

/-- The result, and the wallet that the call leaves. -/
def addToWalletIfInvolvingMe (tx : CheckedTransaction) (pblock : Option BlockView)
    (fUpdate written : Bool) (wallet : CWallet) : Outcome Bool × CWallet :=
  let fExisted := (find (ctx.getHash tx.tx) wallet).isSome
  if fExisted && !fUpdate then (.ok false, wallet)
  else
    match (if fExisted || isMine ctx tx.tx then .ok true else isFromMe ctx wallet tx.tx) with
    | .error fault => (.error fault, wallet)
    | .ok false => (.ok false, walletUpdateSpent ctx tx.tx false wallet)
    | .ok true =>
      let (added, wallet) := addToWallet ctx (newWalletTx tx pblock) written wallet
      (.ok added, wallet)

/-- The loop of `CommitTransaction` that marks the coins. -/
def markCoins : List CTxIn → CWallet → Outcome Bool × CWallet
  | [], wallet => (.ok true, wallet)
  | txin :: vin, wallet =>
    match find txin.prevout.hash wallet with
    | none => (.ok false, wallet)
    | some coin =>
      match coin.markSpent txin.prevout.n with
      | .error fault => (.error fault, wallet)
      | .ok coin => markCoins vin (modifyAt txin.prevout.hash (fun _ => coin) wallet)

/-- Up to the broadcast, which does not change the wallet. -/
def commitTransaction (wtxNew : CWalletTx) (written : Bool) (wallet : CWallet) :
    Outcome Bool × CWallet :=
  markCoins wtxNew.tx.vin (addToWallet ctx wtxNew written wallet).2

/-- One turn of the loop of `DisableTransaction`. -/
def refundInput (txin : CTxIn) (wallet : CWallet) : CWallet :=
  match find txin.prevout.hash wallet with
  | some prev =>
    if ownsOutput ctx prev.tx txin.prevout.n then
      modifyAt txin.prevout.hash (·.setSpent txin.prevout.n false) wallet
    else wallet
  | none => wallet

def disableTransaction (tx : CTransaction) (wallet : CWallet) : Outcome Unit × CWallet :=
  if !isCoinStake tx then (.ok (), wallet)
  else
    match isFromMe ctx wallet tx with
    | .error fault => (.error fault, wallet)
    | .ok false => (.ok (), wallet)
    | .ok true => (.ok (), tx.vin.foldl (fun wallet txin => refundInput ctx txin wallet) wallet)

def syncWithWallets (tx : CheckedTransaction) (pblock : Option BlockView)
    (fUpdate fConnect written : Bool) (wallet : CWallet) : Outcome Unit × CWallet :=
  if !fConnect then
    if isCoinStake tx.tx then
      match isFromMe ctx wallet tx.tx with
      | .error fault => (.error fault, wallet)
      | .ok false => (.ok (), wallet)
      | .ok true => disableTransaction ctx tx.tx wallet
    else (.ok (), wallet)
  else
    let (added, wallet) := addToWalletIfInvolvingMe ctx tx pblock fUpdate written wallet
    (added >>= fun _ => .ok (), wallet)

end Wallet

section Changes

variable {ctx : WalletContext}

def txAt (wallet : CWallet) (hash : UInt256) : Option CTransaction :=
  (find hash wallet).map (·.tx)

def flagAt (wallet : CWallet) (coin : COutPoint) : Bool :=
  match find coin.hash wallet with
  | some wtx => wtx.spentFlag coin.n
  | none => false

/-- The coin is an output of a transaction of the wallet and belongs to it. -/
def OwnsCoin (ctx : WalletContext) (wallet : CWallet) (coin : COutPoint) : Prop :=
  ∃ tx, txAt wallet coin.hash = some tx ∧ ownsOutput ctx tx coin.n = true

/-- A call that changes flags only, and clears only some. -/
structure FlagChanges (ctx : WalletContext) (cleared : COutPoint → Prop) (wallet wallet' : CWallet) :
    Prop where
  txAt_eq : ∀ hash, txAt wallet' hash = txAt wallet hash
  kept : ∀ coin, OwnsCoin ctx wallet coin → ¬cleared coin → flagAt wallet coin = true →
    flagAt wallet' coin = true

variable {wallet wallet' : CWallet}

theorem FlagChanges.ownsCoin (h : FlagChanges ctx cleared wallet wallet')
    (howns : OwnsCoin ctx wallet coin) : OwnsCoin ctx wallet' coin := by
  rw [OwnsCoin, h.txAt_eq]
  exact howns

theorem FlagChanges.refl (cleared : COutPoint → Prop) (wallet : CWallet) :
    FlagChanges ctx cleared wallet wallet where
  txAt_eq _ := rfl
  kept _ _ _ hflag := hflag

theorem FlagChanges.trans (h : FlagChanges ctx cleared wallet wallet')
    (h' : FlagChanges ctx cleared wallet' wallet'') : FlagChanges ctx cleared wallet wallet'' where
  txAt_eq hash := (h'.txAt_eq hash).trans (h.txAt_eq hash)
  kept coin howns hnot hflag :=
    h'.kept coin (h.ownsCoin howns) hnot (h.kept coin howns hnot hflag)

theorem FlagChanges.foldl {f : CTxIn → CWallet → CWallet} (vin : List CTxIn)
    (hstep : ∀ txin ∈ vin, ∀ wallet, FlagChanges ctx cleared wallet (f txin wallet))
    (wallet : CWallet) :
    FlagChanges ctx cleared wallet (vin.foldl (fun wallet txin => f txin wallet) wallet) := by
  induction vin generalizing wallet with
  | nil => exact .refl cleared wallet
  | cons txin vin ih =>
    rw [forall_mem_cons] at hstep
    exact (hstep.1 wallet).trans (ih hstep.2 _)

/-- What a call does to the wallet: no transaction is lost or changed, new ones
are under their hash, and only some flags are cleared. -/
structure Changes (ctx : WalletContext) (cleared : COutPoint → Prop) (wallet wallet' : CWallet) :
    Prop where
  known : ∀ hash tx, txAt wallet hash = some tx → txAt wallet' hash = some tx
  keyed : ∀ hash tx, txAt wallet' hash = some tx → txAt wallet hash = some tx ∨
    ctx.getHash tx = hash
  kept : ∀ coin, OwnsCoin ctx wallet coin → ¬cleared coin → flagAt wallet coin = true →
    flagAt wallet' coin = true

theorem FlagChanges.changes (h : FlagChanges ctx cleared wallet wallet')
    (hsub : ∀ coin, OwnsCoin ctx wallet coin → cleared coin → cleared' coin) :
    Changes ctx cleared' wallet wallet' where
  known hash tx htx := by rw [h.txAt_eq, htx]
  keyed hash tx htx := by
    rw [h.txAt_eq] at htx
    exact Or.inl htx
  kept coin howns hnot := h.kept coin howns fun hcleared => hnot (hsub coin howns hcleared)

theorem Changes.ownsCoin (h : Changes ctx cleared wallet wallet') (howns : OwnsCoin ctx wallet coin)
    :
    OwnsCoin ctx wallet' coin := by
  obtain ⟨tx, htx, howned⟩ := howns
  exact ⟨tx, h.known _ _ htx, howned⟩

theorem Changes.refl (cleared : COutPoint → Prop) (wallet : CWallet) :
    Changes ctx cleared wallet wallet :=
  (FlagChanges.refl cleared wallet).changes fun _ _ hcleared => hcleared

theorem Changes.trans (h : Changes ctx cleared wallet wallet')
    (h' : Changes ctx cleared wallet' wallet'') : Changes ctx cleared wallet wallet'' where
  known hash tx htx := h'.known hash tx (h.known hash tx htx)
  keyed hash tx htx := (h'.keyed hash tx htx).elim (h.keyed hash tx) Or.inr
  kept coin howns hnot hflag :=
    h'.kept coin (h.ownsCoin howns) hnot (h.kept coin howns hnot hflag)

theorem Changes.mono (h : Changes ctx cleared wallet wallet')
    (hsub : ∀ coin, OwnsCoin ctx wallet coin → cleared coin → cleared' coin) :
    Changes ctx cleared' wallet wallet' where
  known := h.known
  keyed := h.keyed
  kept coin howns hnot := h.kept coin howns fun hcleared => hnot (hsub coin howns hcleared)

theorem flagAt_eq (hfind : find coin.hash wallet = some wtx) :
    flagAt wallet coin = wtx.spentFlag coin.n := by
  rw [flagAt, hfind]

theorem lt_of_ownsOutput (howned : ownsOutput ctx tx n = true) : n < tx.vout.length := by
  rw [ownsOutput] at howned
  split at howned
  · rename_i txout htxout
    exact (List.getElem?_eq_some_iff.mp htxout).1
  · cases howned

theorem OwnsCoin.exists_find (howns : OwnsCoin ctx wallet coin) :
    ∃ wtx, find coin.hash wallet = some wtx ∧ ownsOutput ctx wtx.tx coin.n = true := by
  obtain ⟨tx, htx, howned⟩ := howns
  obtain ⟨wtx, hfind, rfl⟩ := Option.map_eq_some_iff.mp htx
  exact ⟨wtx, hfind, howned⟩

theorem flagChanges_modifyAt
    (htx : ∀ wtx, find hash wallet = some wtx → (f wtx).tx = wtx.tx) (hflag : ∀ wtx n, find hash
      wallet = some wtx → ownsOutput ctx wtx.tx n = true → ¬cleared ⟨hash, n⟩ → wtx.spentFlag n =
      true → (f wtx).spentFlag n = true) :
    FlagChanges ctx cleared wallet (modifyAt hash f wallet) := by
  have htxAt : ∀ other, txAt (modifyAt hash f wallet) other = txAt wallet other :=
    map_find_modifyAt htx
  refine ⟨htxAt, ?_⟩
  intro coin howns hnot hspent
  obtain ⟨wtx, hfind, howned⟩ := howns.exists_find
  rcases eq_or_ne coin.hash hash with rfl | hne
  · have hfind' : find coin.hash (modifyAt coin.hash f wallet) = some (f wtx) := by
      rw [find_modifyAt_self, hfind]
      rfl
    rw [flagAt_eq hfind] at hspent
    rw [flagAt_eq hfind']
    exact hflag wtx coin.n hfind howned hnot hspent
  · rw [flagAt, find_modifyAt_of_ne hne]
    exact hspent

end Changes

section Calls

variable {ctx : WalletContext} {wallet : CWallet}

theorem flagChanges_markInputSpent (txin : CTxIn) :
    FlagChanges ctx cleared wallet (markInputSpent ctx txin wallet) := by
  rw [markInputSpent]
  split
  · split
    · refine flagChanges_modifyAt (fun wtx _ => rfl) fun wtx n _ howned _ hspent => ?_
      rw [CWalletTx.spentFlag_setSpent (lt_of_ownsOutput howned), hspent]
      exact ite_self true
    · exact .refl cleared wallet
  · exact .refl cleared wallet

theorem flagChanges_markInputs (vin : List CTxIn) :
    FlagChanges ctx cleared wallet
      (vin.foldl (fun wallet txin => markInputSpent ctx txin wallet) wallet) :=
  FlagChanges.foldl vin (fun txin _ _ => flagChanges_markInputSpent txin) wallet

theorem flagAt_markInputs {vin : List CTxIn} (hcoin : coin ∈ vin.map (·.prevout))
    (howns : OwnsCoin ctx wallet coin) :
    flagAt (vin.foldl (fun wallet txin => markInputSpent ctx txin wallet) wallet) coin = true := by
  induction vin generalizing wallet with
  | nil => cases hcoin
  | cons txin vin ih =>
    have hfirst : FlagChanges ctx (fun _ => False) wallet (markInputSpent ctx txin wallet) :=
      flagChanges_markInputSpent txin
    rcases mem_cons.mp hcoin with rfl | hcoin
    · have hrest : FlagChanges ctx (fun _ => False) (markInputSpent ctx txin wallet) _ :=
        flagChanges_markInputs vin
      refine hrest.kept _ (hfirst.ownsCoin howns) not_false ?_
      obtain ⟨wtx, hfind, howned⟩ := howns.exists_find
      rw [markInputSpent, hfind]
      dsimp only
      split
      · have hfind' : find txin.prevout.hash
            (modifyAt txin.prevout.hash (·.setSpent txin.prevout.n true) wallet) =
              some (wtx.setSpent txin.prevout.n true) := by
          rw [find_modifyAt_self, hfind]
          rfl
        rw [flagAt_eq hfind', CWalletTx.spentFlag_setSpent (lt_of_ownsOutput howned), if_pos rfl]
      rename_i hspent
      rw [howned, Bool.true_and, Bool.not_eq_true, Bool.not_eq_false'] at hspent
      rw [flagAt_eq hfind]
      exact hspent
    · exact ih hcoin (hfirst.ownsCoin howns)

theorem tx_markOwnUnspent (i : Nat) (vout : List CTxOut) (wtx : CWalletTx) :
    (markOwnUnspent ctx i vout wtx).tx = wtx.tx := by
  induction vout generalizing i wtx with
  | nil => rfl
  | cons txout vout ih =>
    rw [markOwnUnspent, ih]
    split
    · rfl
    · rfl

theorem flagChanges_walletUpdateSpent (ctx : WalletContext) (wallet : CWallet) (tx : CTransaction)
    (fBlock : Bool) :
    FlagChanges ctx (fun coin => fBlock = true ∧ coin.hash = ctx.getHash tx) wallet
      (walletUpdateSpent ctx tx fBlock wallet) := by
  rw [walletUpdateSpent]
  refine (flagChanges_markInputs tx.vin).trans ?_
  split
  · rename_i hblock
    refine flagChanges_modifyAt (fun wtx _ => tx_markOwnUnspent 0 tx.vout wtx) ?_
    intro wtx n _ _ hnot
    exact absurd ⟨hblock, rfl⟩ hnot
  · exact .refl _ _

def Keyed (ctx : WalletContext) (wallet : CWallet) : Prop :=
  ∀ hash tx, txAt wallet hash = some tx → ctx.getHash tx = hash

theorem Changes.keyed_of (h : Changes ctx cleared wallet wallet') (hkeyed : Keyed ctx wallet) :
    Keyed ctx wallet' := by
  intro hash tx htx
  rcases h.keyed hash tx htx with hold | hnew
  · exact hkeyed hash tx hold
  · exact hnew

theorem changes_insertNew (hnone : find (ctx.getHash wtxIn.tx) wallet = none) :
    Changes ctx cleared wallet (insertNew (ctx.getHash wtxIn.tx) wtxIn wallet) := by
  have hfind := find_insertNew_of_none hnone wtxIn
  have hne : ∀ {hash : UInt256}, (∃ tx, txAt wallet hash = some tx) → ctx.getHash wtxIn.tx ≠ hash := by
    rintro hash ⟨tx, htx⟩ rfl
    rw [txAt, hnone] at htx
    cases htx
  refine ⟨?_, ?_, ?_⟩
  · intro hash tx htx
    rw [txAt, hfind, if_neg (hne ⟨tx, htx⟩)]
    exact htx
  · intro hash tx htx
    rw [txAt, hfind] at htx
    split at htx
    · rename_i heq
      cases htx
      exact Or.inr heq
    · exact Or.inl htx
  rintro coin ⟨tx, htx, -⟩ - hspent
  rw [flagAt, hfind, if_neg (hne ⟨tx, htx⟩)]
  exact hspent

theorem flagChanges_mergeTx (wtxIn : CWalletTx)
    (hfind : find hash wallet = some wtx) :
    FlagChanges ctx cleared wallet (modifyAt hash (fun _ => (mergeTx wtxIn wtx).2) wallet) := by
  refine flagChanges_modifyAt ?_ ?_
  · intro known hknown
    obtain rfl := Option.mem_unique hfind hknown
    rfl
  intro known n hknown _ _ hspent
  obtain rfl := Option.mem_unique hfind hknown
  exact updateSpent_getD wtxIn.vfSpent wtx.vfSpent n hspent

theorem flagChanges_addToWallet (hkeyed : Keyed ctx wallet)
    (hfind : find (ctx.getHash wtxIn.tx) wallet = some wtx) (written : Bool) :
    FlagChanges ctx (fun coin => wtxIn.hashBlock ≠ 0 ∧ coin.hash = ctx.getHash wtxIn.tx) wallet
      (addToWallet ctx wtxIn written wallet).2 := by
  have hhash : ctx.getHash wtx.tx = ctx.getHash wtxIn.tx :=
    hkeyed _ _ (by rw [txAt, hfind]; rfl)
  rw [addToWallet, hfind]
  dsimp only
  split
  · exact flagChanges_mergeTx wtxIn hfind
  refine (flagChanges_mergeTx wtxIn hfind).trans ?_
  have hupdate := fun merged : CWallet =>
    flagChanges_walletUpdateSpent ctx merged wtx.tx (decide (wtxIn.hashBlock ≠ 0))
  simp only [decide_eq_true_eq, hhash] at hupdate
  exact hupdate _

theorem addToWallet_of_none (hnone : find (ctx.getHash wtxIn.tx) wallet = none) (written : Bool) :
    (addToWallet ctx wtxIn written wallet).2 =
      if written then walletUpdateSpent ctx wtxIn.tx (wtxIn.hashBlock ≠ 0)
        (insertNew (ctx.getHash wtxIn.tx) wtxIn wallet)
      else insertNew (ctx.getHash wtxIn.tx) wtxIn wallet := by
  rw [addToWallet, hnone]
  cases written <;> rfl

theorem changes_addToWallet (hkeyed : Keyed ctx wallet) (wtxIn : CWalletTx) (written : Bool) :
    Changes ctx (fun coin => wtxIn.hashBlock ≠ 0 ∧ coin.hash = ctx.getHash wtxIn.tx) wallet
      (addToWallet ctx wtxIn written wallet).2 := by
  rcases hfind : find (ctx.getHash wtxIn.tx) wallet with _ | wtx
  · rw [addToWallet_of_none hfind]
    refine (changes_insertNew hfind).trans ?_
    split
    · refine (flagChanges_walletUpdateSpent _ _ _ _).changes ?_
      rintro coin - ⟨hblock, hhash⟩
      exact ⟨of_decide_eq_true hblock, hhash⟩
    · exact .refl _ _
  · exact (flagChanges_addToWallet hkeyed hfind written).changes fun _ _ hcleared => hcleared

theorem addToWallet_added (hkeyed : Keyed ctx wallet)
    (hnone : txAt wallet hash = none)
    (hadded : txAt (addToWallet ctx wtxIn written wallet).2 hash = some tx) :
    find (ctx.getHash wtxIn.tx) wallet = none ∧ tx = wtxIn.tx := by
  rcases hfind : find (ctx.getHash wtxIn.tx) wallet with _ | wtx
  · refine ⟨rfl, ?_⟩
    have htx : txAt (addToWallet ctx wtxIn written wallet).2 hash =
        txAt (insertNew (ctx.getHash wtxIn.tx) wtxIn wallet) hash := by
      rw [addToWallet_of_none hfind]
      split
      · exact (flagChanges_walletUpdateSpent _ _ _ _).txAt_eq hash
      · rfl
    rw [htx, txAt, find_insertNew_of_none hfind] at hadded
    split at hadded
    · exact (Option.some.inj hadded).symm
    rw [txAt] at hnone
    rw [hnone] at hadded
    cases hadded
  · rw [(flagChanges_addToWallet hkeyed hfind written).txAt_eq, hnone] at hadded
    cases hadded

theorem flagAt_addToWallet (hnone : find (ctx.getHash wtxIn.tx) wallet = none)
    (hcoin : coin ∈ wtxIn.tx.vin.map (·.prevout)) (howns : OwnsCoin ctx wallet coin) :
    flagAt (addToWallet ctx wtxIn true wallet).2 coin = true := by
  have hinsert : Changes ctx (fun _ => False) wallet
      (insertNew (ctx.getHash wtxIn.tx) wtxIn wallet) := changes_insertNew hnone
  have hmarked := flagAt_markInputs hcoin (hinsert.ownsCoin howns)
  have hne : coin.hash ≠ ctx.getHash wtxIn.tx := by
    intro heq
    obtain ⟨wtx, hfind, -⟩ := howns.exists_find
    rw [heq, hnone] at hfind
    cases hfind
  rw [addToWallet_of_none hnone, if_pos rfl, walletUpdateSpent]
  split
  · rw [flagAt, find_modifyAt_of_ne hne]
    exact hmarked
  · exact hmarked

theorem flagChanges_markCoins (vin : List CTxIn) :
    FlagChanges ctx cleared wallet (markCoins vin wallet).2 := by
  induction vin generalizing wallet with
  | nil => exact .refl cleared wallet
  | cons txin vin ih =>
    rw [markCoins]
    split
    · exact .refl cleared wallet
    rename_i coin hfind
    split
    · exact .refl cleared wallet
    rename_i marked hmarked
    refine FlagChanges.trans ?_ ih
    rw [CWalletTx.markSpent] at hmarked
    split at hmarked
    · cases hmarked
    cases hmarked
    refine flagChanges_modifyAt ?_ ?_
    · intro known hknown
      obtain rfl := Option.mem_unique hfind hknown
      rfl
    intro known n hknown howned _ hspent
    obtain rfl := Option.mem_unique hfind hknown
    rw [CWalletTx.spentFlag_setSpent (lt_of_ownsOutput howned), hspent]
    exact ite_self true

theorem flagChanges_disableTransaction (tx : CTransaction) :
    FlagChanges ctx (fun coin => isCoinStake tx = true ∧ coin ∈ tx.vin.map (·.prevout)) wallet
      (disableTransaction ctx tx wallet).2 := by
  rw [disableTransaction]
  split
  · exact .refl _ wallet
  rename_i hstake
  rw [Bool.not_eq_true', Bool.not_eq_false] at hstake
  split
  · exact .refl _ wallet
  · exact .refl _ wallet
  refine FlagChanges.foldl tx.vin (fun txin htxin wallet => ?_) wallet
  rw [refundInput]
  split
  · split
    · refine flagChanges_modifyAt (fun wtx _ => rfl) fun wtx n _ howned hnot hspent => ?_
      rw [CWalletTx.spentFlag_setSpent (lt_of_ownsOutput howned), if_neg, hspent]
      intro heq
      exact hnot (by rw [← heq]; exact ⟨hstake, mem_map_of_mem htxin⟩)
    · exact .refl _ wallet
  · exact .refl _ wallet

end Calls

section Runs

/-- A notification. A rescan is a sequence of `sync` notifications, one for each
transaction of the blocks that it reads. -/
inductive WalletEvent where
  | commit (wtxNew : CWalletTx) (written : Bool)
  | sync (tx : CheckedTransaction) (pblock : Option BlockView) (fUpdate fConnect written : Bool)

def WalletEvent.written : WalletEvent → Bool
  | .commit _ written => written
  | .sync _ _ _ _ written => written

/-- The wallet after a notification, also after one that throws. -/
def notify (ctx : WalletContext) (wallet : CWallet) : WalletEvent → CWallet
  | .commit wtxNew written => (commitTransaction ctx wtxNew written wallet).2
  | .sync tx pblock fUpdate fConnect written =>
    (syncWithWallets ctx tx pblock fUpdate fConnect written wallet).2

def notifyAll (ctx : WalletContext) (wallet : CWallet) (events : List WalletEvent) : CWallet :=
  events.foldl (notify ctx) wallet

/-- The flags that a notification clears: those of a transaction that is reported
in a block, and those of the inputs of a coinstake that is disconnected. -/
def Clears (ctx : WalletContext) : WalletEvent → COutPoint → Prop
  | .commit wtxNew _, coin => wtxNew.hashBlock ≠ 0 ∧ coin.hash = ctx.getHash wtxNew.tx
  | .sync tx pblock fUpdate true _, coin =>
    fUpdate = true ∧ (∃ block, pblock = some block ∧ block.hash ≠ 0) ∧
      coin.hash = ctx.getHash tx.tx
  | .sync tx _ _ false _, coin => isCoinStake tx.tx = true ∧ coin ∈ tx.tx.vin.map (·.prevout)

variable {ctx : WalletContext} {wallet : CWallet}

theorem tx_newWalletTx (tx : CheckedTransaction) (pblock : Option BlockView) :
    (newWalletTx tx pblock).tx = tx.tx := by
  rcases pblock with _ | block
  · rfl
  change (setMerkleBranch block _).tx = tx.tx
  rw [setMerkleBranch]
  split
  · rfl
  · rfl

theorem changes_addToWalletIfInvolvingMe (hkeyed : Keyed ctx wallet) (tx : CheckedTransaction)
    (pblock : Option BlockView) (fUpdate written : Bool) :
    Changes ctx (Clears ctx (.sync tx pblock fUpdate true written)) wallet
      (addToWalletIfInvolvingMe ctx tx pblock fUpdate written wallet).2 := by
  rw [addToWalletIfInvolvingMe]
  dsimp only
  split
  · exact .refl _ wallet
  rename_i hprocessed
  split
  · exact .refl _ wallet
  · refine (flagChanges_walletUpdateSpent ctx wallet tx.tx false).changes ?_
    rintro coin - ⟨hfalse, -⟩
    cases hfalse
  refine (changes_addToWallet hkeyed (newWalletTx tx pblock) written).mono ?_
  rintro coin ⟨known, hknown, -⟩ ⟨hblock, hhash⟩
  rw [tx_newWalletTx] at hhash
  refine ⟨?_, ?_, hhash⟩
  swap
  · rcases pblock with _ | block
    · exact absurd rfl hblock
    refine ⟨block, rfl, ?_⟩
    change (setMerkleBranch block _).hashBlock ≠ 0 at hblock
    rw [setMerkleBranch] at hblock
    split at hblock
    · exact hblock
    · exact hblock
  -- a transaction that is not updated was not in the wallet
  rw [hhash, txAt, Option.map_eq_some_iff] at hknown
  obtain ⟨wtx, hfind, -⟩ := hknown
  simpa [hfind] using hprocessed

theorem flagChanges_disconnect (tx : CheckedTransaction) (pblock : Option BlockView)
    (fUpdate written : Bool) :
    FlagChanges ctx (Clears ctx (.sync tx pblock fUpdate false written)) wallet
      (notify ctx wallet (.sync tx pblock fUpdate false written)) := by
  rw [notify, syncWithWallets, Bool.not_false, if_pos rfl]
  split
  · split
    · exact .refl _ wallet
    · exact .refl _ wallet
    · exact flagChanges_disableTransaction tx.tx
  · exact .refl _ wallet

theorem changes_notify (hkeyed : Keyed ctx wallet) (event : WalletEvent) :
    Changes ctx (Clears ctx event) wallet (notify ctx wallet event) := by
  cases event with
  | commit wtxNew written =>
    exact (changes_addToWallet hkeyed wtxNew written).trans
      ((flagChanges_markCoins wtxNew.tx.vin).changes fun _ _ hcleared => hcleared)
  | sync tx pblock fUpdate fConnect written =>
    cases fConnect with
    | true => exact changes_addToWalletIfInvolvingMe hkeyed tx pblock fUpdate written
    | false =>
      exact (flagChanges_disconnect tx pblock fUpdate written).changes
        fun _ _ hcleared => hcleared

theorem flagAt_notify_added (hkeyed : Keyed ctx wallet) (hwritten : event.written = true)
    (hnone : txAt wallet hash = none)
    (hadded : txAt (notify ctx wallet event) hash = some tx) (hcoin : coin ∈ tx.vin.map (·.prevout))
    (howns : OwnsCoin ctx wallet coin) : flagAt (notify ctx wallet event) coin = true := by
  cases event with
  | commit wtxNew written =>
    obtain rfl : written = true := hwritten
    have hmarks : FlagChanges ctx (fun _ => False) _ (notify ctx wallet (.commit wtxNew true)) :=
      flagChanges_markCoins wtxNew.tx.vin
    rw [hmarks.txAt_eq] at hadded
    obtain ⟨hfind, rfl⟩ := addToWallet_added hkeyed hnone hadded
    exact hmarks.kept coin ((changes_addToWallet hkeyed wtxNew true).ownsCoin howns) not_false
      (flagAt_addToWallet hfind hcoin howns)
  | sync tx' pblock fUpdate fConnect written =>
    obtain rfl : written = true := hwritten
    cases fConnect with
    | false =>
      rw [(flagChanges_disconnect tx' pblock fUpdate true).txAt_eq, hnone] at hadded
      cases hadded
    | true =>
      change txAt (addToWalletIfInvolvingMe ctx tx' pblock fUpdate true wallet).2 hash = some tx
        at hadded
      change flagAt (addToWalletIfInvolvingMe ctx tx' pblock fUpdate true wallet).2 coin = true
      rw [addToWalletIfInvolvingMe] at hadded ⊢
      dsimp only at hadded ⊢
      split at hadded
      · exact absurd (hnone.symm.trans hadded) (by simp)
      rename_i hprocessed
      rw [if_neg hprocessed]
      split at hadded
      · exact absurd (hnone.symm.trans hadded) (by simp)
      · rw [(flagChanges_walletUpdateSpent _ _ _ _).txAt_eq, hnone] at hadded
        cases hadded
      · obtain ⟨hfind, rfl⟩ := addToWallet_added hkeyed hnone hadded
        exact flagAt_addToWallet hfind hcoin howns

/-- A transaction of the wallet other than a coinstake spends the coin. -/
def SpentBy (wallet : CWallet) (coin : COutPoint) : Prop :=
  ∃ hash tx, txAt wallet hash = some tx ∧ isCoinStake tx = false ∧ coin ∈ tx.vin.map (·.prevout)

/-- The record is written, and no coin of the wallet whose flag is cleared is
spent by a transaction of the wallet. -/
structure KeepsSpent (ctx : WalletContext) (wallet : CWallet) (event : WalletEvent) : Prop where
  written : event.written = true
  not_spent : ∀ coin, OwnsCoin ctx wallet coin → Clears ctx event coin → ¬SpentBy wallet coin

/-- All notifications of a run do so, each in the state in which it arrives. -/
def RunKeepsSpent (ctx : WalletContext) : CWallet → List WalletEvent → Prop
  | _, [] => True
  | wallet, event :: events =>
    KeepsSpent ctx wallet event ∧ RunKeepsSpent ctx (notify ctx wallet event) events

/-- A coin that is spent by a transaction of the wallet keeps its flag. -/
theorem flagAt_notifyAll (hkeyed : Keyed ctx wallet) (hkeeps : RunKeepsSpent ctx wallet events)
    (howns : OwnsCoin ctx wallet coin) (hspent : SpentBy wallet coin)
    (hflag : flagAt wallet coin = true) :
    OwnsCoin ctx (notifyAll ctx wallet events) coin ∧
      flagAt (notifyAll ctx wallet events) coin = true := by
  induction events generalizing wallet with
  | nil => exact ⟨howns, hflag⟩
  | cons event events ih =>
    obtain ⟨hstep, hrest⟩ := hkeeps
    have hchanges := changes_notify hkeyed event
    obtain ⟨hash, tx, htx, hstake, hcoin⟩ := hspent
    refine ih (hchanges.keyed_of hkeyed) hrest (hchanges.ownsCoin howns)
      ⟨hash, tx, hchanges.known hash tx htx, hstake, hcoin⟩ (hchanges.kept coin howns ?_ hflag)
    exact fun hclears => hstep.not_spent coin howns hclears ⟨hash, tx, htx, hstake, hcoin⟩

/-- Whether `AvailableCoins` lists an output. The tests on the transaction as a
whole and the choice of the user are parameters. -/
def offersCoin (ctx : WalletContext) (eligible : CWalletTx → Bool) (selected : COutPoint → Bool)
    (wallet : CWallet) (coin : COutPoint) : Bool :=
  match find coin.hash wallet with
  | some wtx =>
    eligible wtx &&
      match wtx.tx.vout[coin.n]? with
      | some txout =>
        !wtx.spentFlag coin.n && ctx.isMine txout.scriptPubKey &&
          txout.nValue ≥ ctx.nMinimumInputValue && selected coin
      | none => false
  | none => false

/-- A coin of the wallet that a transaction spends when it is added is spent from
then on and never offered, in a run in which no flag of a spent coin is cleared. -/
theorem spent_coin_stays_spent (ctx : WalletContext) (wallet : CWallet) (event : WalletEvent)
    (later : List WalletEvent) (coin : COutPoint) (spenderHash : UInt256) (spender : CTransaction)
    (hkeyed : Keyed ctx wallet) (howns : OwnsCoin ctx wallet coin)
    (hnew : txAt wallet spenderHash = none)
    (hadded : txAt (notify ctx wallet event) spenderHash = some spender)
    (hstake : isCoinStake spender = false) (hcoin : coin ∈ spender.vin.map (·.prevout))
    (hkeeps : RunKeepsSpent ctx wallet (event :: later)) :
    ∃ wtx, find coin.hash (notifyAll ctx wallet (event :: later)) = some wtx ∧
      wtx.isSpent coin.n = .ok true ∧
      ∀ eligible selected,
        offersCoin ctx eligible selected (notifyAll ctx wallet (event :: later)) coin = false := by
  have hchanges := changes_notify hkeyed event
  obtain ⟨howns', hflag⟩ := flagAt_notifyAll (hchanges.keyed_of hkeyed) hkeeps.2
    (hchanges.ownsCoin howns) ⟨spenderHash, spender, hadded, hstake, hcoin⟩
    (flagAt_notify_added hkeyed hkeeps.1.written hnew hadded hcoin howns)
  obtain ⟨wtx, hfind, howned⟩ := howns'.exists_find
  rw [flagAt_eq hfind] at hflag
  refine ⟨wtx, hfind, ?_, fun eligible selected => ?_⟩
  · rw [CWalletTx.isSpent, if_neg (Nat.not_le.mpr (lt_of_ownsOutput howned))]
    exact congrArg _ hflag
  · change find coin.hash (notifyAll ctx wallet (event :: later)) = _ at hfind
    rw [offersCoin, hfind]
    cases hout : wtx.tx.vout[coin.n]? <;> simp [hflag, hout]

/-! A wallet that owns every output with a script. Hashes tell transactions apart
by their time. -/

def ownContext : WalletContext := ⟨timeEnv.getHash, fun script => script ≠ [], 0⟩

/-- A payment to the wallet, not yet in a block. -/
def receivedTx : CheckedTransaction := ⟨⟨1, [], [⟨5, [1]⟩], 0⟩, 5, by decide⟩

def sentTx : CheckedTransaction := ⟨⟨2, [⟨⟨1, 0⟩, []⟩], [⟨4, []⟩], 0⟩, 4, by decide⟩

def receivingWallet : CWallet := [(1, newWalletTx receivedTx none)]

def confirmingBlock : BlockView := ⟨7, [receivedTx.tx], fun _ => []⟩

theorem spent_coin_stays_spent_in_pool :
    ∃ wtx, find 1 (notifyAll ownContext receivingWallet
        [.commit (newWalletTx sentTx none) true, .sync sentTx none true true true]) = some wtx ∧
      wtx.isSpent 0 = .ok true := by
  have hkeyed : Keyed ownContext receivingWallet := by
    intro hash tx htx
    rw [txAt, receivingWallet, find, find] at htx
    split at htx
    · rename_i heq
      cases htx
      exact heq
    · cases htx
  have hkeeps : RunKeepsSpent ownContext receivingWallet
      [.commit (newWalletTx sentTx none) true, .sync sentTx none true true true] := by
    refine ⟨⟨rfl, ?_⟩, ⟨rfl, ?_⟩, trivial⟩
    · rintro coin - ⟨hblock, -⟩
      exact absurd rfl hblock
    · rintro coin - ⟨-, ⟨block, hblock, -⟩, -⟩
      cases hblock
  obtain ⟨wtx, hfind, hspent, -⟩ := spent_coin_stays_spent ownContext receivingWallet
    (.commit (newWalletTx sentTx none) true) [.sync sentTx none true true true] ⟨1, 0⟩ 2 sentTx.tx
    hkeyed ⟨receivedTx.tx, by decide, by decide⟩ (by decide) (by decide) (by decide) (by decide)
    hkeeps
  exact ⟨wtx, hfind, hspent⟩

/-- The coin is spent by a transaction of the wallet. When the payment is
confirmed, the flag is cleared and the coin offered again. -/
theorem confirmed_coin_is_offered_again :
    let sent := notify ownContext receivingWallet (.commit (newWalletTx sentTx none) true)
    let confirmed := notify ownContext sent
      (.sync receivedTx (some confirmingBlock) true true true)
    txAt confirmed 2 = some sentTx.tx ∧ isCoinStake sentTx.tx = false ∧
      (find 1 sent).map (·.isSpent 0) = some (.ok true) ∧
      (find 1 confirmed).map (·.isSpent 0) = some (.ok false) ∧
      offersCoin ownContext (fun _ => true) (fun _ => true) confirmed ⟨1, 0⟩ = true := by
  decide +kernel

end Runs

end Bfx.WalletSpent
