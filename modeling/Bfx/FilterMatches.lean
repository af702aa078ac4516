import Bfx.BloomFilter

/-!
Bloom filters have no false negatives: a key that was inserted stays in the
filter, and `CMerkleBlock` lists the transactions that match and, with
`BLOOM_UPDATE_ALL`, those behind them that spend what matched.
-/

namespace Bfx.FilterMatches

open BloomFilter CallOutcome HexText TokenTransaction TransferInterpreter Transaction List

inductive FilterOp where
  | insert (vKey : Bytes)
  | isRelevantAndUpdate (dataSize : Nat) (tx : CTransaction) (hash : UInt256)

def FilterOp.run (filter : CBloomFilter) : FilterOp → FilterCall CBloomFilter
  | .insert vKey => filter.insert vKey
  | .isRelevantAndUpdate dataSize tx hash => do
    let (_, filter) ← BloomFilter.isRelevantAndUpdate dataSize filter tx hash
    .ok filter

def runOps (ops : List FilterOp) (filter : CBloomFilter) : FilterCall CBloomFilter :=
  ops.foldlM FilterOp.run filter

/-- `CMerkleBlock` for one block after the other. -/
def merkleBlocks (env : NodeEnv) : List (Nat × List CTransaction) → CBloomFilter →
    FilterCall (List MerkleMatches × CBloomFilter)
  | [], filter => .ok ([], filter)
  | (dataSize, vtx) :: blocks, filter => do
    let (found, filter) ← merkleBlock env dataSize vtx filter
    let (later, filter) ← merkleBlocks env blocks filter
    .ok (found :: later, filter)

/-- An output of a transaction matches when the transactions of the block before it have been
looked at. -/
def MatchedIn (env : NodeEnv) (dataSize : Nat) (filter : CBloomFilter) (front : List CTransaction)
    (parent : CTransaction) (n : Nat) : Prop :=
  ∃ found reached,
    matchTransactions env dataSize 0 front (⟨[], [], []⟩, filter) = .ok (found, reached) ∧
    MatchedAt dataSize (env.getHash parent) 0 parent.vout reached n

variable {filter next : CBloomFilter}

theorem runOps_returns (husable : Usable filter) (ops : List FilterOp) :
    Returns (runOps ops filter) (Grows filter) := by
  induction ops generalizing filter with
  | nil => exact returns_ok (.refl filter)
  | cons op ops ih =>
    have hstep : Returns (op.run filter) (Grows filter) := by
      cases op with
      | insert vKey => exact (husable.insert_returns vKey).mono fun _ h => h.1
      | isRelevantAndUpdate dataSize tx hash =>
        exact (husable.isRelevantAndUpdate_returns dataSize tx hash).bind fun _ h =>
          returns_ok h.1
    refine hstep.bind fun next hnext => ?_
    exact (ih (hnext.usable husable)).mono fun _ hlater => hnext.trans hlater

theorem relevant_of_spends (hspends : coin ∈ tx.vin.map (·.prevout))
    (hcoin : filter.contains (outPointBytes coin) = .ok true) (hash : UInt256) :
    Relevant filter tx hash := by
  obtain ⟨txin, htxin, rfl⟩ := mem_map.mp hspends
  exact .inr (.inr ⟨txin, htxin, .inl hcoin⟩)

/-- What `CMerkleBlock` lists in later blocks. -/
theorem merkleBlocks_returns (env : NodeEnv) (husable : Usable filter)
    (blocks : List (Nat × List CTransaction)) :
    Returns (merkleBlocks env blocks filter) fun result => Grows filter result.2 ∧
      List.Forall₂ (fun block found => ∀ j tx, block.2[j]? = some tx →
        Relevant filter tx (env.getHash tx) → (j, env.getHash tx) ∈ found.vMatchedTxn)
        blocks result.1 := by
  induction blocks generalizing filter with
  | nil => exact returns_ok ⟨.refl filter, .nil⟩
  | cons block blocks ih =>
    obtain ⟨dataSize, vtx⟩ := block
    refine (husable.matchTransactions_returns env dataSize 0 vtx _).bind ?_
    rintro ⟨found, next⟩ ⟨hgrows, -, hlisted⟩
    refine (ih (hgrows.usable husable)).bind fun later ⟨hlater, hrest⟩ => ?_
    refine returns_ok ⟨hgrows.trans hlater, .cons ?_ (hrest.imp ?_)⟩
    · simpa only [Nat.zero_add] using hlisted
    · exact fun _ _ h j tx htx hrelevant => h j tx htx (hgrows.relevant hrelevant)

theorem matchTransactions_append (env : NodeEnv) (dataSize i : Nat)
    (front back : List CTransaction) (state : MerkleMatches × CBloomFilter) :
    matchTransactions env dataSize i (front ++ back) state =
      matchTransactions env dataSize i front state >>=
        matchTransactions env dataSize (i + front.length) back := by
  induction front generalizing i state with
  | nil => rfl
  | cons tx front ih =>
    simp only [cons_append, matchTransactions, ih, bind_assoc, length_cons, Nat.add_comm _ 1,
      ← Nat.add_assoc]

/-- From an output that matched on, the transactions that spend it are listed, and the filter
contains it. -/
theorem merkleBlock_matched {env : NodeEnv} (husable : Usable filter) (hall : UpdatesAll filter)
    (h : MatchedIn env dataSize filter front parent n)
    (hblock : merkleBlock env dataSize (front ++ parent :: back) filter = .ok (found, next)) :
    next.contains (outPointBytes ⟨env.getHash parent, n⟩) = .ok true ∧
      ∀ j tx, (parent :: back)[j]? = some tx →
        ⟨env.getHash parent, n⟩ ∈ tx.vin.map (·.prevout) →
          (front.length + j, env.getHash tx) ∈ found.vMatchedTxn := by
  obtain ⟨before, reached, hfront, hmatched⟩ := h
  obtain ⟨_, hfront', hgrows, -⟩ :=
    husable.matchTransactions_returns env dataSize 0 front ⟨[], [], []⟩
  cases hfront.symm.trans hfront'
  have husable := hgrows.usable husable
  obtain ⟨⟨relevant, updated⟩, hupdated, hgrows', -, hcoin⟩ :=
    husable.isRelevantAndUpdate_returns dataSize parent (env.getHash parent)
  obtain ⟨rfl, hcoin⟩ := hcoin n hmatched
  have hcoin := hcoin (hgrows.updatesAll hall)
  rw [merkleBlock, matchTransactions_append, hfront, ok_bind, Nat.zero_add, matchTransactions,
    hupdated, ok_bind] at hblock
  obtain ⟨_, hback, hlater, hkept, hlisted⟩ :=
    (hgrows'.usable husable).matchTransactions_returns env dataSize (front.length + 1) back _
  cases hblock.symm.trans hback
  refine ⟨hlater.contains hcoin, ?_⟩
  rintro (_ | j) tx htx hspends
  · cases htx
    exact hkept (mem_append_right _ (mem_singleton_self _))
  · rw [Nat.add_comm j, ← Nat.add_assoc]
    exact hlisted j tx htx (relevant_of_spends hspends hcoin _)

/-- No false negatives: with a transaction that matches, those at and behind its place are
listed that spend the output. -/
theorem filter_has_no_false_negatives (env : NodeEnv) (filter : CBloomFilter)
    (hdata : filter.vData ≠ []) :
    (∀ ops vKey later, ∃ final, runOps (ops ++ .insert vKey :: later) filter = .ok final ∧
      final.contains vKey = .ok true) ∧
    ∀ before dataSize vtx after, ∃ earlier start found next later final,
      merkleBlocks env before filter = .ok (earlier, start) ∧
      merkleBlock env dataSize vtx start = .ok (found, next) ∧
      merkleBlocks env after next = .ok (later, final) ∧
      (∀ i tx, vtx[i]? = some tx → Relevant start tx (env.getHash tx) →
        (i, env.getHash tx) ∈ found.vMatchedTxn) ∧
      (UpdatesAll filter → ∀ front parent back n, vtx = front ++ parent :: back →
        MatchedIn env dataSize start front parent n →
          (∀ j tx, (parent :: back)[j]? = some tx →
            ⟨env.getHash parent, n⟩ ∈ tx.vin.map (·.prevout) →
              (front.length + j, env.getHash tx) ∈ found.vMatchedTxn) ∧
          List.Forall₂ (fun block matches' => ∀ j tx, block.2[j]? = some tx →
            ⟨env.getHash parent, n⟩ ∈ tx.vin.map (·.prevout) →
              (j, env.getHash tx) ∈ matches'.vMatchedTxn) after later) := by
  have husable : Usable filter := .inl hdata
  constructor
  · intro ops vKey later
    rw [runOps, foldlM_append]
    refine (runOps_returns husable ops).bind fun mid hmid => ?_
    refine ((hmid.usable husable).insert_returns vKey).bind fun inserted ⟨hgrows, hkey⟩ => ?_
    exact (runOps_returns (hgrows.usable (hmid.usable husable)) later).mono fun _ hlater =>
      hlater.contains hkey
  intro before dataSize vtx after
  obtain ⟨⟨earlier, start⟩, hbefore, hstart, -⟩ := merkleBlocks_returns env husable before
  have husable := hstart.usable husable
  obtain ⟨⟨found, next⟩, hblock, hnext, -, hlisted⟩ :=
    husable.matchTransactions_returns env dataSize 0 vtx ⟨[], [], []⟩
  obtain ⟨⟨later, final⟩, hafter, -, hlater⟩ :=
    merkleBlocks_returns env (hnext.usable husable) after
  refine ⟨earlier, start, found, next, later, final, hbefore, hblock, hafter, ?_, ?_⟩
  · simpa only [Nat.zero_add] using hlisted
  rintro hall front parent back n rfl hmatched
  obtain ⟨hcoin, hspenders⟩ :=
    merkleBlock_matched husable (hstart.updatesAll hall) hmatched hblock
  exact ⟨hspenders, hlater.imp fun _ _ h j tx htx hspends =>
    h j tx htx (relevant_of_spends hspends hcoin _)⟩

/-- A filter in which the key that `keyTx` pays to has been inserted. -/
def keyFilter : CBloomFilter := ⟨[4, 0, 0, 0, 0, 0, 0, 0], 1, 0, BLOOM_UPDATE_ALL⟩

def keyTx : CTransaction := ⟨1, [], [⟨0, [0x01, 0x07]⟩], 0⟩

def spenderTx : CTransaction := ⟨2, [⟨⟨1, 0⟩, []⟩], [], 0⟩

theorem keyTx_matches : Matches keyFilter [0x01, 0x07] :=
  ⟨[0x07], by decide, .here rfl, by decide +kernel⟩

/-- The output is added when the transaction that spends it has been passed. -/
theorem spender_in_front_not_listed : keyFilter.vData ≠ [] ∧ UpdatesAll keyFilter ∧
    MatchedIn timeEnv 80 keyFilter [spenderTx] keyTx 0 ∧
    ⟨timeEnv.getHash keyTx, 0⟩ ∈ spenderTx.vin.map (·.prevout) ∧
    ∃ found next, merkleBlock timeEnv 80 [spenderTx, keyTx] keyFilter = .ok (found, next) ∧
      found.vMatchedTxn = [(1, 1)] := by
  refine ⟨by decide, rfl, ?_, by decide, ⟨[(1, 1)], [false, true], [2, 1]⟩, _, rfl, rfl⟩
  exact ⟨_, keyFilter, rfl, _, false, _, keyFilter, rfl, rfl, keyTx_matches⟩

theorem spender_behind_listed : keyFilter.vData ≠ [] ∧ UpdatesAll keyFilter ∧
    ∃ found next, merkleBlock timeEnv 80 [keyTx, spenderTx] keyFilter = .ok (found, next) ∧
      (1, 2) ∈ found.vMatchedTxn := by
  refine ⟨by decide, rfl, ?_⟩
  obtain ⟨-, h⟩ := filter_has_no_false_negatives timeEnv keyFilter (by decide)
  obtain ⟨_, _, found, next, _, _, hbefore, hblock, -, -, hspenders⟩ := h [] 80 [keyTx, spenderTx] []
  cases hbefore
  have hmatched : MatchedIn timeEnv 80 keyFilter [] keyTx 0 :=
    ⟨_, keyFilter, rfl, _, false, _, keyFilter, rfl, rfl, keyTx_matches⟩
  exact ⟨found, next, hblock, (hspenders rfl [] keyTx [spenderTx] 0 rfl hmatched).1 1 spenderTx rfl
    (by decide)⟩

end Bfx.FilterMatches
