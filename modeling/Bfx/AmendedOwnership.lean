import Bfx.IssuanceDistribution
import Bfx.QueueRefinement
import Bfx.TransactionAmending

/-!
Where the tokens of an amended transaction go: the script is written, found in
the text of its output, parsed and interpreted.
-/

namespace Bfx.AmendedOwnership

open CallOutcome HexText IssuanceDistribution LotQueue QueueRefinement ScriptCreation
  ScriptTemplates ScriptText TokenReading TokenScript TokenTransaction TransactionAmending
  TransferConservation TransferInterpreter TransferSemantics Transaction List

variable {scriptBin : Bytes} {vout : List CTxOut} {vin : List CTxIn}

theorem scriptWords_pushData (hlength : vch.length < 2 ^ 32) :
    scriptWords (pushData vch).length (pushData vch) = [valueString vch] := by
  obtain ⟨opcode, hopcode, hop⟩ := getOp_pushData hlength []
  rw [append_nil] at hop
  rcases hscript : pushData vch with _ | ⟨first, rest⟩
  · rw [hscript] at hop
    cases hop
  rw [hscript] at hop
  rw [length_cons, scriptWords, hop]
  · dsimp only
    rw [if_pos hopcode]
    cases rest.length <;> rfl
  · exact cons_ne_nil _ _

theorem scriptToString_opReturn (hlong : 4 < scriptBin.length)
    (hlength : scriptBin.length < 2 ^ 32) :
    (scriptToString (opReturnScript scriptBin)).toList =
      "OP_RETURN".toList ++ ' ' :: lowerChars (hexChars scriptBin) := by
  rw [scriptToString, opReturnScript, length_cons, scriptWords, getOp_of_lt (by decide)]
  swap
  · exact cons_ne_nil _ _
  dsimp only
  rw [if_neg (by decide), scriptWords_pushData hlength, valueString,
    if_neg (Nat.not_le.mpr hlong), hexStr]
  have hname : getOpName OP_RETURN = "OP_RETURN" := by decide
  have hjoin : ∀ front back : String, " ".intercalate [front, back] = front ++ " " ++ back :=
    fun _ _ => rfl
  rw [hjoin, hname]
  simp

theorem matchBFXTOpReturn_opReturn (hbin : scriptBin = 0x4e :: 0x54 :: 0x03 :: op :: rest)
    (hrest : rest ≠ []) (hlength : scriptBin.length < 2 ^ 32) :
    matchBFXTOpReturn (scriptToString (opReturnScript scriptBin)) = some (hexStr scriptBin) := by
  have hlong : 4 < scriptBin.length := by
    have hpos := length_pos_iff.mpr hrest
    rw [hbin]
    simp only [length_cons]
    omega
  have hchars : lowerChars (hexChars scriptBin) =
      "4e5403".toList ++ lowerChars (hexChars (op :: rest)) := by
    rw [hbin]
    rfl
  have hdigits := (unhexChars_eq_ok (unhexChars_lowerChars_hexChars scriptBin)).2
  rw [hchars, all_append, Bool.and_eq_true] at hdigits
  have htext := scriptToString_opReturn hlong hlength
  rw [hchars] at htext
  rw [matchBFXTOpReturn, htext, take_left' (by rfl), drop_left' (by rfl), if_pos]
  · rw [hexStr, hchars]
    rfl
  · exact ⟨rfl, by simp [isSpaceChar], Or.inr rfl, hdigits.2⟩

theorem parseScript_written (hscript : (createTransferScript zlibCompress tis [] >>=
      calculateScriptBin dataSize) = .ok scriptBin) (hne : tis ≠ [])
    (hindices : ∀ ti ∈ tis, ti.outputIndex ≤ 31) :
    scriptBin.length ≤ dataSize ∧
      (∃ rest, scriptBin = 0x4e :: 0x54 :: 0x03 :: 0x10 :: rest ∧ rest ≠ []) ∧
      ∃ parsed, parseScript (hexStr scriptBin) = .ok parsed ∧ parsed.txType = .transfer ∧
        parsed.kind = .transfer ∧
        parsed.transferInstructions.map instructionFields = tis.map instructionFields := by
  obtain ⟨script, hcreate, hscript⟩ := bind_eq_ok.mp hscript
  cases hcreate
  obtain ⟨bytes, hbytes, hsize⟩ := bind_eq_ok.mp
    (show (countedInstructionsToBin tis >>= fun instructions =>
      ensureDataSize dataSize _ (0x4e :: 0x54 :: 0x03 :: 0x10 :: (instructions ++
        metadataField []))) = .ok scriptBin from hscript)
  have hbytes' := hbytes
  rw [countedInstructionsToBin] at hbytes'
  split at hbytes'
  · cases hbytes'
  rename_i hcount
  obtain ⟨instructions, hinstructions, hcounted⟩ := bind_eq_ok.mp hbytes'
  cases hcounted
  have hsendable : Sendable tis :=
    ⟨hne, Nat.not_lt.mp hcount, hindices, encodable_of_toBin hinstructions⟩
  obtain ⟨written, hwritten, hparse⟩ := parseBFXTv3TransferPostHeaderData_toBin hsendable
  obtain rfl : UInt8.ofNat tis.length :: instructions = written :=
    Except.ok.inj (hbytes.symm.trans hwritten)
  obtain ⟨parsed, hfields, hdata⟩ := hparse []
  rw [parseTrailingMetadata_metadataField (by simp), ok_bind] at hdata
  rw [ensureDataSize] at hsize
  split at hsize
  · cases hsize
  rename_i hfits
  cases hsize
  refine ⟨Nat.not_lt.mp fun hlt => hfits ⟨rfl, hlt⟩, ⟨_, rfl, by simp⟩, ?_⟩
  have hunhex : ∀ bytes : Bytes, unhex (hexStr bytes) = .ok bytes := by
    intro bytes
    rw [unhex, hexStr, String.toList_ofList, unhexChars_lowerChars_hexChars]
  have hpost : ∀ scriptHex, parsePostHeaderData .transfer 3
      (UInt8.ofNat tis.length :: instructions ++ metadataField []) [0x10] scriptHex =
        .ok ⟨[], parsed, .transfer⟩ := fun _ => hdata
  exact ⟨_, parseScript_of_parsePostHeaderData (hunhex _) (by decide) (fun _ => rfl) rfl hpost,
    rfl, rfl, hfields⟩

theorem getValueOutFrom_of_nonneg (hstart : 0 ≤ start) (hnonneg : ∀ txout ∈ vout, 0 ≤ txout.nValue)
    (hsum : start + (vout.map (·.nValue)).sum ≤ MAX_MONEY) :
    ∃ value, getValueOutFrom start vout = .ok value := by
  induction vout generalizing start with
  | nil => exact ⟨start, rfl⟩
  | cons txout vout ih =>
    rw [forall_mem_cons] at hnonneg
    have hrest : 0 ≤ (vout.map (·.nValue)).sum :=
      sum_nonneg (forall_mem_map.mpr hnonneg.2)
    rw [map_cons, sum_cons] at hsum
    have hfirst : moneyRange txout.nValue = true := by
      simp only [moneyRange, Bool.and_eq_true, decide_eq_true_eq]
      omega
    have hnext : moneyRange (start + txout.nValue) = true := by
      simp only [moneyRange, Bool.and_eq_true, decide_eq_true_eq]
      omega
    rw [getValueOutFrom, hfirst, hnext]
    exact ih (by omega) hnonneg.2 (by omega)

theorem exists_readInputs (totalInput : Int)
    (hprev : ∀ txin ∈ vin, ∃ prev, getPrevInputIt env tx txin.prevout.hash inputsTxs = .ok prev ∧
      txin.prevout.n < prev.1.vout.length ∧ txin.prevout.n < prev.2.vout.length) :
    ∃ txins total, readInputs env tx inputsTxs vin totalInput = .ok (txins, total) ∧
      txins.length = vin.length := by
  induction vin generalizing totalInput with
  | nil => exact ⟨[], totalInput, rfl, rfl⟩
  | cons txin vin ih =>
    rw [forall_mem_cons] at hprev
    obtain ⟨⟨prev, hfound, hnative, htokens⟩, hrest⟩ := hprev
    have hfirst : ∃ input total, readInput env tx inputsTxs txin totalInput =
        .ok (input, total) := by
      rw [readInput, hfound, ok_bind,
        checkedAt_eq_ok.mpr (List.getElem?_eq_getElem hnative), ok_bind]
      dsimp only
      split
      · exact ⟨_, _, rfl⟩
      · rw [if_pos (by omega), checkedAt_eq_ok.mpr (List.getElem?_eq_getElem htokens), ok_bind]
        exact ⟨_, _, rfl⟩
    obtain ⟨input, total, hinput⟩ := hfirst
    obtain ⟨txins, total', htxins, hlength⟩ := ih total hrest
    refine ⟨input :: txins, total', ?_, by rw [length_cons, length_cons, hlength]⟩
    rw [readInputs, hinput, ok_bind]
    dsimp only
    rw [htxins, ok_bind]

theorem length_creditAll (vout : List BFXTTxOut) (credits : List (Nat × BFXTTokenTxData)) :
    (creditAll vout credits).length = vout.length := by
  induction credits generalizing vout with
  | nil => rfl
  | cons credit credits ih =>
    rw [creditAll, foldl_cons, ← creditAll, ih, pushCredit, length_modify]

theorem creditAll_tokenOutputs (base : List BFXTTxOut) (moved : List OwnedToken)
    (outputOf : OwnedToken → BFXTTxOut) :
    creditAll (base ++ moved.map outputOf)
        ((moved.zipIdx base.length).map fun (owned, outputIndex) => (outputIndex, owned.2)) =
      base ++ moved.map fun owned =>
        { outputOf owned with tokens := (outputOf owned).tokens ++ [owned.2] } := by
  induction moved generalizing base with
  | nil => rfl
  | cons owned moved ih =>
    have hpush : pushCredit (base ++ (owned :: moved).map outputOf) base.length owned.2 =
        (base ++ [{ outputOf owned with tokens := (outputOf owned).tokens ++ [owned.2] }]) ++
          moved.map outputOf := by
      rw [pushCredit, map_cons, modify_eq_take_cons_drop (by simp)]
      simp
    have hrest := ih (base ++ [{ outputOf owned with
      tokens := (outputOf owned).tokens ++ [owned.2] }])
    rw [length_append, length_singleton] at hrest
    rw [zipIdx_cons]
    change creditAll (pushCredit (base ++ (owned :: moved).map outputOf) base.length owned.2)
      ((moved.zipIdx (base.length + 1)).map fun (owned, outputIndex) => (outputIndex, owned.2)) =
        _
    rw [hpush, hrest, append_assoc]
    rfl

section Owners

variable (env : NodeEnv) (dataSize : UInt32) (inputsTxs : List InputPair)

def ownerOf (txout : CTxOut) : Option CTxDestination :=
  extractDestination (hash160 env) dataSize.toNat txout.scriptPubKey

def prevOwner (txin : CTxIn) : Option CTxDestination :=
  match inputsTxs.find? fun input => env.getHash input.1 == txin.prevout.hash with
  | none => none
  | some input => input.1.vout[txin.prevout.n]?.bind (ownerOf env dataSize)

def spentTokens (vin : List CTxIn) : List (Option CTxDestination × BFXTTokenTxData) :=
  vin.flatMap fun txin =>
    (prevTokens env inputsTxs txin).map (prevOwner env dataSize inputsTxs txin, ·)

def heldTokens (vout : List CTxOut) (read : List BFXTTxOut) :
    List (Option CTxDestination × BFXTTokenTxData) :=
  (vout.zip read).flatMap fun (txout, readOut) =>
    readOut.tokens.map (ownerOf env dataSize txout, ·)

variable {env dataSize inputsTxs}

theorem spentTokens_of_owned (howned : OwnedByInputs ctx vin moved)
    (hpos : ∀ txin ∈ vin, ∀ token ∈ prevTokens ctx.env ctx.inputsTxs txin, 0 < token.amount) :
    spentTokens ctx.env ctx.dataSize ctx.inputsTxs vin =
      moved.map fun owned => (some owned.1, owned.2) := by
  obtain ⟨parts, rfl, hparts⟩ := howned
  induction hparts with
  | nil => rfl
  | @cons txin part vin parts hpart _ ih =>
    rw [forall_mem_cons] at hpos
    obtain ⟨prev, prevOut, hprev, hprevOut, hby⟩ := hpart
    have htokens := prevTokens_eq hprev (index_eq_ok.mpr hprevOut)
    have hall : part.map Prod.snd = prevTokens ctx.env ctx.inputsTxs txin := by
      rw [hby.tokens_eq, htokens]
      rw [htokens] at hpos
      refine filter_eq_self.mpr fun token htoken => ?_
      simpa using Nat.pos_iff_ne_zero.mp (hpos.1 token htoken)
    have hfirst : (prevTokens ctx.env ctx.inputsTxs txin).map
        (prevOwner ctx.env ctx.dataSize ctx.inputsTxs txin, ·) =
          part.map fun owned => (some owned.1, owned.2) := by
      rw [← hall, map_map]
      refine map_congr_left fun owned hmem => ?_
      obtain ⟨nativeOut, hnative, hdest⟩ := hby.owners owned hmem
      rw [Function.comp_apply, prevOwner, getPrevInputIt_eq_ok.mp hprev]
      dsimp only
      rw [hnative, Option.bind_some, ownerOf, hdest]
    rw [spentTokens, flatMap_cons, ← spentTokens, hfirst, ih hpos.2, flatten_cons, map_append]

theorem map_snd_spentTokens (vin : List CTxIn) :
    (spentTokens env dataSize inputsTxs vin).map Prod.snd =
      vin.flatMap (prevTokens env inputsTxs) := by
  rw [spentTokens, map_flatMap]
  refine flatMap_congr fun txin _ => ?_
  rw [map_map]
  exact map_id _

theorem length_hash_of_owned (hripemd : ∀ bytes, (ctx.env.ripemd160 bytes).length = 20)
    (howned : OwnedByInputs ctx vin moved) : ∀ owned ∈ moved, owned.1.hash.length = 20 := by
  obtain ⟨parts, rfl, hparts⟩ := howned
  intro owned hmem
  obtain ⟨part, hpart, hmem⟩ := mem_flatten.mp hmem
  obtain ⟨k, hk, rfl⟩ := mem_iff_getElem.mp hpart
  have hlt : k < vin.length := by
    rw [hparts.length_eq]
    exact hk
  obtain ⟨prev, prevOut, -, -, hby⟩ := hparts.get hlt hk
  obtain ⟨nativeOut, -, hdest⟩ := hby.owners owned hmem
  rw [extractDestination] at hdest
  split at hdest
  · rw [← Option.some.inj hdest]
    exact hripemd _
  · rename_i hsolver
    rw [← Option.some.inj hdest]
    exact solver_pubKeyHash hsolver
  · rename_i hsolver
    rw [← Option.some.inj hdest]
    exact solver_scriptHash hsolver
  · cases hdest

end Owners

theorem exists_loadInputs
    (hprev : ∀ txin ∈ vin, ∃ prev, getPrevInputIt env tx txin.prevout.hash inputsTxs = .ok prev ∧
      txin.prevout.n < prev.2.vout.length) :
    ∃ slots, loadInputs env tx inputsTxs vin = .ok slots := by
  induction vin with
  | nil => exact ⟨[], rfl⟩
  | cons txin vin ih =>
    rw [forall_mem_cons] at hprev
    obtain ⟨⟨prev, hfound, hlt⟩, hrest⟩ := hprev
    obtain ⟨slots, hslots⟩ := ih hrest
    rw [loadInputs, loadInput, hfound, ok_bind,
      index_eq_ok.mpr (List.getElem?_eq_getElem hlt), ok_bind, ok_bind, hslots, ok_bind]
    exact ⟨_, rfl⟩

theorem map_scriptPubKey_chargeChange (changeIndex : Int) (fees : Nat) (vout : List CTxOut) :
    (chargeChange changeIndex fees vout).map (·.scriptPubKey) = vout.map (·.scriptPubKey) := by
  refine ext_getElem? fun k => ?_
  rw [chargeChange, List.getElem?_map, List.getElem?_map, List.getElem?_modify,
    Option.map_eq_map, Option.map_map]
  congr 1
  funext txout
  rw [Function.comp_apply]
  split <;> rfl

theorem findSome?_of_no_opReturn (hnone : txContainsOpReturn tx = false)
    (hscripts : vout.map (·.scriptPubKey) = tx.vout.map (·.scriptPubKey)) :
    vout.findSome? (fun txout => matchBFXTOpReturn (scriptToString txout.scriptPubKey)) = none := by
  refine List.findSome?_eq_none_iff.mpr fun txout htxout => ?_
  have hscript : txout.scriptPubKey ∈ tx.vout.map (·.scriptPubKey) := by
    rw [← hscripts]
    exact mem_map_of_mem htxout
  obtain ⟨source, hsource, heq⟩ := mem_map.mp hscript
  rw [txContainsOpReturn, any_eq_false] at hnone
  rcases hmatch : matchBFXTOpReturn (scriptToString txout.scriptPubKey) with _ | arg
  · rfl
  refine absurd ?_ (hnone source hsource)
  rw [heq]
  exact matchesOpReturn_of_matchBFXTOpReturn hmatch

theorem getValueOut_of_keepsValue (hkeeps : KeepsValue changeIndex tx tx')
    (hvalue : ∃ value, getValueOut tx = .ok value) : ∃ value, getValueOut tx' = .ok value := by
  obtain ⟨value, hvalue⟩ := hvalue
  obtain ⟨hsum, hrange⟩ := getValueOut_eq_ok hvalue
  have hnonneg := (getValueOutFrom_eq_ok hvalue (by decide)).1
  refine getValueOutFrom_of_nonneg (le_refl 0) (fun txout htxout => ?_) ?_
  · obtain ⟨k, hk⟩ := mem_iff_getElem?.mp htxout
    refine Int.not_lt.mp fun hneg => ?_
    exact absurd (hnonneg txout (mem_of_getElem? (hkeeps.negative k txout hk hneg)))
      (Int.not_le.mpr hneg)
  simp only [moneyRange, Bool.and_eq_true, decide_eq_true_eq] at hrange
  rw [hkeeps.sum_eq, ← hsum, Int.zero_add]
  exact hrange.2

/-- The instructions read back pay each token out by itself. -/
theorem asks_tokenInstructions
    (hfields : tis.map instructionFields = (tokenInstructions start moved).map instructionFields)
    (hlt : start + moved.length ≤ outputs) :
    List.Forall₂ (Asks outputs) tis (moved.map fun owned => (owned.2, owned.2.amount)) ∧
      List.zipWith creditOf tis (moved.map fun owned => (owned.2, owned.2.amount)) =
        (moved.zipIdx start).map fun (owned, outputIndex) => (outputIndex, owned.2) := by
  induction moved generalizing start tis with
  | nil =>
    obtain rfl : tis = [] := map_eq_nil_iff.mp hfields
    exact ⟨.nil, rfl⟩
  | cons owned moved ih =>
    rw [length_cons] at hlt
    rcases tis with _ | ⟨ti, tis⟩
    · cases hfields
    obtain ⟨hfirst, hrest⟩ := List.cons.inj hfields
    simp only [instructionFields, Prod.mk.injEq] at hfirst
    obtain ⟨hskip, hindex, hamount⟩ := hfirst
    have hrest : tis.map instructionFields =
        (tokenInstructions (start + 1) moved).map instructionFields := hrest
    obtain ⟨hasks, hcredits⟩ := ih hrest (by omega)
    refine ⟨.cons ⟨hskip, by omega, hamount⟩ hasks, ?_⟩
    rw [map_cons, zipWith_cons_cons, hcredits, zipIdx_cons, map_cons, creditOf, hindex]

theorem heldTokens_of_empty {read : List BFXTTxOut}
    (hempty : ∀ readOut ∈ read, readOut.tokens = []) :
    heldTokens env dataSize vout read = [] := by
  refine flatMap_eq_nil_iff.mpr ?_
  rintro ⟨txout, readOut⟩ hpair
  dsimp only
  rw [hempty readOut (of_mem_zip hpair).2, map_nil]

theorem tokens_readTxOut :
    ∀ readOut ∈ vout.map readTxOut, readOut.tokens = [] := by
  intro readOut hmem
  obtain ⟨txout, -, rfl⟩ := mem_map.mp hmem
  rfl

/-- The outputs that were made for the tokens hold them, and no other output
does. -/
theorem heldTokens_tokenOutputs (hpos : ∀ owned ∈ moved, 0 < owned.2.amount)
    (hhash : ∀ owned ∈ moved, owned.1.hash.length = 20) :
    heldTokens env dataSize (front ++ tokenOutputs moved)
        (deleteEmptyTokens (creditAll ((front ++ tokenOutputs moved).map readTxOut)
          ((moved.zipIdx front.length).map fun (owned, outputIndex) => (outputIndex, owned.2)))) =
      moved.map fun owned => (some owned.1, owned.2) := by
  let outputOf : OwnedToken → BFXTTxOut :=
    fun owned => readTxOut ⟨MIN_TX_FEE, setDestination owned.1⟩
  have hread : deleteEmptyTokens (creditAll ((front ++ tokenOutputs moved).map readTxOut)
      ((moved.zipIdx front.length).map fun (owned, outputIndex) => (outputIndex, owned.2))) =
        deleteEmptyTokens (front.map readTxOut) ++
          moved.map fun owned => { outputOf owned with tokens := [owned.2] } := by
    have hbase := creditAll_tokenOutputs (front.map readTxOut) moved outputOf
    rw [length_map] at hbase
    have houtputs : (tokenOutputs moved).map readTxOut = moved.map outputOf := by
      rw [tokenOutputs, map_map]
      rfl
    rw [map_append, houtputs, hbase, deleteEmptyTokens, map_append]
    congr 1
    rw [map_map]
    refine map_congr_left fun owned hmem => ?_
    have hamount := Nat.pos_iff_ne_zero.mp (hpos owned hmem)
    simp [outputOf, readTxOut, hamount]
  have hfront : heldTokens env dataSize front (deleteEmptyTokens (front.map readTxOut)) = [] := by
    refine heldTokens_of_empty fun readOut hmem => ?_
    obtain ⟨source, hsource, rfl⟩ := mem_map.mp hmem
    dsimp only
    rw [tokens_readTxOut source hsource, filter_nil]
  have howner : ∀ owned ∈ moved,
      ownerOf env dataSize ⟨MIN_TX_FEE, setDestination owned.1⟩ = some owned.1 :=
    fun owned hmem => extractDestination_setDestination (hhash owned hmem)
  rw [hread, heldTokens, zip_append (by simp [deleteEmptyTokens]), flatMap_append,
    ← heldTokens, hfront, nil_append, tokenOutputs, zip_map', flatMap_map]
  dsimp only
  rw [← flatMap_singleton' (moved.map _), flatMap_map]
  refine flatMap_congr fun owned hmem => ?_
  rw [howner owned hmem, map_singleton]

section Ownership

variable {env : NodeEnv} {dataSize : UInt32} {tx tx' : CTransaction} {inputsTxs : List InputPair}
  {changeIndex : Int}

/-- The inputs that reading accepts: one for each output spent, and values in
range. -/
structure MatchingInputs (env : NodeEnv) (tx : CTransaction) (inputsTxs : List InputPair) :
    Prop where
  count_eq : tx.vin.length = inputsTxs.length
  found : ∀ txin ∈ tx.vin, ∃ prev, getPrevInputIt env tx txin.prevout.hash inputsTxs = .ok prev ∧
    txin.prevout.n < prev.1.vout.length ∧ txin.prevout.n < prev.2.vout.length
  hashes_match : ensureInputsHashesMatch env inputsTxs = .ok ()
  relates : ensureInputTokensRelateToTx env tx inputsTxs = .ok ()
  value_ne : (tx.vin.map (prevValue env inputsTxs)).sum % 2 ^ 64 ≠ 0
  value_out : ∃ value, getValueOut tx = .ok value

variable (hinputs : MatchingInputs env tx inputsTxs)
include hinputs

theorem MatchingInputs.of_perm
    (hperm : tx'.vin.Perm tx.vin) (hvalue : ∃ value, getValueOut tx' = .ok value) :
    MatchingInputs env tx' inputsTxs where
  count_eq := hperm.length_eq.trans hinputs.count_eq
  found txin htxin := by
    obtain ⟨prev, hprev, hlt⟩ := hinputs.found txin (hperm.mem_iff.mp htxin)
    exact ⟨prev, getPrevInputIt_eq_ok.mpr (getPrevInputIt_eq_ok.mp hprev), hlt⟩
  hashes_match := hinputs.hashes_match
  relates := by
    have hrelates := hinputs.relates
    rw [ensureInputTokensRelateToTx] at hrelates ⊢
    simp only [hperm.any_eq]
    split at hrelates
    · rename_i hall
      rw [if_pos hall]
    · cases hrelates
  value_ne := by
    rw [(hperm.map _).sum_eq]
    exact hinputs.value_ne
  value_out := hvalue

theorem MatchingInputs.readTokenScript_eq (hparse : parseScript opReturnArg = .ok script)
    (htype : script.txType = .transfer) (hkind : script.kind = .transfer) (self : BFXTTransaction) :
    ∃ vin, vin.length = tx.vin.length ∧
      readTokenScript env self tx inputsTxs opReturnArg =
        transferTokens env { self with
          vin := vin, nTime := tx.nTime, nLockTime := tx.nLockTime,
          bfxtTransactionType := .transfer } script tx inputsTxs false := by
  obtain ⟨value, hvalue⟩ := hinputs.value_out
  obtain ⟨vin, total, hvin, hlength⟩ := exists_readInputs 0 hinputs.found
  have htotal := readInputs_total hvin rfl
  rw [Int.zero_add] at htotal
  refine ⟨vin, hlength, ?_⟩
  rw [readTokenScript, if_neg (not_not_intro hinputs.count_eq), hvalue, ok_bind, hvin, ok_bind]
  dsimp only
  rw [hinputs.hashes_match, ok_bind, hinputs.relates, ok_bind,
    if_neg (by rw [htotal]; exact hinputs.value_ne), hparse, ok_bind, executeScript, htype, hkind]

theorem MatchingInputs.loadInputs_eq :
    loadInputs env tx inputsTxs tx.vin = .ok (tx.vin.map fun txin =>
      (prevTokens env inputsTxs txin).map fun token => ⟨token, token.amount⟩) := by
  obtain ⟨slots, hslots⟩ : ∃ slots, loadInputs env tx inputsTxs tx.vin = .ok slots := by
    refine exists_loadInputs fun txin htxin => ?_
    obtain ⟨prev, hprev, -, hlt⟩ := hinputs.found txin htxin
    exact ⟨prev, hprev, hlt⟩
  rw [hslots, (loadInputs_eq_ok hslots).1]

omit hinputs

theorem isInvalid_of_first
    (hfirst : ∃ first rest, vin = first :: rest ∧ prevTokens env inputsTxs first ≠ [])
    (hpos : ∀ token ∈ vin.flatMap (prevTokens env inputsTxs), 0 < token.amount) :
    isInvalid (vin.map fun txin => (prevTokens env inputsTxs txin).map fun token =>
      ⟨token, token.amount⟩) = false := by
  obtain ⟨first, rest, rfl, hne⟩ := hfirst
  obtain ⟨token, tokens, htokens⟩ := exists_cons_of_ne_nil hne
  have hamount : 0 < token.amount := by
    refine hpos token ?_
    rw [flatMap_cons, htokens]
    exact mem_cons_self
  rw [map_cons, isInvalid, htokens, map_cons, total_cons, beq_eq_false_iff_ne]
  dsimp only
  omega

/-- Reading a script that sends each token to the output made for it. -/
theorem readBFXTDataFromTx_sends_back (hinputs : MatchingInputs env tx inputsTxs)
    (hcarries : CarriesScript env tx opReturnArg script) (htype : script.txType = .transfer)
    (hkind : script.kind = .transfer) (hfields : script.transferInstructions.map instructionFields =
      (tokenInstructions front.length moved).map instructionFields)
    (hvout : tx.vout = front ++ tokenOutputs moved)
    (hmoved : moved.map Prod.snd = tx.vin.flatMap (prevTokens env inputsTxs))
    (hfirst : ∃ first rest, tx.vin = first :: rest ∧ prevTokens env inputsTxs first ≠ [])
    (hpos : ∀ token ∈ tx.vin.flatMap (prevTokens env inputsTxs), 0 < token.amount) (hallowed : ∀
      token ∈ tx.vin.flatMap (prevTokens env inputsTxs), blockedAt env.nBestHeight token.tokenId =
      false) (hhash : ∀ owned ∈ moved, owned.1.hash.length = 20) (self : BFXTTransaction) :
    ∃ result, readBFXTDataFromTx env self tx inputsTxs = .ok result ∧
      result.vout.length = tx.vout.length ∧
      heldTokens env dataSize tx.vout result.vout =
        moved.map fun owned => (some owned.1, owned.2) := by
  rw [← hmoved] at hallowed
  have hpos' : ∀ owned ∈ moved, 0 < owned.2.amount :=
    fun owned hmem => hpos owned.2 (hmoved ▸ mem_map_of_mem hmem)
  obtain ⟨vin, hlength, hread⟩ := hinputs.readTokenScript_eq hcarries.parsed htype hkind
    (readBFXTDataFromTxMinimal env self tx)
  have hslots : (tx.vin.map fun txin => (prevTokens env inputsTxs txin).map fun token =>
      (⟨token, token.amount⟩ : Slot)).flatten = moved.map fun owned => ⟨owned.2, owned.2.amount⟩ := by
    rw [← flatMap_def, ← map_flatMap, ← hmoved, map_map]
    rfl
  have hpays : Pays tokenKey (moved.map fun owned => (⟨owned.2, owned.2.amount⟩ : Slot))
      (moved.map fun owned => (owned.2, owned.2.amount)) (moved.map fun owned => ⟨owned.2, 0⟩) := by
    have heach := Pays.each tokenKey (forall_mem_map.mpr hpos' :
      ∀ lot ∈ moved.map fun owned => (⟨owned.2, owned.2.amount⟩ : Slot), 0 < lot.left)
    rw [map_map, map_map] at heach
    exact heach
  have hempty : total (moved.map fun owned => (⟨owned.2, 0⟩ : Slot)) = 0 := by
    refine total_eq_zero_iff.mpr (forall_mem_map.mpr fun owned _ => rfl)
  have houtputs : tx.vout.length = front.length + moved.length := by
    rw [hvout, length_append, tokenOutputs, length_map]
  obtain ⟨hasks, hcredits⟩ := asks_tokenInstructions hfields (le_of_eq houtputs.symm)
  obtain ⟨result, htransfer, hresult⟩ : ∃ result, readTokenScript env
      (readBFXTDataFromTxMinimal env self tx) tx inputsTxs opReturnArg = .ok result ∧
        result.vout = deleteEmptyTokens (creditAll (tx.vout.map readTxOut)
          (List.zipWith creditOf script.transferInstructions
            (moved.map fun owned => (owned.2, owned.2.amount)))) := by
    rw [hread]
    apply transferTokens_pays hinputs.hashes_match hinputs.relates hinputs.loadInputs_eq
    · rw [length_map]
      exact hlength
    · intro hinvalid
      rw [isInvalid_of_first hfirst hpos] at hinvalid
      cases hinvalid
    · rw [hslots, map_map]
      exact forall_mem_map.mpr (forall_mem_map.mp hallowed)
    · rw [show (readBFXTDataFromTxMinimal env self tx).vout = tx.vout.map readTxOut from rfl,
        length_map]
      exact hasks
    · rw [hslots]
      exact hpays
    · exact hempty
  refine ⟨result, ?_, ?_, ?_⟩
  · rw [readBFXTDataFromTx_of_token self inputsTxs hcarries.arg_eq, htransfer]
  · rw [hresult, deleteEmptyTokens, length_map, length_creditAll, length_map]
  · rw [hresult, hcredits, hvout]
    exact heldTokens_tokenOutputs hpos' hhash

variable {zlibCompress : Bytes → Bytes}

theorem carriesScript_of_amends (hamends : Amends zlibCompress ⟨env, dataSize, { tx with vin := vin
      }, inputsTxs, changeIndex⟩ moved scriptBin vout) (hplain : txContainsOpReturn tx = false)
    (hne : moved ≠ []) (hroom : tx.vout.length + moved.length ≤ 31)
    (hincluded : isBFXTTxExcluded (env.getHash tx') = false) (hvout : tx'.vout = chargeChange
      changeIndex (moved.length + 1) tx.vout ++ ⟨MIN_TX_FEE, opReturnScript scriptBin⟩ ::
      tokenOutputs moved) :
    ∃ script, CarriesScript env tx' (hexStr scriptBin) script ∧ script.txType = .transfer ∧
      script.kind = .transfer ∧ script.transferInstructions.map instructionFields =
        (tokenInstructions (tx.vout.length + 1) moved).map instructionFields := by
  have hindices : ∀ ti ∈ tokenInstructions (tx.vout.length + 1) moved, ti.outputIndex ≤ 31 := by
    intro ti hti
    obtain ⟨⟨owned, outputIndex⟩, hmem, rfl⟩ := mem_map.mp hti
    have hlt := snd_lt_of_mem_zipIdx hmem
    dsimp only at hlt ⊢
    omega
  have hne' : tokenInstructions (tx.vout.length + 1) moved ≠ [] := by
    simpa [tokenInstructions] using hne
  obtain ⟨hsize, ⟨rest, hbin, hrest⟩, script, hparse, htype, hkind, hfields⟩ :=
    parseScript_written hamends.script_eq hne' hindices
  refine ⟨script, ⟨?_, hparse⟩, htype, hkind, hfields⟩
  have hmatch := matchBFXTOpReturn_opReturn hbin hrest
    (Nat.lt_of_le_of_lt hsize dataSize.toNat_lt)
  rw [isTxBFXT, if_neg (by rw [hincluded]; decide), hvout, List.findSome?_append,
    findSome?_of_no_opReturn hplain (map_scriptPubKey_chargeChange _ _ _), Option.none_or,
    List.findSome?_cons, hmatch]

/-- The tokens spent are on the outputs, each with the address that held it. -/
structure KeepsOwners (env : NodeEnv) (dataSize : UInt32) (inputsTxs : List InputPair)
    (vin : List CTxIn) (vout : List CTxOut) (read : List BFXTTxOut) : Prop where
  length_eq : read.length = vout.length
  tokens_perm : (heldTokens env dataSize vout read).Perm (spentTokens env dataSize inputsTxs vin)
  owned : ∀ spent ∈ spentTokens env dataSize inputsTxs vin, spent.1.isSome

theorem keepsOwners_without_tokens (hplain : txContainsOpReturn tx = false)
    (hincluded : isBFXTTxExcluded (env.getHash tx) = false)
    (hnone : tx.vin.flatMap (prevTokens env inputsTxs) = []) (self : BFXTTransaction) :
    ∃ result, readBFXTDataFromTx env self tx inputsTxs = .ok result ∧
      KeepsOwners env dataSize inputsTxs tx.vin tx.vout result.vout := by
  have hspent : spentTokens env dataSize inputsTxs tx.vin = [] := by
    refine flatMap_eq_nil_iff.mpr fun txin htxin => ?_
    rw [flatMap_eq_nil_iff.mp hnone txin htxin, map_nil]
  have hscript : isTxBFXT env tx = none := by
    rw [isTxBFXT, if_neg (by rw [hincluded]; decide), findSome?_of_no_opReturn hplain rfl]
  refine ⟨readBFXTDataFromTxMinimal env self tx, ?_, length_map _, ?_, ?_⟩
  · rw [readBFXTDataFromTx, if_neg (by rw [hincluded]; decide), hscript]
  · rw [hspent]
    exact List.Perm.of_eq (heldTokens_of_empty tokens_readTxOut)
  · rw [hspent]
    exact forall_mem_nil _

/-- A call that sends the tokens back and leaves something of the change. -/
theorem keepsOwners_of_amends (hamends : Amends zlibCompress ⟨env, dataSize, { tx with vin := vin },
      inputsTxs, changeIndex⟩ moved scriptBin vout) (hvout : vout = chargeChange changeIndex
      (moved.length + 1) tx.vout ++ ⟨MIN_TX_FEE, opReturnScript scriptBin⟩ :: tokenOutputs moved)
    (hvin : reorderInputs env tx inputsTxs tx.vin.length tx.vin = .ok vin)
    (hmoved : moved.map Prod.snd = vin.flatMap (prevTokens env inputsTxs)) (hne : moved ≠ [])
    (hripemd : ∀ bytes, (env.ripemd160 bytes).length = 20) (hplain : txContainsOpReturn tx = false)
    (hinputs : MatchingInputs env tx inputsTxs)
    (hpos : ∀ token ∈ vin.flatMap (prevTokens env inputsTxs), 0 < token.amount) (hallowed : ∀ token
      ∈ vin.flatMap (prevTokens env inputsTxs), blockedAt env.nBestHeight token.tokenId = false)
    (hroom : tx.vout.length + moved.length ≤ 31)
    (hincluded : isBFXTTxExcluded (env.getHash { tx with vin := vin, vout := vout }) = false)
    (self : BFXTTransaction) :
    ∃ result, readBFXTDataFromTx env self { tx with vin := vin, vout := vout } inputsTxs =
        .ok result ∧ KeepsOwners env dataSize inputsTxs tx.vin vout result.vout := by
  obtain ⟨hperm, others, hpartition, -⟩ := reorderInputs_eq_ok (le_refl _) hvin
  have hkeeps := hamends.keepsValue hperm
  have hspent : (moved.map fun owned => (some owned.1, owned.2)).Perm
      (spentTokens env dataSize inputsTxs tx.vin) := by
    have howned := spentTokens_of_owned hamends.owned fun txin htxin token htoken =>
      hpos token (mem_flatMap.mpr ⟨txin, htxin, htoken⟩)
    rw [← howned]
    exact hperm.flatMap_right _
  have hfirst : ∃ first rest, vin = first :: rest ∧ prevTokens env inputsTxs first ≠ [] := by
    obtain ⟨owned, howned⟩ := exists_mem_of_ne_nil _ hne
    obtain ⟨holder, hmem, htoken⟩ := mem_flatMap.mp (hmoved ▸ mem_map_of_mem howned)
    have hholds : holder ∈ tx.vin.filter (holdsTokens env inputsTxs) :=
      mem_filter.mpr ⟨hperm.mem_iff.mp hmem, by simpa [holdsTokens] using ne_nil_of_mem htoken⟩
    obtain ⟨first, rest, hfilter⟩ := exists_cons_of_ne_nil (ne_nil_of_mem hholds)
    have hfirst : first ∈ tx.vin.filter (holdsTokens env inputsTxs) := hfilter ▸ mem_cons_self
    rw [hfilter] at hpartition
    exact ⟨first, _, hpartition, by simpa [holdsTokens] using (mem_filter.mp hfirst).2⟩
  obtain ⟨script, hcarries, htype, hkind, hfields⟩ :=
    carriesScript_of_amends hamends hplain hne hroom hincluded hvout
  have hfront : (chargeChange changeIndex (moved.length + 1) tx.vout ++
      [(⟨MIN_TX_FEE, opReturnScript scriptBin⟩ : CTxOut)]).length = tx.vout.length + 1 := by
    rw [length_append, length_chargeChange, length_singleton]
  rw [← hfront] at hfields
  obtain ⟨result, hread, hlength, hheld⟩ := readBFXTDataFromTx_sends_back
    (hinputs.of_perm hperm (getValueOut_of_keepsValue hkeeps hinputs.value_out)) hcarries htype
    hkind hfields (by rw [hvout, append_assoc]; rfl) hmoved hfirst hpos hallowed
    (length_hash_of_owned hripemd hamends.owned) self
  refine ⟨result, hread, hlength, ?_, ?_⟩
  · rw [hheld]
    exact hspent
  intro spent hmem
  obtain ⟨owned, -, rfl⟩ := mem_map.mp (hspent.mem_iff.mpr hmem)
  rfl

/-- Tokens are sent back to their owners, as long as the places of the outputs
fit into five bits and something of the change is left. -/
theorem amendStdTxWithBFXT_keeps_owners
    (zlibCompress : Bytes → Bytes) (env : NodeEnv) (dataSize : UInt32) (self : BFXTTransaction)
    (tx tx' : CTransaction) (inputsTxs : List InputPair) (changeIndex : Int)
    (hripemd : ∀ bytes, (env.ripemd160 bytes).length = 20)
    (hplain : txContainsOpReturn tx = false) (hinputs : MatchingInputs env tx inputsTxs)
    (hpos : ∀ token ∈ tx.vin.flatMap (prevTokens env inputsTxs), 0 < token.amount)
    (hallowed : ∀ token ∈ tx.vin.flatMap (prevTokens env inputsTxs),
      blockedAt env.nBestHeight token.tokenId = false)
    (hroom : tx.vout.length + (tx.vin.flatMap (prevTokens env inputsTxs)).length ≤ 31)
    (hleft : ∀ change, tx.vout[changeIndex.toNat]? = some change → change.nValue ≠
      ((tx.vin.flatMap (prevTokens env inputsTxs)).length + 1 : Nat) * MIN_TX_FEE)
    (hincluded : isBFXTTxExcluded (env.getHash tx') = false)
    (hamend : amendStdTxWithBFXT zlibCompress env dataSize tx inputsTxs changeIndex =
      (.ok (), tx')) :
    ∃ result, readBFXTDataFromTx env self tx' inputsTxs = .ok result ∧
      KeepsOwners env dataSize inputsTxs tx.vin tx'.vout result.vout := by
  obtain ⟨count, hcall⟩ : ∃ count,
      AmendsOrLeaves zlibCompress env dataSize tx inputsTxs changeIndex count tx' := by
    rw [amendStdTxWithBFXT] at hamend
    split at hamend
    · rename_i amended hcopy
      obtain rfl := (Prod.mk.inj hamend).2
      exact amendedCopy_eq_ok hcopy
    · exact absurd (Prod.mk.inj hamend).1 (by simp)
  have hcount := countTokenKindsFrom_eq_ok (by decide) hcall.counted
  rcases eq_or_ne count 0 with hzero | hne
  · obtain rfl := hcall.leaves hzero
    exact keepsOwners_without_tokens hplain hincluded
      (eq_nil_of_length_eq_zero (by omega)) self
  obtain ⟨vin, moved, scriptBin, vout, hvin, hamends, rfl⟩ := hcall.amends hne
  have hflat : (vin.flatMap (prevTokens env inputsTxs)).Perm
      (tx.vin.flatMap (prevTokens env inputsTxs)) := (reorderInputs_eq_ok (le_refl _) hvin).1.flatMap_right _
  have hpos' := fun token htoken => hpos token (hflat.mem_iff.mp htoken)
  have hmoved : moved.map Prod.snd = vin.flatMap (prevTokens env inputsTxs) := by
    have howned := spentTokens_of_owned hamends.owned fun txin htxin token htoken =>
      hpos' token (mem_flatMap.mpr ⟨txin, htxin, htoken⟩)
    rw [← map_snd_spentTokens vin, howned, map_map]
    rfl
  have hlength : moved.length = (tx.vin.flatMap (prevTokens env inputsTxs)).length := by
    rw [← hflat.length_eq, ← hmoved, length_map]
  rw [← hlength] at hcount hroom hleft
  have hsome : moved ≠ [] := by
    intro hnil
    rw [hnil] at hcount
    exact hne hcount
  obtain ⟨change, hchange, ⟨hexact, -⟩ | ⟨-, hvout⟩⟩ := hamends.outputs
  · exact absurd hexact (hleft change hchange)
  · exact keepsOwners_of_amends hamends hvout hvin hmoved hsome hripemd hplain hinputs hpos'
      (fun token htoken => hallowed token (hflat.mem_iff.mp htoken)) hroom hincluded self

def ownerEnv : NodeEnv :=
  { timeEnv with ripemd160 := fun bytes => (bytes ++ List.replicate 20 0).take 20 }

def keyOwner : CTxDestination := .keyID (List.replicate 20 7)

def ownedTx (token : BFXTTokenTxData) : InputPair :=
  (⟨1, [], [⟨1, setDestination keyOwner⟩], 0⟩, ⟨1, [], [⟨1, "", "", [token]⟩], 0, 0, .issuance⟩)

/-- A payment out of the output that holds a token, with its change. -/
def payingTx (payees : Nat) (change : Int) : CTransaction :=
  ⟨2, [⟨⟨1, 0⟩, []⟩], List.replicate payees ⟨1, []⟩ ++ [⟨change, []⟩], 0⟩

def amendPaying (env : NodeEnv) (token : BFXTTokenTxData) (payees : Nat) (change : Int) :
    Outcome Unit × CTransaction :=
  amendStdTxWithBFXT id env 4096 (payingTx payees change) [ownedTx token] payees

theorem matchingInputs_payingTx {height : Int} (token : BFXTTokenTxData)
    (hvalue : ∃ value, getValueOut (payingTx payees change) = .ok value) :
    MatchingInputs { ownerEnv with nBestHeight := height } (payingTx payees change)
      [ownedTx token] where
  count_eq := rfl
  found := by
    refine forall_mem_singleton.mpr ⟨ownedTx token, ?_, ?_, ?_⟩
    · rfl
    · exact Nat.one_pos
    · exact Nat.one_pos
  hashes_match := rfl
  relates := rfl
  value_ne := by
    have hvalue : prevValue { ownerEnv with nBestHeight := height } [ownedTx token]
        ⟨⟨1, 0⟩, []⟩ = 1 := rfl
    rw [payingTx, map_singleton, hvalue]
    decide
  value_out := hvalue

theorem amendStdTxWithBFXT_keeps_owners_five :
    ∃ result, readBFXTDataFromTx ownerEnv emptyBFXTTransaction
        (amendPaying ownerEnv fiveTokens 1 30000).2 [ownedTx fiveTokens] = .ok result ∧
      (heldTokens ownerEnv 4096 (amendPaying ownerEnv fiveTokens 1 30000).2.vout result.vout).Perm
        [(some keyOwner, fiveTokens)] := by
  have hreturns : (amendPaying ownerEnv fiveTokens 1 30000).1 = .ok () := by decide +kernel
  obtain ⟨result, hread, -, hperm, -⟩ := amendStdTxWithBFXT_keeps_owners id ownerEnv 4096
    emptyBFXTTransaction (payingTx 1 30000) (amendPaying ownerEnv fiveTokens 1 30000).2
    [ownedTx fiveTokens] 1 (fun bytes => by simp [ownerEnv]) (by decide +kernel)
    (matchingInputs_payingTx fiveTokens ⟨30001, by decide +kernel⟩) (by decide +kernel)
    (by decide +kernel) (by decide +kernel)
    (fun change hchange => by obtain rfl := Option.some.inj hchange; decide +kernel)
    (by decide +kernel) (Prod.ext hreturns rfl)
  refine ⟨result, hread, hperm.trans (List.Perm.of_eq ?_)⟩
  decide +kernel

def readPaying (env : NodeEnv) (token : BFXTTokenTxData) (payees : Nat) (change : Int) :
    Option (List (List BFXTTokenTxData)) :=
  (readBFXTDataFromTx env emptyBFXTTransaction (amendPaying env token payees change).2
    [ownedTx token]).toOption.map (·.vout.map (·.tokens))

/-- The amending returns, but the amended payment is not read when the change is
used up or when the token is blacklisted; with many payees the first one gets the
token. -/
theorem amended_payment_loses_token :
    (MatchingInputs ownerEnv (payingTx 1 20000) [ownedTx fiveTokens] ∧
      (amendPaying ownerEnv fiveTokens 1 20000).1 = .ok () ∧
      readPaying ownerEnv fiveTokens 1 20000 = none) ∧
    (MatchingInputs ownerEnv (payingTx 30 30000) [ownedTx fiveTokens] ∧
      (amendPaying ownerEnv fiveTokens 30 30000).1 = .ok () ∧
      (readPaying ownerEnv fiveTokens 30 30000).map (·.take 1) = some [[fiveTokens]]) ∧
    let env := { ownerEnv with nBestHeight := 300000 }
    let token := { fiveTokens with tokenId := "La77KcJTUj991FnvxNKhrCD1ER8S81T3LgECS6" }
    MatchingInputs env (payingTx 1 30000) [ownedTx token] ∧
      (amendPaying env token 1 30000).1 = .ok () ∧ readPaying env token 1 30000 = none := by
  refine ⟨⟨?_, by decide +kernel⟩, ⟨?_, by decide +kernel⟩, ?_, by decide +kernel⟩
  · exact matchingInputs_payingTx fiveTokens ⟨20001, by decide +kernel⟩
  · exact matchingInputs_payingTx fiveTokens ⟨30030, by decide +kernel⟩
  · exact matchingInputs_payingTx _ ⟨30001, by decide +kernel⟩

end Ownership

end Bfx.AmendedOwnership
