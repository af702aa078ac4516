import Bfx.MerkleTree

/-!
Partial Merkle trees: the bits and hashes that `TraverseAndBuild` emits for a selection of
ids, the bytes in which the bits are sent, and what `ExtractMatches` reads from a received tree.
-/

namespace Bfx.PartialMerkle

open BlockConnection ChainIndex Function List MerkleTree Transaction

section Model

variable (env : ChainEnv)

structure CPartialMerkleTree where
  nTransactions : Nat
  vBits : List Bool
  vHash : List UInt256
  fBad : Bool

def segment {α : Type} (height pos : Nat) (list : List α) : List α :=
  (list.drop (pos * 2 ^ height)).take (2 ^ height)

/-- The bits and hashes that are appended. -/
def traverseAndBuild (vTxid : List UInt256) (vMatch : List Bool) :
    Nat → Nat → Option (List Bool × List UInt256)
  | 0, pos => (calcHash env vTxid 0 pos).map fun hash => ([(segment 0 pos vMatch).any id], [hash])
  | height + 1, pos =>
    if (segment (height + 1) pos vMatch).any id then do
      let (vBits, vHash) ← traverseAndBuild vTxid vMatch height (pos * 2)
      if pos * 2 + 1 < calcTreeWidth vTxid.length height then
        let (vBits', vHash') ← traverseAndBuild vTxid vMatch height (pos * 2 + 1)
        some (true :: (vBits ++ vBits'), vHash ++ vHash')
      else some (true :: vBits, vHash)
    else (calcHash env vTxid (height + 1) pos).map fun hash => ([false], [hash])

def newPartialMerkleTree (vTxid : List UInt256) (vMatch : List Bool) : Option CPartialMerkleTree :=
  (traverseAndBuild env vTxid vMatch (treeHeight vTxid.length vTxid.length 0) 0).map
    fun (vBits, vHash) => ⟨vTxid.length, vBits, vHash, false⟩

/-- The hash of a node with the matched ids below it, and the bits and hashes that are left;
nothing when `fBad` is set. -/
def traverseAndExtract (nTransactions : Nat) : Nat → Nat → List Bool → List UInt256 →
    Option (UInt256 × List UInt256 × List Bool × List UInt256)
  | height + 1, pos, true :: vBits, vHash => do
    let (left, vMatch, vBits, vHash) ← traverseAndExtract nTransactions height (pos * 2) vBits vHash
    if pos * 2 + 1 < calcTreeWidth nTransactions height then
      let (right, vMatch', vBits, vHash) ←
        traverseAndExtract nTransactions height (pos * 2 + 1) vBits vHash
      some (env.hashPair left right, vMatch ++ vMatch', vBits, vHash)
    else some (env.hashPair left left, vMatch, vBits, vHash)
  | 0, _, true :: vBits, hash :: vHash => some (hash, [hash], vBits, vHash)
  | _, _, false :: vBits, hash :: vHash => some (hash, [], vBits, vHash)
  | _, _, _, _ => none

/-- The value returned and `vMatch`, which is left out when the tree is refused before the
end of the traversal. -/
def extractMatches (tree : CPartialMerkleTree) : UInt256 × List UInt256 :=
  let nTransactions := tree.nTransactions
  if nTransactions = 0 ∨ nTransactions > maxBlockSize env / 60 ∨ tree.vHash.length > nTransactions ∨
      tree.vBits.length < tree.vHash.length ∨ tree.fBad then (0, [])
  else
    match traverseAndExtract env nTransactions (treeHeight nTransactions nTransactions 0) 0
        tree.vBits tree.vHash with
    | none => (0, [])
    | some (hashMerkleRoot, vMatch, vBits, vHash) =>
      if (tree.vBits.length - vBits.length + 7) / 8 = (tree.vBits.length + 7) / 8 ∧ vHash = [] then
        (hashMerkleRoot, vMatch)
      else (0, vMatch)

def packByte (bits : Nat → Bool) : Nat :=
  (range 8).foldl (fun byte j => byte ||| (bits j).toNat <<< j) 0

def writeBits (vBits : List Bool) : List Nat :=
  (range ((vBits.length + 7) / 8)).map fun i => packByte fun j => vBits[8 * i + j]?.getD false

def readBits (vBytes : List Nat) : List Bool :=
  (range (vBytes.length * 8)).map fun p => (vBytes[p / 8]?.getD 0).testBit (p % 8)

def received (tree : CPartialMerkleTree) : CPartialMerkleTree :=
  { tree with
    vBits := readBits (writeBits tree.vBits)
    fBad := false }

end Model

theorem testBit_packByte (bits : Nat → Bool) (hj : j < 8) : (packByte bits).testBit j = bits j := by
  have hfold : ∀ m, ((range m).foldl (fun byte j => byte ||| (bits j).toNat <<< j) 0).testBit j =
      (decide (j < m) && bits j) := by
    intro m
    induction m with
    | zero => simp
    | succ m ih =>
      rw [range_succ, foldl_append, foldl_cons, foldl_nil, Nat.testBit_or, ih,
        Nat.testBit_shiftLeft]
      rcases Nat.lt_trichotomy j m with hlt | rfl | hlt
      · simp [hlt, Nat.lt_succ_of_lt hlt, Nat.not_le.mpr hlt]
      · cases bits j <;> simp
      have hbit : (bits m).toNat.testBit (j - m) = false :=
        Nat.testBit_lt_two_pow (by
          cases bits m <;> simp
          omega)
      simp [hbit, Nat.not_lt.mpr (Nat.le_of_lt hlt), Nat.not_lt.mpr hlt]
  simpa [packByte, hj] using hfold 8

theorem readBits_writeBits (vBits : List Bool) :
    readBits (writeBits vBits) =
      vBits ++ replicate ((vBits.length + 7) / 8 * 8 - vBits.length) false := by
  apply List.ext_getElem?
  intro p
  have hbytes : (writeBits vBits).length = (vBits.length + 7) / 8 := by simp [writeBits]
  rw [readBits, hbytes, getElem?_map]
  rcases Nat.lt_or_ge p ((vBits.length + 7) / 8 * 8) with hlt | hge
  · rw [getElem?_range hlt, Option.map_some, writeBits, getElem?_map,
      getElem?_range (by omega : p / 8 < (vBits.length + 7) / 8), Option.map_some, Option.getD_some,
      testBit_packByte _ (Nat.mod_lt p (by decide)), Nat.div_add_mod, getElem?_append]
    split
    · simp [*]
    · rw [getElem?_replicate, if_pos (by omega)]
      simp [*]
  rw [getElem?_eq_none (by simpa using hge), getElem?_eq_none (by
    rw [length_append, length_replicate]
    omega)]
  rfl

theorem lt_calcTreeWidth_iff : pos < calcTreeWidth n height ↔ pos * 2 ^ height < n := by
  have hpos := Nat.two_pow_pos height
  rw [calcTreeWidth, ← Nat.succ_le_iff, Nat.le_div_iff_mul_le hpos, Nat.succ_mul]
  omega

theorem segment_succ (height pos : Nat) (list : List α) :
    segment (height + 1) pos list =
      segment height (pos * 2) list ++ segment height (pos * 2 + 1) list := by
  have htwo : 2 ^ (height + 1) = 2 ^ height + 2 ^ height := by omega
  rw [segment, segment, segment, htwo, take_add, drop_drop]
  congr 3 <;> ring

theorem segment_eq_nil (h : list.length ≤ pos * 2 ^ height) : segment height pos list = [] := by
  rw [segment, drop_eq_nil_of_le h, take_nil]

theorem segment_zero (h : list[pos]? = some a) : segment 0 pos list = [a] := by
  obtain ⟨hpos, rfl⟩ := List.getElem?_eq_some_iff.mp h
  rw [segment, Nat.pow_zero, Nat.mul_one, drop_eq_getElem_cons hpos, take_succ_cons, take_zero]

def selected (ids : List UInt256) (mask : List Bool) : List UInt256 :=
  ((ids.zip mask).filter (·.2)).map (·.1)

theorem selected_append (h : ids.length = mask.length) (ids' : List UInt256) (mask' : List Bool) :
    selected (ids ++ ids') (mask ++ mask') = selected ids mask ++ selected ids' mask' := by
  simp [selected, zip_append h]

theorem length_segment (h : list.length = list'.length) (height pos : Nat) :
    (segment height pos list).length = (segment height pos list').length := by
  simp [segment, h]

theorem selected_eq_nil (h : mask.any id = false) : selected ids mask = [] := by
  simp only [selected, map_eq_nil_iff, filter_eq_nil_iff]
  intro p hp hbit
  exact (any_eq_false.mp h) p.2 (of_mem_zip hp).2 hbit

section RoundTrip

variable (env : ChainEnv)

/-- What is emitted for a node is consumed again, whatever comes after it. -/
theorem traverseAndExtract_build (hmask : vTxid.length = vMatch.length) {height pos : Nat}
    (hpos : pos < calcTreeWidth vTxid.length height) :
    ∃ vBits vHash hash, traverseAndBuild env vTxid vMatch height pos = some (vBits, vHash) ∧
      vHash.length ≤ (segment height pos vTxid).length ∧ vHash.length ≤ vBits.length ∧
      calcHash env vTxid height pos = some hash ∧
      ∀ moreBits moreHash, traverseAndExtract env vTxid.length height pos (vBits ++ moreBits)
          (vHash ++ moreHash) =
        some (hash, selected (segment height pos vTxid) (segment height pos vMatch), moreBits,
          moreHash) := by
  induction height generalizing pos with
  | zero =>
    have hlt : pos < vTxid.length := by simpa [lt_calcTreeWidth_iff] using hpos
    have hseg := segment_zero (getElem?_eq_getElem hlt)
    have hseg' := segment_zero (getElem?_eq_getElem (hmask ▸ hlt : pos < vMatch.length))
    refine ⟨[vMatch[pos]], [vTxid[pos]], vTxid[pos], ?_, ?_, ?_, ?_, fun _ _ => ?_⟩
    · simp [traverseAndBuild, calcHash, hseg']
    · simp [hseg]
    · simp
    · simp [calcHash]
    · rw [hseg, hseg']
      cases vMatch[pos] <;> simp [traverseAndExtract, selected]
  | succ height ih =>
    by_cases hany : (segment (height + 1) pos vMatch).any id = true
    · have hleft : pos * 2 < calcTreeWidth vTxid.length height := by
        rw [lt_calcTreeWidth_iff, Nat.pow_succ', ← Nat.mul_assoc] at hpos
        exact lt_calcTreeWidth_iff.mpr hpos
      obtain ⟨vBits, vHash, left, hbuild, hlength, hle, hhash, hextract⟩ := ih hleft
      have hsplit := segment_succ height pos vTxid
      by_cases hright : pos * 2 + 1 < calcTreeWidth vTxid.length height
      · obtain ⟨vBits', vHash', right, hbuild', hlength', hle', hhash', hextract'⟩ := ih hright
        refine ⟨true :: (vBits ++ vBits'), vHash ++ vHash', env.hashPair left right, ?_, ?_, ?_, ?_,
          fun _ _ => ?_⟩
        · simp [traverseAndBuild, hany, hbuild, hright, hbuild']
        · simp only [hsplit, length_append]
          omega
        · simp only [length_cons, length_append]
          omega
        · simp [calcHash, hhash, hright, hhash']
        · rw [hsplit, segment_succ height pos vMatch, selected_append (length_segment hmask _ _)]
          simp [traverseAndExtract, hextract, hright, hextract']
      have hnil : segment height (pos * 2 + 1) vTxid = [] :=
        segment_eq_nil (Nat.le_of_not_lt fun h => hright (lt_calcTreeWidth_iff.mpr h))
      refine ⟨true :: vBits, vHash, env.hashPair left left, ?_, ?_, ?_, ?_, fun _ _ => ?_⟩
      · simp [traverseAndBuild, hany, hbuild, hright]
      · rwa [hsplit, hnil, append_nil]
      · simp only [length_cons]
        omega
      · simp [calcHash, hhash, hright]
      rw [hsplit, segment_succ height pos vMatch, selected_append (length_segment hmask _ _),
        hnil]
      simp [traverseAndExtract, hextract, hright, selected]
    obtain ⟨hash, hhash⟩ : ∃ hash, calcHash env vTxid (height + 1) pos = some hash := by
      rw [calcHash_eq, ← Option.isSome_iff_exists, isSome_getElem?, length_iterate_merkleLevel]
      exact hpos
    refine ⟨[false], [hash], hash, ?_, ?_, by simp, hhash, fun _ _ => ?_⟩
    · simp [traverseAndBuild, hany, hhash]
    · rw [lt_calcTreeWidth_iff] at hpos
      have := Nat.two_pow_pos (height + 1)
      simp only [segment, length_take, length_drop, length_singleton]
      omega
    · rw [selected_eq_nil (Bool.eq_false_iff.mpr hany)]
      simp [traverseAndExtract]

/-- A tree that is built, sent and read gives the root and the selected ids. -/
theorem partial_tree_round_trip (env : ChainEnv) (vTxid : List UInt256) (vMatch : List Bool)
    (hne : vTxid ≠ []) (hlimit : vTxid.length ≤ maxBlockSize env / 60)
    (hmask : vTxid.length = vMatch.length) :
    ∃ tree, newPartialMerkleTree env vTxid vMatch = some tree ∧
      extractMatches env (received tree) =
        (merkleRoot env vTxid.length vTxid, selected vTxid vMatch) := by
  have hroot := @iterate_treeHeight env vTxid _ vTxid.length 0 rfl hne (Nat.le_succ _)
  generalize hheight : treeHeight vTxid.length vTxid.length 0 = nHeight at hroot
  have hwidth : calcTreeWidth vTxid.length nHeight = 1 := by
    rw [← length_iterate_merkleLevel env, hroot]
    rfl
  have hwhole : ∀ {α : Type} (list : List α), list.length = vTxid.length →
      segment nHeight 0 list = list := by
    intro α list hlength
    have hle : ¬ 1 * 2 ^ nHeight < vTxid.length := by rw [← lt_calcTreeWidth_iff, hwidth]; omega
    rw [segment, Nat.zero_mul, drop_zero, take_of_length_le (by omega)]
  obtain ⟨vBits, vHash, hash, hbuild, hlength, hle, hhash, hextract⟩ :=
    traverseAndExtract_build env hmask (hwidth ▸ Nat.zero_lt_one : 0 < calcTreeWidth _ nHeight)
  rw [hwhole vTxid rfl] at hlength
  rw [calcHash_eq, hroot] at hhash
  cases hhash
  refine ⟨⟨vTxid.length, vBits, vHash, false⟩, ?_, ?_⟩
  · simp [newPartialMerkleTree, hheight, hbuild]
  have hread := hextract (replicate ((vBits.length + 7) / 8 * 8 - vBits.length) false) []
  rw [append_nil, hwhole vTxid rfl, hwhole vMatch hmask.symm] at hread
  have hpos := length_pos_iff.mpr hne
  have hpad : vBits.length + ((vBits.length + 7) / 8 * 8 - vBits.length) =
      (vBits.length + 7) / 8 * 8 := by omega
  simp only [extractMatches, received, readBits_writeBits, hheight, hread, length_append,
    length_replicate, hpad]
  rw [if_neg (by simp only [Bool.false_eq_true, or_false]; omega), if_pos ⟨by omega, trivial⟩]
  rfl

theorem partial_tree_round_trip_three :
    ∃ tree, newPartialMerkleTree tableEnv [1, 2, 3] [true, false, true] = some tree ∧
      extractMatches tableEnv (received tree) = (6, [1, 3]) :=
  partial_tree_round_trip tableEnv [1, 2, 3] [true, false, true] (cons_ne_nil _ _)
    (by decide +kernel) rfl

end RoundTrip

section Soundness

variable {env : ChainEnv}

theorem width_of_lt_treeHeight (hle : height ≤ k) (h : k < treeHeight n fuel height) :
    1 < calcTreeWidth n k := by
  induction fuel generalizing height with
  | zero => exact absurd h (Nat.not_lt.mpr hle)
  | succ fuel ih =>
    rw [treeHeight] at h
    split at h
    · rcases Nat.eq_or_lt_of_le hle with rfl | hlt
      · assumption
      · exact ih hlt h
    · exact absurd h (Nat.not_lt.mpr hle)

theorem pairsOf_iterate_subset (hfuel : level.length ≤ fuel + 1)
    (hlevel : 1 < ((merkleLevel env)^[k] level).length) :
    pairsOf ((merkleLevel env)^[k] level) ⊆ hashedPairs env fuel level := by
  have hlength : 1 < level.length := by
    have := Nat.two_pow_pos k
    rw [length_iterate_merkleLevel, lt_calcTreeWidth_iff] at hlevel
    omega
  match level, fuel with
  | [], _ | [_], _ => simp at hlength
  | _ :: _ :: _, 0 => simp at hfuel
  | left :: right :: rest, fuel + 1 =>
    cases k with
    | zero => exact subset_append_left _ _
    | succ k =>
      have hbelow : (merkleLevel env (left :: right :: rest)).length ≤ fuel + 1 := by
        rw [length_merkleLevel]
        simp only [length_cons] at hfuel ⊢
        omega
      rw [iterate_succ_apply] at hlevel ⊢
      exact Subset.trans (pairsOf_iterate_subset hbelow hlevel) (subset_append_right _ _)

/-- Below a node with the honest hash only honest ids are matched, each at its place. -/
theorem traverseAndExtract_sound {hash : UInt256} {vTxid : List UInt256}
    (hbinding : Binding env (hashedPairs env vTxid.length vTxid))
    (hheight : height ≤ treeHeight vTxid.length vTxid.length 0)
    (h : traverseAndExtract env vTxid.length height pos vBits vHash =
      some (hash, vMatch, vBits', vHash'))
    (hhash : ((merkleLevel env)^[height] vTxid)[pos]? = some hash) :
    vMatch <+ segment height pos vTxid := by
  induction height generalizing hash pos vBits vHash vMatch vBits' vHash' with
  | zero =>
    match vBits, vHash with
    | [], _ | true :: _, [] | false :: _, [] => simp [traverseAndExtract] at h
    | true :: _, _ :: _ =>
      simp only [traverseAndExtract, Option.some.injEq, Prod.mk.injEq] at h
      obtain ⟨rfl, rfl, -, -⟩ := h
      exact (segment_zero hhash).symm ▸ Sublist.refl _
    | false :: _, _ :: _ =>
      simp only [traverseAndExtract, Option.some.injEq, Prod.mk.injEq] at h
      obtain ⟨-, rfl, -, -⟩ := h
      exact nil_sublist _
  | succ height ih =>
    match vBits, vHash with
    | [], _ | false :: _, [] => simp [traverseAndExtract] at h
    | false :: _, _ :: _ =>
      simp only [traverseAndExtract, Option.some.injEq, Prod.mk.injEq] at h
      obtain ⟨-, rfl, -, -⟩ := h
      exact nil_sublist _
    | true :: vBits, vHash =>
      rw [iterate_succ_apply', merkleLevel_eq_map, getElem?_map, Option.map_eq_some_iff] at hhash
      obtain ⟨pair, hpair, rfl⟩ := hhash
      have hmem : pair ∈ hashedPairs env vTxid.length vTxid :=
        pairsOf_iterate_subset (Nat.le_succ _) (by
          rw [length_iterate_merkleLevel]
          exact width_of_lt_treeHeight (Nat.zero_le _) hheight) (mem_of_getElem? hpair)
      simp only [getElem?_pairsOf, Option.bind_eq_some_iff, Option.map_eq_some_iff,
        length_iterate_merkleLevel] at hpair
      obtain ⟨left, hleft, right, hright, rfl⟩ := hpair
      simp only [traverseAndExtract, Option.bind_eq_bind, Option.bind_eq_some_iff] at h
      obtain ⟨⟨left', below, vBits₁, vHash₁⟩, hbelow, h⟩ := h
      rw [segment_succ]
      split at h
      · simp only [Option.bind_eq_some_iff, Option.some.injEq, Prod.mk.injEq] at h
        obtain ⟨⟨right', below', vBits₂, vHash₂⟩, hbelow', heq, rfl, -, -⟩ := h
        cases hbinding _ hmem _ _ heq
        refine (ih (Nat.le_of_succ_le hheight) hbelow ?_).append
          (ih (Nat.le_of_succ_le hheight) hbelow' ?_)
        · rwa [Nat.mul_comm]
        · rwa [Nat.min_eq_left (by omega), Nat.mul_comm] at hright
      simp only [Option.some.injEq, Prod.mk.injEq] at h
      obtain ⟨heq, rfl, -, -⟩ := h
      cases hbinding _ hmem _ _ heq
      refine (ih (Nat.le_of_succ_le hheight) hbelow ?_).trans (sublist_append_left _ _)
      rwa [Nat.mul_comm]

/-- A tree with the root of a list of ids matches ids of that list only, in their order. -/
theorem partial_tree_sound (env : ChainEnv) (vTxid : List UInt256) (tree : CPartialMerkleTree)
    (hbinding : Binding env (hashedPairs env vTxid.length vTxid))
    (hn : tree.nTransactions = vTxid.length) (hne : merkleRoot env vTxid.length vTxid ≠ 0)
    (hroot : (extractMatches env tree).1 = merkleRoot env vTxid.length vTxid) :
    (extractMatches env tree).2 <+ vTxid := by
  rw [extractMatches, hn] at hroot ⊢
  split
  · exact nil_sublist _
  rename_i hearly
  rw [if_neg hearly] at hroot
  have hids : vTxid ≠ [] := by
    rintro rfl
    exact hearly (.inl rfl)
  have hheight := @iterate_treeHeight env vTxid _ vTxid.length 0 rfl hids (Nat.le_succ _)
  split
  · exact nil_sublist _
  rename_i hash vMatch vBits vHash hextract
  rw [hextract] at hroot
  simp only at hroot ⊢
  split at hroot
  · rw [if_pos ‹_›]
    refine (traverseAndExtract_sound hbinding (Nat.le_refl _) hextract ?_).trans
      ((take_sublist _ _).trans (drop_sublist _ _))
    rw [hheight]
    exact congrArg some hroot.symm
  · exact absurd hroot.symm hne

theorem partial_tree_sound_three :
    (extractMatches tableEnv ⟨3, [true, false, true, true], [4, 3], false⟩).2 = [3] ∧
      (extractMatches tableEnv ⟨3, [true, false, true, true], [4, 3], false⟩).2 <+ [1, 2, 3] := by
  refine ⟨by decide +kernel, partial_tree_sound tableEnv [1, 2, 3] _ ?_ rfl (by decide +kernel)
    (by decide +kernel)⟩
  have hpairs : hashedPairs tableEnv [1, 2, 3].length [1, 2, 3] = [(1, 2), (3, 3), (4, 5)] := by
    decide +kernel
  exact hpairs ▸ binding_table

end Soundness

end Bfx.PartialMerkle
