import Bfx.MintingBound

/-!
The Merkle tree of a block as a flat array: `BuildMerkleTree` appends level after level,
`GetMerkleBranch` collects the other sides of a path, `CheckMerkleBranch` follows it, and
`CPartialMerkleTree::CalcHash` computes one hash of a level from the ids below it.
-/

namespace Bfx.MerkleTree

open BlockConnection ChainIndex List MintingBound Transaction

section Model

variable (env : ChainEnv)

/-- The inner loop of `BuildMerkleTree`: the pairs of the level at `j` are hashed. -/
def pushLevel (j nSize : Nat) (vMerkleTree : List UInt256) : Option (List UInt256) :=
  (range ((nSize + 1) / 2)).foldlM (fun vMerkleTree k => do
    let left ← vMerkleTree[j + 2 * k]?
    let right ← vMerkleTree[j + min (2 * k + 1) (nSize - 1)]?
    some (vMerkleTree ++ [env.hashPair left right])) vMerkleTree

def pushLevels (j nSize : Nat) (vMerkleTree : List UInt256) : Option (List UInt256) :=
  if nSize > 1 then do
    let vMerkleTree ← pushLevel env j nSize vMerkleTree
    pushLevels (j + nSize) ((nSize + 1) / 2) vMerkleTree
  else some vMerkleTree
termination_by nSize

/-- The array that `BuildMerkleTree` leaves behind; it returns the last element. -/
def vMerkleTree (vtx : List CTransaction) : Option (List UInt256) :=
  pushLevels env 0 vtx.length (vtx.map env.getHash)

/-- The value of `nIndex ^ 1`. -/
def sibling (nIndex : Nat) : Nat := if nIndex % 2 = 0 then nIndex + 1 else nIndex - 1

def getMerkleBranchFrom (vMerkleTree : List UInt256) (j nSize nIndex : Nat) :
    Option (List UInt256) :=
  if nSize > 1 then do
    let otherside ← vMerkleTree[j + min (sibling nIndex) (nSize - 1)]?
    let vMerkleBranch ←
      getMerkleBranchFrom vMerkleTree (j + nSize) ((nSize + 1) / 2) (nIndex / 2)
    some (otherside :: vMerkleBranch)
  else some []
termination_by nSize

/-- The array is built again only if it is empty. -/
def getMerkleBranch (cached : List UInt256) (vtx : List CTransaction) (nIndex : Nat) :
    Option (List UInt256) :=
  (if cached.isEmpty then vMerkleTree env vtx else some cached).bind
    (getMerkleBranchFrom · 0 vtx.length nIndex)

def checkMerkleBranch (hash : UInt256) (vMerkleBranch : List UInt256) (nIndex : Int) : UInt256 :=
  if nIndex = -1 then 0
  else
    (vMerkleBranch.foldl (fun (hash, nIndex) otherside =>
      (if nIndex % 2 = 1 then env.hashPair otherside hash else env.hashPair hash otherside,
        nIndex / 2)) (hash, nIndex)).1

def calcTreeWidth (nTransactions height : Nat) : Nat := (nTransactions + 2 ^ height - 1) / 2 ^ height

def calcHash (vTxid : List UInt256) : Nat → Nat → Option UInt256
  | 0, pos => vTxid[pos]?
  | height + 1, pos => do
    let left ← calcHash vTxid height (pos * 2)
    let right ← if pos * 2 + 1 < calcTreeWidth vTxid.length height
      then calcHash vTxid height (pos * 2 + 1) else some left
    some (env.hashPair left right)

/-- The loop of the constructor of `CPartialMerkleTree`. -/
def treeHeight (nTransactions : Nat) : Nat → Nat → Nat
  | 0, nHeight => nHeight
  | fuel + 1, nHeight =>
    if calcTreeWidth nTransactions nHeight > 1 then treeHeight nTransactions fuel (nHeight + 1)
    else nHeight

end Model

section Levels

variable (env : ChainEnv)

/-- The pairs that are hashed for the level above. -/
def pairsOf : List UInt256 → List (UInt256 × UInt256)
  | [] => []
  | [hash] => [(hash, hash)]
  | left :: right :: rest => (left, right) :: pairsOf rest

theorem merkleLevel_eq_map (env : ChainEnv) (level : List UInt256) :
    merkleLevel env level = (pairsOf level).map fun p => env.hashPair p.1 p.2 := by
  fun_induction pairsOf level with
  | case1 => rfl
  | case2 => rfl
  | case3 left right rest ih => rw [merkleLevel, ih, map_cons]

theorem length_merkleLevel (level : List UInt256) :
    (merkleLevel env level).length = (level.length + 1) / 2 := by
  fun_induction merkleLevel env level with
  | case1 => rfl
  | case2 => simp
  | case3 left right rest ih =>
    simp only [length_cons, ih]
    omega

theorem getElem?_pairsOf (level : List UInt256) (k : Nat) :
    (pairsOf level)[k]? = level[2 * k]?.bind fun left =>
      level[min (2 * k + 1) (level.length - 1)]?.map (left, ·) := by
  fun_induction pairsOf level generalizing k with
  | case1 => simp
  | case2 => cases k <;> simp [Nat.mul_add]
  | case3 left right rest ih =>
    cases k with
    | zero => simp
    | succ k =>
      rw [getElem?_cons_succ, ih, Nat.mul_succ, length_cons, length_cons]
      rcases Nat.lt_or_ge (2 * k) rest.length with hlt | hge
      · rw [show min (2 * k + 2 + 1) (rest.length + 1 + 1 - 1) =
          min (2 * k + 1) (rest.length - 1) + 2 by omega]
        simp
      · simp [getElem?_eq_none hge]

theorem getElem?_merkleLevel (level : List UInt256) (k : Nat) :
    (merkleLevel env level)[k]? = level[2 * k]?.bind fun left =>
      level[min (2 * k + 1) (level.length - 1)]?.map (env.hashPair left) := by
  rw [merkleLevel_eq_map, getElem?_map, getElem?_pairsOf, Option.map_bind]
  simp only [Function.comp_def, Option.map_map]

theorem getElem?_append_append (before level after : List UInt256) (hk : k < level.length) :
    (before ++ (level ++ after))[before.length + k]? = level[k]? := by
  rw [getElem?_append_right (Nat.le_add_right _ _), Nat.add_sub_cancel_left, getElem?_append_left hk]

theorem pushLevel_eq (before level : List UInt256) :
    pushLevel env before.length level.length (before ++ level) =
      some (before ++ level ++ merkleLevel env level) := by
  have hpush : ∀ m ≤ (level.length + 1) / 2, (range m).foldlM (fun vMerkleTree k => do
      let left ← vMerkleTree[before.length + 2 * k]?
      let right ← vMerkleTree[before.length + min (2 * k + 1) (level.length - 1)]?
      some (vMerkleTree ++ [env.hashPair left right])) (before ++ level) =
        some (before ++ level ++ (merkleLevel env level).take m) := by
    intro m hm
    induction m with
    | zero => simp
    | succ m ih =>
      rw [range_succ, foldlM_append, ih (by omega)]
      simp only [Option.bind_eq_bind, Option.bind_some, foldlM_cons, foldlM_nil, append_assoc]
      rw [getElem?_append_append _ _ _ (by omega), getElem?_append_append _ _ _ (by omega),
        take_add_one, getElem?_merkleLevel, getElem?_eq_getElem (by omega : 2 * m < level.length),
        getElem?_eq_getElem (by omega : min (2 * m + 1) (level.length - 1) < level.length)]
      simp
  have hall := hpush _ (Nat.le_refl _)
  rwa [take_of_length_le (by rw [length_merkleLevel])] at hall

def levels (env : ChainEnv) (level : List UInt256) : List UInt256 :=
  if level.length > 1 then level ++ levels env (merkleLevel env level) else level
termination_by level.length
decreasing_by
  rw [length_merkleLevel]
  omega

theorem pushLevels_eq (before level : List UInt256) :
    pushLevels env before.length level.length (before ++ level) =
      some (before ++ levels env level) := by
  fun_induction levels env level generalizing before with
  | case1 level hlevel ih =>
    have hnext := ih (before ++ level)
    rw [length_append, length_merkleLevel] at hnext
    rw [pushLevels, if_pos hlevel, pushLevel_eq]
    simpa using hnext
  | case2 level hlevel => rw [pushLevels, if_neg hlevel]

theorem getLast?_levels (hne : level ≠ []) (hfuel : level.length ≤ fuel + 1) :
    (levels env level).getLast? = some (merkleRoot env fuel level) := by
  induction fuel generalizing level with
  | zero =>
    obtain ⟨hash, rfl⟩ := length_eq_one_iff.mp
      (Nat.le_antisymm hfuel (length_pos_iff.mpr hne))
    simp [levels, merkleRoot]
  | succ fuel ih =>
    match level, hne with
    | [hash], _ => simp [levels, merkleRoot]
    | left :: right :: rest, _ =>
      have hlevel : merkleLevel env (left :: right :: rest) ≠ [] := cons_ne_nil _ _
      have hlast := ih hlevel (by
        rw [length_merkleLevel]
        simp only [length_cons] at hfuel ⊢
        omega)
      rw [levels, if_pos (by simp), getLast?_append, hlast]
      rfl

/-- Following the branch of a hash of a level leads to the last hash of all. -/
theorem getMerkleBranchFrom_verifies (before level : List UInt256) {hash : UInt256}
    (hhash : level[nIndex]? = some hash) :
    ∃ branch, getMerkleBranchFrom (before ++ levels env level) before.length level.length nIndex =
        some branch ∧
      (levels env level).getLast? = some (branch.foldl (fun (hash, nIndex) otherside =>
        (if nIndex % 2 = 1 then env.hashPair otherside hash else env.hashPair hash otherside,
          nIndex / 2)) (hash, (nIndex : Int))).1 := by
  fun_induction levels env level generalizing before nIndex hash with
  | case1 level hlevel ih =>
    have hlt := (List.getElem?_eq_some_iff.mp hhash).1
    have hsibling : min (sibling nIndex) (level.length - 1) < level.length := by omega
    obtain ⟨other, hother⟩ : ∃ other, level[min (sibling nIndex) (level.length - 1)]? = some other :=
      ⟨_, getElem?_eq_getElem hsibling⟩
    have hnode : (merkleLevel env level)[nIndex / 2]? = some (if (nIndex : Int) % 2 = 1
        then env.hashPair other hash else env.hashPair hash other) := by
      rw [getElem?_merkleLevel]
      rcases Nat.mod_two_eq_zero_or_one nIndex with heven | hodd
      · rw [sibling, if_pos heven] at hother
        rw [if_neg (by omega), show 2 * (nIndex / 2) = nIndex by omega, hhash, Option.bind_some, hother]
        rfl
      rw [sibling, if_neg (by omega), show min (nIndex - 1) _ = 2 * (nIndex / 2) by omega] at hother
      rw [if_pos (by omega), show min (2 * (nIndex / 2) + 1) _ = nIndex by omega, hhash, hother]
      rfl
    obtain ⟨branch, hbranch, hlast⟩ := ih (before ++ level) hnode
    rw [length_append, length_merkleLevel, append_assoc] at hbranch
    refine ⟨other :: branch, ?_, ?_⟩
    · rw [getMerkleBranchFrom, if_pos hlevel, getElem?_append_append _ _ _ hsibling, hother]
      simp [hbranch]
    · rw [getLast?_append, hlast]
      simp
  | case2 level hlevel =>
    have hlt := (List.getElem?_eq_some_iff.mp hhash).1
    obtain ⟨last, rfl⟩ := length_eq_one_iff.mp (by omega : level.length = 1)
    refine ⟨[], by rw [getMerkleBranchFrom, if_neg hlevel], ?_⟩
    obtain rfl : nIndex = 0 := by simpa using hlt
    rw [getLast?_singleton, ← Option.some.inj hhash]
    rfl

theorem length_iterate_merkleLevel (vTxid : List UInt256) (height : Nat) :
    ((merkleLevel env)^[height] vTxid).length = calcTreeWidth vTxid.length height := by
  induction height with
  | zero => simp [calcTreeWidth]
  | succ height ih =>
    have hpos : 0 < 2 ^ height := Nat.two_pow_pos height
    rw [Function.iterate_succ_apply', length_merkleLevel, ih, calcTreeWidth, calcTreeWidth,
      ← Nat.add_div_right _ hpos, Nat.div_div_eq_div_mul, Nat.pow_succ]
    congr 1
    omega

theorem calcHash_eq (vTxid : List UInt256) (height pos : Nat) :
    calcHash env vTxid height pos = ((merkleLevel env)^[height] vTxid)[pos]? := by
  induction height generalizing pos with
  | zero => rfl
  | succ height ih =>
    rw [calcHash, Function.iterate_succ_apply', getElem?_merkleLevel, ih, ih,
      ← length_iterate_merkleLevel env, Nat.mul_comm pos 2]
    generalize (merkleLevel env)^[height] vTxid = level
    rcases Nat.lt_or_ge (2 * pos) level.length with hlt | hge
    · split
      · rw [show min (2 * pos + 1) _ = 2 * pos + 1 by omega]
        simp [Option.map_eq_bind]
      · rw [show min (2 * pos + 1) _ = 2 * pos by omega, getElem?_eq_getElem hlt]
        rfl
    · simp [getElem?_eq_none hge]

theorem iterate_treeHeight {vTxid level : List UInt256} {fuel height : Nat}
    (hlevel : (merkleLevel env)^[height] vTxid = level) (hne : level ≠ [])
    (hfuel : level.length ≤ fuel + 1) :
    (merkleLevel env)^[treeHeight vTxid.length fuel height] vTxid = [merkleRoot env fuel level] := by
  induction fuel generalizing level height with
  | zero =>
    obtain ⟨hash, rfl⟩ := length_eq_one_iff.mp (Nat.le_antisymm hfuel (length_pos_iff.mpr hne))
    rw [treeHeight, hlevel]
    rfl
  | succ fuel ih =>
    rw [treeHeight, ← length_iterate_merkleLevel env, hlevel]
    match level, hne with
    | [hash], _ => simp [hlevel, merkleRoot]
    | left :: right :: rest, _ =>
      rw [if_pos (by simp)]
      refine ih (by rw [Function.iterate_succ_apply', hlevel]) (cons_ne_nil _ _) ?_
      rw [length_merkleLevel]
      simp only [length_cons] at hfuel ⊢
      omega

/-- Every branch leads to the root, which is also what the partial trees compute. -/
theorem merkle_branches_verify (env : ChainEnv) (block : CBlock) (cached : List UInt256) (i : Nat)
    (tx : CTransaction) (htx : block.vtx[i]? = some tx)
    (hcached : cached = [] ∨ vMerkleTree env block.vtx = some cached) :
    (vMerkleTree env block.vtx).map (·.getLastD 0) = some (buildMerkleTree env block) ∧
      (getMerkleBranch env cached block.vtx i).map
        (checkMerkleBranch env (env.getHash tx) · i) = some (buildMerkleTree env block) ∧
      calcHash env (block.vtx.map env.getHash)
        (treeHeight block.vtx.length block.vtx.length 0) 0 = some (buildMerkleTree env block) := by
  have hne : block.vtx.map env.getHash ≠ [] := by
    rintro hnil
    simp [map_eq_nil_iff.mp hnil] at htx
  have htree : vMerkleTree env block.vtx = some (levels env (block.vtx.map env.getHash)) := by
    simpa [vMerkleTree] using pushLevels_eq env [] (block.vtx.map env.getHash)
  have hroot : (levels env (block.vtx.map env.getHash)).getLast? =
      some (buildMerkleTree env block) := getLast?_levels env hne (by simp)
  refine ⟨?_, ?_, ?_⟩
  · simp [htree, getLastD_eq_getLast?, hroot]
  · obtain ⟨branch, hbranch, hlast⟩ := getMerkleBranchFrom_verifies env [] (block.vtx.map env.getHash)
      (by rw [getElem?_map, htx, Option.map_some])
    have hcache : (if cached.isEmpty then vMerkleTree env block.vtx else some cached) =
        some (levels env (block.vtx.map env.getHash)) := by
      rcases hcached with rfl | hcached
      · exact htree
      · rw [← hcached, htree, ite_self]
    rw [hroot] at hlast
    rw [getMerkleBranch, hcache]
    simp_all [checkMerkleBranch]
  have hheight := @iterate_treeHeight env (block.vtx.map env.getHash) _ block.vtx.length 0 rfl hne
    (by simp)
  rw [length_map] at hheight
  rw [calcHash_eq, hheight]
  rfl

def threeTxs : CBlock := ⟨6, 0, 0, 0, 0, 0, [storedTx, storedTx, storedTx], []⟩

theorem merkle_branch_third :
    (getMerkleBranch workEnv [] threeTxs.vtx 2).map
      (checkMerkleBranch workEnv (workEnv.getHash storedTx) · 2) =
        some (buildMerkleTree workEnv threeTxs) :=
  (merkle_branches_verify workEnv threeTxs [] 2 storedTx rfl (.inl rfl)).2.1

end Levels

section Commitment

variable (env : ChainEnv)

def hashedPairs : Nat → List UInt256 → List (UInt256 × UInt256)
  | fuel + 1, left :: right :: rest => pairsOf (left :: right :: rest) ++
      hashedPairs fuel (merkleLevel env (left :: right :: rest))
  | _, _ => []

/-- No other pair has the hash of one of these pairs. -/
def Binding (pairs : List (UInt256 × UInt256)) : Prop :=
  ∀ p ∈ pairs, ∀ left right, env.hashPair left right = env.hashPair p.1 p.2 → (left, right) = p

/-- A hash of the `n`-th level over some leaves, by its path to the left. -/
inductive OfLevel (leaves : List UInt256) (pairs : List (UInt256 × UInt256)) :
    Nat → UInt256 → Prop
  | leaf {x : UInt256} (h : x ∈ leaves) : OfLevel leaves pairs 0 x
  | node {p : UInt256 × UInt256} (hp : p ∈ pairs) (h : OfLevel leaves pairs n p.1) :
      OfLevel leaves pairs (n + 1) (env.hashPair p.1 p.2)

variable {env} {leaves : List UInt256} {pairs : List (UInt256 × UInt256)}

theorem pairsOf_fst_sublist (level : List UInt256) : (pairsOf level).map (·.1) <+ level := by
  fun_induction pairsOf level with
  | case1 => exact .slnil
  | case2 => exact .refl _
  | case3 left right rest ih => exact (ih.cons right).cons_cons left

/-- A level without repetitions is known by its pairs: an odd last hash is not a pair of two. -/
theorem pairsOf_inj (hlevel : level.Nodup) (hlevel' : level'.Nodup)
    (heq : pairsOf level = pairsOf level') : level = level' := by
  fun_induction pairsOf level generalizing level' with
  | case1 => match level' with
    | [] => rfl
    | [_] => cases heq
    | _ :: _ :: _ => cases heq
  | case2 hash => match level' with
    | [] => cases heq
    | [_] => simp_all [pairsOf]
    | left :: right :: rest =>
      simp only [pairsOf, cons.injEq, Prod.mk.injEq] at heq
      exact absurd mem_cons_self (heq.1.1 ▸ heq.1.2 ▸ (nodup_cons.mp hlevel').1)
  | case3 left right rest ih => match level' with
    | [] => cases heq
    | [_] => simp_all [pairsOf]
    | left' :: right' :: rest' =>
      simp only [pairsOf, cons.injEq, Prod.mk.injEq] at heq
      rw [heq.1.1, heq.1.2, ih (hlevel.of_cons.of_cons) hlevel'.of_cons.of_cons heq.2]

variable (hbinding : Binding env pairs)
include hbinding

theorem merkleLevel_inj (hlevel : level.Nodup) (hlevel' : level'.Nodup)
    (hpairs : pairsOf level ⊆ pairs) (heq : merkleLevel env level = merkleLevel env level') :
    level = level' := by
  rw [merkleLevel_eq_map, merkleLevel_eq_map] at heq
  refine pairsOf_inj hlevel hlevel' ?_
  generalize pairsOf level = l, pairsOf level' = l' at hpairs heq
  induction l generalizing l' with
  | nil => exact (map_eq_nil_iff.mp heq.symm).symm
  | cons p l ih =>
    obtain ⟨q, l', rfl, hhash, heq⟩ := map_eq_cons_iff.mp heq.symm
    obtain ⟨hp, hpairs⟩ := cons_subset.mp hpairs
    rw [ih l' hpairs heq.symm, ← hbinding p hp q.1 q.2 hhash]

theorem OfLevel.unique (hleaves : ∀ p ∈ pairs, env.hashPair p.1 p.2 ∉ leaves)
    (h : OfLevel env leaves pairs n x) (h' : OfLevel env leaves pairs m x) : n = m := by
  induction h generalizing m with
  | leaf hleaf => cases h' with
    | leaf => rfl
    | node hp => exact absurd hleaf (hleaves _ hp)
  | @node n p hp h ih =>
    generalize hhash : env.hashPair p.1 p.2 = x at h'
    cases h' with
    | leaf hleaf => exact absurd (hhash ▸ hleaf) (hleaves _ hp)
    | node hq hlevel =>
      obtain rfl : p = _ := hbinding _ hq _ _ hhash
      rw [ih hlevel]

/-- A level of a tree, with fuel for the levels above it. -/
structure Row (env : ChainEnv) (leaves : List UInt256) (pairs : List (UInt256 × UInt256))
    (n fuel : Nat) (level : List UInt256) : Prop where
  ofLevel : ∀ hash ∈ level, OfLevel env leaves pairs n hash
  nodup : level.Nodup
  pairs : hashedPairs env fuel level ⊆ pairs
  pos : 0 < level.length
  le : level.length ≤ fuel + 1

theorem Row.above (h : Row env leaves pairs n (fuel + 1) (left :: right :: rest)) :
    Row env leaves pairs (n + 1) fuel (merkleLevel env (left :: right :: rest)) := by
  obtain ⟨hfirst, hrest⟩ := append_subset.mp h.pairs
  refine ⟨fun hash hhash => ?_, ?_, hrest, ?_, ?_⟩
  · rw [merkleLevel_eq_map] at hhash
    obtain ⟨p, hp, rfl⟩ := mem_map.mp hhash
    exact .node (hfirst hp) (h.ofLevel _ ((pairsOf_fst_sublist _).subset (mem_map_of_mem hp)))
  · rw [merkleLevel_eq_map]
    refine Nodup.map_on (fun p hp q hq heq => ?_) ((pairsOf_fst_sublist _).nodup h.nodup).of_map
    exact hbinding q (hfirst hq) p.1 p.2 heq
  · exact Nat.succ_pos _
  have hle := h.le
  rw [length_merkleLevel]
  simp only [length_cons] at hle ⊢
  omega

theorem Row.ofLevel_root (h : Row env leaves pairs n fuel level) :
    ∃ m ≥ n, OfLevel env leaves pairs m (merkleRoot env fuel level) ∧
      (m = n ↔ level.length = 1) := by
  fun_induction merkleRoot env fuel level generalizing n with
  | case1 => exact absurd h.pos (Nat.lt_irrefl 0)
  | case2 _ hash => exact ⟨n, Nat.le_refl _, h.ofLevel hash mem_cons_self, by simp⟩
  | case3 level hnil hone =>
    obtain ⟨hash, rfl⟩ := length_eq_one_iff.mp (Nat.le_antisymm h.le h.pos)
    exact absurd rfl (hone hash)
  | case4 fuel level hnil hone ih =>
    match level with
    | [] => exact absurd rfl hnil
    | [hash] => exact absurd rfl (hone hash)
    | left :: right :: rest =>
      obtain ⟨m, hm, hroot, -⟩ := ih (h.above hbinding)
      exact ⟨m, by omega, hroot, iff_of_false (by omega) (by simp)⟩

variable (hleaves : ∀ p ∈ pairs, env.hashPair p.1 p.2 ∉ leaves)
include hleaves

/-- Equal roots are equally high, so both levels are roots or none is. -/
theorem Row.length_eq_one_iff (h : Row env leaves pairs n fuel level)
    (h' : Row env leaves pairs n fuel' level')
    (hroot : merkleRoot env fuel level = merkleRoot env fuel' level') :
    level.length = 1 ↔ level'.length = 1 := by
  obtain ⟨m, -, hof, hm⟩ := h.ofLevel_root hbinding
  obtain ⟨m', -, hof', hm'⟩ := h'.ofLevel_root hbinding
  rw [← hroot] at hof'
  rw [← hm, ← hm', hof.unique hbinding hleaves hof']

theorem Row.eq_of_root_eq (h : Row env leaves pairs n fuel level)
    (h' : Row env leaves pairs n fuel' level')
    (hroot : merkleRoot env fuel level = merkleRoot env fuel' level') : level = level' := by
  have hone := h.length_eq_one_iff hbinding hleaves h' hroot
  induction fuel generalizing level level' n fuel' with
  | zero =>
    have hlength := Nat.le_antisymm h.le h.pos
    obtain ⟨hash, rfl⟩ := List.length_eq_one_iff.mp hlength
    obtain ⟨hash', rfl⟩ := List.length_eq_one_iff.mp (hone.mp hlength)
    simpa [merkleRoot] using hroot
  | succ fuel ih =>
    match level, level', fuel' with
    | [], _, _ => exact absurd h.pos (Nat.lt_irrefl 0)
    | _, [], _ => exact absurd h'.pos (Nat.lt_irrefl 0)
    | [hash], [hash'], _ => simpa [merkleRoot] using hroot
    | [_], _ :: _ :: _, _ => simp at hone
    | _ :: _ :: _, [_], _ => simp at hone
    | _ :: _ :: _, _ :: _ :: _, 0 => exact absurd h'.le (by simp)
    | left :: right :: rest, left' :: right' :: rest', fuel' + 1 =>
      have hup := h.above hbinding
      have hup' := h'.above hbinding
      exact merkleLevel_inj hbinding h.nodup h'.nodup (append_subset.mp h.pairs).1
        (ih hup hup' hroot (hup.length_eq_one_iff hbinding hleaves hup' hroot))

omit hbinding hleaves

/-- The root commits to the ids of the transactions and to their order: no other pair has the
hash of a pair that is hashed for one of the roots, and no id is such a hash. -/
theorem merkle_root_commits (env : ChainEnv) (block block' : CBlock) (hne : block.vtx ≠ [])
    (hne' : block'.vtx ≠ []) (hnodup : (block.vtx.map env.getHash).Nodup)
    (hnodup' : (block'.vtx.map env.getHash).Nodup)
    (hbinding : Binding env (hashedPairs env block.vtx.length (block.vtx.map env.getHash) ++
      hashedPairs env block'.vtx.length (block'.vtx.map env.getHash)))
    (hids : ∀ p ∈ hashedPairs env block.vtx.length (block.vtx.map env.getHash) ++
      hashedPairs env block'.vtx.length (block'.vtx.map env.getHash),
        env.hashPair p.1 p.2 ∉ block.vtx.map env.getHash ++ block'.vtx.map env.getHash)
    (hroot : buildMerkleTree env block = buildMerkleTree env block') :
    block.vtx.map env.getHash = block'.vtx.map env.getHash :=
  Row.eq_of_root_eq hbinding hids
    ⟨fun _ hash => .leaf (mem_append_left _ hash), hnodup, subset_append_left _ _,
      by simpa [length_pos_iff] using hne, by simp⟩
    ⟨fun _ hash => .leaf (mem_append_right _ hash), hnodup', subset_append_right _ _,
      by simpa [length_pos_iff] using hne', by simp⟩ hroot

/-- A hash for the three pairs over the ids 1, 2 and 3. -/
def tableEnv : ChainEnv :=
  { workEnv with
    hashPair := fun left right => if (left, right) = (1, 2) then 4
      else if (left, right) = (3, 3) then 5 else if (left, right) = (4, 5) then 6 else 0 }

/-- A block with transactions of the times 1, 2 and 3, which are their ids. -/
def tableBlock (nTime : Nat) : CBlock := ⟨6, 0, 0, nTime, 0, 0, [1, 2, 3].map (⟨·, [], [], 0⟩), []⟩

theorem hashedPairs_table (nTime : Nat) :
    hashedPairs tableEnv (tableBlock nTime).vtx.length
      ((tableBlock nTime).vtx.map tableEnv.getHash) = [(1, 2), (3, 3), (4, 5)] := by
  change hashedPairs tableEnv 3 [1, 2, 3] = _
  decide +kernel

theorem binding_table : Binding tableEnv [(1, 2), (3, 3), (4, 5)] := by
  intro p hp left right heq
  simp only [mem_cons, not_mem_nil, or_false] at hp
  rcases hp with rfl | rfl | rfl
  all_goals
    simp only [tableEnv] at heq
    split_ifs at heq <;> simp_all

theorem merkle_root_commits_table :
    (tableBlock 1).vtx.map tableEnv.getHash = (tableBlock 2).vtx.map tableEnv.getHash := by
  have hpairs := hashedPairs_table 1
  have hpairs' := hashedPairs_table 2
  refine merkle_root_commits tableEnv (tableBlock 1) (tableBlock 2) (cons_ne_nil _ _)
    (cons_ne_nil _ _) (by decide +kernel) (by decide +kernel) ?_ ?_ rfl
  · rw [hpairs, hpairs']
    exact fun p hp => binding_table p ((mem_append.mp hp).elim id id)
  · rw [hpairs, hpairs']
    simp only [mem_append, or_self, mem_cons, not_mem_nil, or_false]
    rintro p (rfl | rfl | rfl)
    all_goals decide +kernel

end Commitment

end Bfx.MerkleTree
