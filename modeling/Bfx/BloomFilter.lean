import Bfx.ScriptTemplates
import Bfx.TransferInterpreter

/-!
Bloom filters that peers supply: `MurmurHash3`, the operations of `CBloomFilter`,
and the messages and relays that use the filter of a peer.
-/

namespace Bfx.BloomFilter

open CallOutcome HexText ScriptTemplates ScriptText TokenTransaction TransferInterpreter Transaction
  List

def rotl32 (x r : UInt32) : UInt32 := (x <<< r) ||| (x >>> (32 - r))

def mixKey (k1 : UInt32) : UInt32 := rotl32 (k1 * 0xcc9e2d51) 15 * 0x1b873593

/-- The blocks of four bytes; what is left is the tail. -/
def murmurBody : UInt32 → Bytes → UInt32 × Bytes
  | h1, b0 :: b1 :: b2 :: b3 :: rest =>
    let k1 := UInt32.ofNat (littleEndianValue [b0, b1, b2, b3])
    murmurBody (rotl32 (h1 ^^^ mixKey k1) 13 * 5 + 0xe6546b64) rest
  | h1, tail => (h1, tail)

def murmurTail (h1 : UInt32) : Bytes → UInt32
  | [] => h1
  | tail => h1 ^^^ mixKey (UInt32.ofNat (littleEndianValue tail))

def murmurFinish (h1 : UInt32) : UInt32 :=
  let h1 := (h1 ^^^ (h1 >>> 16)) * 0x85ebca6b
  let h1 := (h1 ^^^ (h1 >>> 13)) * 0xc2b2ae35
  h1 ^^^ (h1 >>> 16)

def murmurHash3 (nHashSeed : UInt32) (vDataToHash : Bytes) : UInt32 :=
  let (h1, tail) := murmurBody nHashSeed vDataToHash
  murmurFinish (murmurTail h1 tail ^^^ UInt32.ofNat vDataToHash.length)

example : murmurHash3 0xFBA4C795 [0x00] = 0xea3f0b17 := by decide +kernel

section Filter

/-- What an operation on a filter can do instead of returning. -/
inductive FilterFault where
  | divisionByZero
  | outOfBounds
  deriving DecidableEq, Repr

abbrev FilterCall (α : Type) := Except FilterFault α

structure CBloomFilter where
  vData : Bytes
  nHashFuncs : UInt32
  nTweak : UInt32
  nFlags : UInt8
  deriving DecidableEq, Repr

def MAX_BLOOM_FILTER_SIZE : Nat := 36000

def MAX_HASH_FUNCS : Nat := 50

def BLOOM_UPDATE_ALL : UInt8 := 1

def BLOOM_UPDATE_P2PUBKEY_ONLY : UInt8 := 2

def BLOOM_UPDATE_MASK : UInt8 := 3

def bitMask (nIndex : Nat) : UInt8 :=
  [0x01, 0x02, 0x04, 0x08, 0x10, 0x20, 0x40, 0x80].getD (7 &&& nIndex) 0

/-- `vData[i]`. -/
def byteAt (vData : Bytes) (i : Nat) : FilterCall UInt8 :=
  match vData[i]? with
  | some byte => .ok byte
  | none => .error .outOfBounds

namespace CBloomFilter

/-- The remainder by the number of bits, which a peer chooses. -/
def hash (filter : CBloomFilter) (nHashNum : UInt32) (vDataToHash : Bytes) : FilterCall Nat :=
  let bits := filter.vData.length * 8
  if bits = 0 then .error .divisionByZero
  else .ok ((murmurHash3 (nHashNum * 0xFBA4C795 + filter.nTweak) vDataToHash).toNat % bits)

def insertFrom (vKey : Bytes) : List Nat → CBloomFilter → FilterCall CBloomFilter
  | [], filter => .ok filter
  | i :: rest, filter => do
    let nIndex ← filter.hash (UInt32.ofNat i) vKey
    let byte ← byteAt filter.vData (nIndex >>> 3)
    insertFrom vKey rest
      { filter with vData := filter.vData.set (nIndex >>> 3) (byte ||| bitMask nIndex) }

def insert (filter : CBloomFilter) (vKey : Bytes) : FilterCall CBloomFilter :=
  insertFrom vKey (List.range filter.nHashFuncs.toNat) filter

def containsFrom (filter : CBloomFilter) (vKey : Bytes) : List Nat → FilterCall Bool
  | [] => .ok true
  | i :: rest => do
    let nIndex ← filter.hash (UInt32.ofNat i) vKey
    let byte ← byteAt filter.vData (nIndex >>> 3)
    if byte &&& bitMask nIndex = 0 then .ok false else filter.containsFrom vKey rest

def contains (filter : CBloomFilter) (vKey : Bytes) : FilterCall Bool :=
  filter.containsFrom vKey (List.range filter.nHashFuncs.toNat)

end CBloomFilter

/-- The bytes of a hash, as they lie in memory. -/
def hashBytes (hash : UInt256) : Bytes := littleEndianBytes 32 hash.toNat

/-- `stream << outpoint`. -/
def outPointBytes (outpoint : COutPoint) : Bytes :=
  hashBytes outpoint.hash ++ littleEndianBytes 4 outpoint.n

def isWithinSizeConstraints (filter : CBloomFilter) : Bool :=
  filter.vData.length ≤ MAX_BLOOM_FILTER_SIZE && filter.nHashFuncs.toNat ≤ MAX_HASH_FUNCS

end Filter

/-- `data.size() != 0 && contains(data)`. -/
def containsData (filter : CBloomFilter) (data : Bytes) : FilterCall Bool :=
  if data.length ≠ 0 then filter.contains data else .ok false

/-- Whether the filter contains some data that a script pushes. The loop ends
where `GetOp` fails; the fuel is the number of bytes. -/
def containsPush (filter : CBloomFilter) : Nat → Bytes → FilterCall Bool
  | 0, _ => .ok false
  | fuel + 1, script =>
    match getOp script with
    | none => .ok false
    | some (_, data, rest) => do
      if ← containsData filter data then .ok true else containsPush filter fuel rest

/-- Whether the output that was matched is added to the filter. -/
def updatesFilter (dataSize : Nat) (nFlags : UInt8) (scriptPubKey : Bytes) : Bool :=
  if nFlags &&& BLOOM_UPDATE_MASK = BLOOM_UPDATE_ALL then true
  else if nFlags &&& BLOOM_UPDATE_MASK = BLOOM_UPDATE_P2PUBKEY_ONLY then
    match solver dataSize scriptPubKey with
    | some (type, _) => type = .pubKey || type = .multisig
    | none => false
  else false

def addMatched (dataSize : Nat) (filter : CBloomFilter) (outpoint : COutPoint)
    (scriptPubKey : Bytes) : FilterCall CBloomFilter :=
  if updatesFilter dataSize filter.nFlags scriptPubKey then filter.insert (outPointBytes outpoint)
  else .ok filter

def matchOutputs (dataSize : Nat) (hash : UInt256) :
    Nat → List CTxOut → Bool × CBloomFilter → FilterCall (Bool × CBloomFilter)
  | _, [], state => .ok state
  | i, txout :: vout, (fFound, filter) => do
    if ← containsPush filter txout.scriptPubKey.length txout.scriptPubKey then
      let filter ← addMatched dataSize filter ⟨hash, i⟩ txout.scriptPubKey
      matchOutputs dataSize hash (i + 1) vout (true, filter)
    else matchOutputs dataSize hash (i + 1) vout (fFound, filter)

def matchInputs (filter : CBloomFilter) : List CTxIn → FilterCall Bool
  | [] => .ok false
  | txin :: vin => do
    if ← filter.contains (outPointBytes txin.prevout) then .ok true
    else if ← containsPush filter txin.scriptSig.length txin.scriptSig then .ok true
    else matchInputs filter vin

def isRelevantAndUpdate (dataSize : Nat) (filter : CBloomFilter) (tx : CTransaction)
    (hash : UInt256) : FilterCall (Bool × CBloomFilter) := do
  let fFound ← filter.contains (hashBytes hash)
  let (fFound, filter) ← matchOutputs dataSize hash 0 tx.vout (fFound, filter)
  if fFound then .ok (true, filter)
  else
    let found ← matchInputs filter tx.vin
    .ok (found, filter)

/-- What `CMerkleBlock` collects about the transactions of a block. -/
structure MerkleMatches where
  vMatchedTxn : List (Nat × UInt256)
  vMatch : List Bool
  vHashes : List UInt256

def matchTransactions (env : NodeEnv) (dataSize : Nat) :
    Nat → List CTransaction → MerkleMatches × CBloomFilter →
      FilterCall (MerkleMatches × CBloomFilter)
  | _, [], state => .ok state
  | i, tx :: vtx, (found, filter) => do
    let hash := env.getHash tx
    let (relevant, filter) ← isRelevantAndUpdate dataSize filter tx hash
    matchTransactions env dataSize (i + 1) vtx
      (⟨found.vMatchedTxn ++ (if relevant then [(i, hash)] else []),
        found.vMatch ++ [relevant], found.vHashes ++ [hash]⟩, filter)

def merkleBlock (env : NodeEnv) (dataSize : Nat) (vtx : List CTransaction)
    (filter : CBloomFilter) : FilterCall (MerkleMatches × CBloomFilter) :=
  matchTransactions env dataSize 0 vtx (⟨[], [], []⟩, filter)

/-- The part of a peer that the filter messages change. -/
structure CNode where
  pfilter : Option CBloomFilter
  fRelayTxes : Bool
  isLocal : Bool
  nMisbehavior : Int
  vInventoryToSend : List UInt256
  deriving DecidableEq, Repr

def misbehaving (howmuch : Int) (node : CNode) : CNode :=
  if node.isLocal then node else { node with nMisbehavior := node.nMisbehavior + howmuch }

def filterload (filter : CBloomFilter) (node : CNode) : CNode :=
  let node := if isWithinSizeConstraints filter then { node with pfilter := some filter }
    else misbehaving 100 node
  { node with fRelayTxes := true }

def filteradd (vData : Bytes) (node : CNode) : FilterCall CNode :=
  if vData.length > 520 then .ok (misbehaving 100 node)
  else
    match node.pfilter with
    | some filter => do
      let filter ← filter.insert vData
      .ok { node with pfilter := some filter }
    | none => .ok (misbehaving 100 node)

def filterclear (node : CNode) : CNode := { node with pfilter := none, fRelayTxes := true }

def MAX_INV_SZ : Nat := 50000

/-- The loop over the pool; it ends when the message is full. -/
def mempoolInventory (dataSize : Nat) : List (CTransaction × UInt256) →
    List UInt256 × CBloomFilter → FilterCall (List UInt256 × CBloomFilter)
  | [], state => .ok state
  | (tx, hash) :: pool, (vInv, filter) => do
    let (relevant, filter) ← isRelevantAndUpdate dataSize filter tx hash
    let vInv := if relevant then vInv ++ [hash] else vInv
    if vInv.length = MAX_INV_SZ then .ok (vInv, filter)
    else mempoolInventory dataSize pool (vInv, filter)

/-- A message of the peer, or a transaction that is relayed to it. The size of
data in a script depends on the height at that time. -/
inductive PeerEvent where
  | filterload (filter : CBloomFilter)
  | filteradd (vData : Bytes)
  | filterclear
  | mempool (dataSize : Nat) (pool : List (CTransaction × UInt256))
  | getFilteredBlock (dataSize : Nat) (vtx : List CTransaction)
  | relayTransaction (dataSize : Nat) (tx : CTransaction) (hash : UInt256)

/-- A peer without a filter gets everything; what it is sent at once is not part
of its state. -/
def processEvent (env : NodeEnv) (node : CNode) : PeerEvent → FilterCall CNode
  | .filterload filter => .ok (filterload filter node)
  | .filteradd vData => filteradd vData node
  | .filterclear => .ok (filterclear node)
  | .mempool dataSize pool =>
    match node.pfilter with
    | none => .ok node
    | some filter => do
      let (_, filter) ← mempoolInventory dataSize pool ([], filter)
      .ok { node with pfilter := some filter }
  | .getFilteredBlock dataSize vtx =>
    match node.pfilter with
    | none => .ok node
    | some filter => do
      let (_, filter) ← merkleBlock env dataSize vtx filter
      .ok { node with pfilter := some filter }
  | .relayTransaction dataSize tx hash =>
    if !node.fRelayTxes then .ok node
    else
      match node.pfilter with
      | none => .ok { node with vInventoryToSend := node.vInventoryToSend ++ [hash] }
      | some filter => do
        let (relevant, filter) ← isRelevantAndUpdate dataSize filter tx hash
        let vInv := if relevant then [hash] else []
        .ok { node with
          pfilter := some filter, vInventoryToSend := node.vInventoryToSend ++ vInv }

def processEvents (env : NodeEnv) : List PeerEvent → CNode → FilterCall CNode
  | [], node => .ok node
  | event :: events, node => do
    let node ← processEvent env node event
    processEvents env events node

section Safety

/-- There is a bit for each hash function to point to. -/
def Usable (filter : CBloomFilter) : Prop := filter.vData ≠ [] ∨ filter.nHashFuncs = 0

/-- Filters that differ in their bits only. -/
structure SameShape (filter filter' : CBloomFilter) : Prop where
  length_eq : filter'.vData.length = filter.vData.length
  nHashFuncs_eq : filter'.nHashFuncs = filter.nHashFuncs
  nTweak_eq : filter'.nTweak = filter.nTweak
  nFlags_eq : filter'.nFlags = filter.nFlags

def HasBit (vData : Bytes) (nIndex : Nat) : Prop :=
  ∃ byte, byteAt vData (nIndex >>> 3) = .ok byte ∧ byte &&& bitMask nIndex ≠ 0

/-- What operations do to a filter: no bit is lost. -/
structure Grows (filter filter' : CBloomFilter) : Prop extends SameShape filter filter' where
  bits : ∀ nIndex, HasBit filter.vData nIndex → HasBit filter'.vData nIndex

theorem Grows.refl (filter : CBloomFilter) : Grows filter filter :=
  ⟨⟨rfl, rfl, rfl, rfl⟩, fun _ h => h⟩

variable {filter filter' : CBloomFilter}

theorem Grows.trans (h : Grows filter filter') (h' : Grows filter' filter'') :
    Grows filter filter'' :=
  ⟨⟨h'.length_eq.trans h.length_eq, h'.nHashFuncs_eq.trans h.nHashFuncs_eq,
    h'.nTweak_eq.trans h.nTweak_eq, h'.nFlags_eq.trans h.nFlags_eq⟩,
    fun nIndex hbit => h'.bits nIndex (h.bits nIndex hbit)⟩

variable (h : SameShape filter filter')
include h

theorem SameShape.ne_nil (hdata : filter.vData ≠ []) :
    filter'.vData ≠ [] := by
  rw [← length_pos_iff, h.length_eq]
  exact length_pos_iff.mpr hdata

theorem SameShape.usable (husable : Usable filter) :
    Usable filter' :=
  husable.imp h.ne_nil h.nHashFuncs_eq.trans

omit h

/-- The numbers of the hash functions, of which there are none if there is no
bit. -/
theorem Usable.range (husable : Usable filter) :
    filter.vData ≠ [] ∨ List.range filter.nHashFuncs.toNat = [] := by
  rcases husable with hdata | hfuncs
  · exact Or.inl hdata
  · rw [hfuncs]
    exact Or.inr rfl

theorem hash_returns (hdata : filter.vData ≠ []) (nHashNum : UInt32) (vKey : Bytes) :
    Returns (filter.hash nHashNum vKey) fun nIndex => nIndex >>> 3 < filter.vData.length := by
  have hpos := length_pos_iff.mpr hdata
  have hlt : (murmurHash3 (nHashNum * 0xFBA4C795 + filter.nTweak) vKey).toNat %
      (filter.vData.length * 8) < filter.vData.length * 8 := Nat.mod_lt _ (by omega)
  refine ⟨_, if_neg (by omega), ?_⟩
  dsimp only
  rw [Nat.shiftRight_eq_div_pow]
  omega

theorem byteAt_of_lt (hi : i < vData.length) : byteAt vData i = .ok vData[i] := by
  rw [byteAt, List.getElem?_eq_getElem hi]

theorem or_and_ne_zero (hset : byte &&& mask ≠ 0) (other : UInt8) :
    (byte ||| other) &&& mask ≠ 0 := by
  intro hzero
  have hbits : (byte.toBitVec ||| other.toBitVec) &&& mask.toBitVec = 0#8 :=
    congrArg UInt8.toBitVec hzero
  rw [BitVec.and_or_distrib_right, BitVec.or_eq_zero_iff] at hbits
  exact hset (UInt8.toBitVec_inj.mp hbits.1)

theorem bitMask_ne_zero (nIndex : Nat) : bitMask nIndex ≠ 0 := by
  have htable : ∀ i : Fin 8, bitMask i ≠ 0 := by decide
  have hmask := htable ⟨7 &&& nIndex, Nat.lt_succ_of_le Nat.and_le_left⟩
  rwa [bitMask, ← Nat.and_assoc, Nat.and_self] at hmask

/-- A hash function of the filter points to a bit that is set. -/
def Points (filter : CBloomFilter) (vKey : Bytes) (i : Nat) : Prop :=
  ∃ nIndex, filter.hash (UInt32.ofNat i) vKey = .ok nIndex ∧ HasBit filter.vData nIndex

theorem Grows.points (h : Grows filter filter') (hpoints : Points filter vKey i) :
    Points filter' vKey i := by
  obtain ⟨nIndex, hhash, hbit⟩ := hpoints
  refine ⟨nIndex, ?_, h.bits nIndex hbit⟩
  rw [← hhash, CBloomFilter.hash, CBloomFilter.hash, h.length_eq, h.nTweak_eq]

theorem hasBit_set (hlt : nIndex >>> 3 < filter.vData.length) :
    Grows filter { filter with
        vData := filter.vData.set (nIndex >>> 3)
          (filter.vData[nIndex >>> 3] ||| bitMask nIndex) } ∧
      HasBit (filter.vData.set (nIndex >>> 3) (filter.vData[nIndex >>> 3] ||| bitMask nIndex))
        nIndex := by
  have hself : byteAt (filter.vData.set (nIndex >>> 3)
      (filter.vData[nIndex >>> 3] ||| bitMask nIndex)) (nIndex >>> 3) =
        .ok (filter.vData[nIndex >>> 3] ||| bitMask nIndex) := by
    rw [byteAt, List.getElem?_set_self hlt]
  refine ⟨⟨⟨length_set, rfl, rfl, rfl⟩, ?_⟩, _, hself, ?_⟩
  · rintro other ⟨byte, hbyte, hset⟩
    rcases eq_or_ne (nIndex >>> 3) (other >>> 3) with heq | hne
    · rw [← heq, byteAt_of_lt hlt] at hbyte
      cases hbyte
      rw [HasBit, ← heq]
      exact ⟨_, hself, or_and_ne_zero hset _⟩
    · refine ⟨byte, ?_, hset⟩
      rw [byteAt, List.getElem?_set_ne hne]
      exact hbyte
  · rw [UInt8.or_comm]
    exact or_and_ne_zero (by rw [UInt8.and_self]; exact bitMask_ne_zero nIndex) _

theorem insertFrom_returns (hsafe : filter.vData ≠ [] ∨ numbers = []) :
    Returns (CBloomFilter.insertFrom vKey numbers filter) fun filter' =>
      Grows filter filter' ∧ ∀ i ∈ numbers, Points filter' vKey i := by
  induction numbers generalizing filter with
  | nil => exact returns_ok ⟨.refl filter, nofun⟩
  | cons i numbers ih =>
    have hdata : filter.vData ≠ [] := hsafe.resolve_right (cons_ne_nil _ _)
    obtain ⟨nIndex, hhash, hlt⟩ := hash_returns hdata (UInt32.ofNat i) vKey
    rw [CBloomFilter.insertFrom, hhash, ok_bind, byteAt_of_lt hlt, ok_bind]
    obtain ⟨hset, hbit⟩ := hasBit_set hlt
    refine (ih (Or.inl (hset.ne_nil hdata))).mono fun filter' ⟨hgrows, hpoints⟩ => ?_
    refine ⟨hset.trans hgrows, forall_mem_cons.mpr ⟨hgrows.points ⟨nIndex, ?_, hbit⟩, hpoints⟩⟩
    rw [← hhash, CBloomFilter.hash, CBloomFilter.hash, length_set]

theorem containsFrom_returns (hsafe : filter.vData ≠ [] ∨ numbers = []) :
    Returns (filter.containsFrom vKey numbers) fun _ => True := by
  induction numbers with
  | nil => exact returns_ok trivial
  | cons i numbers ih =>
    have hdata : filter.vData ≠ [] := hsafe.resolve_right (cons_ne_nil _ _)
    refine (hash_returns hdata (UInt32.ofNat i) vKey).bind fun nIndex hlt => ?_
    rw [byteAt_of_lt hlt, ok_bind]
    split
    · exact returns_ok trivial
    · exact ih (Or.inl hdata)

theorem containsFrom_eq_true :
    filter.containsFrom vKey numbers = .ok true ↔ ∀ i ∈ numbers, Points filter vKey i := by
  induction numbers with
  | nil => exact iff_of_true rfl nofun
  | cons i numbers ih =>
    rw [forall_mem_cons, ← ih, CBloomFilter.containsFrom, bind_eq_ok]
    constructor
    · rintro ⟨nIndex, hhash, h⟩
      obtain ⟨byte, hbyte, h⟩ := bind_eq_ok.mp h
      split at h
      · cases h
      rename_i hset
      exact ⟨⟨nIndex, hhash, byte, hbyte, hset⟩, h⟩
    · rintro ⟨⟨nIndex, hhash, byte, hbyte, hset⟩, h⟩
      exact ⟨nIndex, hhash, bind_eq_ok.mpr ⟨byte, hbyte, (if_neg hset).trans h⟩⟩

theorem Grows.contains (h : Grows filter filter') (hcontains : filter.contains vKey = .ok true) :
    filter'.contains vKey = .ok true := by
  rw [CBloomFilter.contains, containsFrom_eq_true] at hcontains ⊢
  rw [h.nHashFuncs_eq]
  exact fun i hi => h.points (hcontains i hi)

/-- Data that a script pushes, up to where `GetOp` fails. -/
inductive Pushes : Bytes → Bytes → Prop
  | here (hop : getOp script = some (opcode, data, rest)) : Pushes script data
  | later (hop : getOp script = some (opcode, other, rest)) (h : Pushes rest data) :
    Pushes script data

def Matches (filter : CBloomFilter) (script : Bytes) : Prop :=
  ∃ data, data ≠ [] ∧ Pushes script data ∧ filter.contains data = .ok true

theorem Grows.matches (h : Grows filter filter') (hmatches : Matches filter script) :
    Matches filter' script := by
  obtain ⟨data, hne, hpushes, hcontains⟩ := hmatches
  exact ⟨data, hne, hpushes, h.contains hcontains⟩

theorem matches_iff (hop : getOp script = some (opcode, data, rest)) :
    Matches filter script ↔
      (data ≠ [] ∧ filter.contains data = .ok true) ∨ Matches filter rest := by
  constructor
  · rintro ⟨pushed, hne, hpushes, hcontains⟩
    cases hpushes with
    | here hop' =>
      cases hop.symm.trans hop'
      exact .inl ⟨hne, hcontains⟩
    | later hop' hpushes =>
      cases hop.symm.trans hop'
      exact .inr ⟨pushed, hne, hpushes, hcontains⟩
  · rintro (⟨hne, hcontains⟩ | ⟨pushed, hne, hpushes, hcontains⟩)
    · exact ⟨data, hne, .here hop, hcontains⟩
    · exact ⟨pushed, hne, .later hop hpushes, hcontains⟩

/-- The output is tested when its script matches. -/
def MatchedAt (dataSize : Nat) (hash : UInt256) (i : Nat) (vout : List CTxOut)
    (filter : CBloomFilter) (n : Nat) : Prop :=
  ∃ txout before fFound tested, vout[n]? = some txout ∧
    matchOutputs dataSize hash i (vout.take n) (before, filter) = .ok (fFound, tested) ∧
    Matches tested txout.scriptPubKey

/-- What makes a transaction relevant when it is looked at. -/
def Relevant (filter : CBloomFilter) (tx : CTransaction) (hash : UInt256) : Prop :=
  filter.contains (hashBytes hash) = .ok true ∨
    (∃ txout ∈ tx.vout, Matches filter txout.scriptPubKey) ∨
    ∃ txin ∈ tx.vin,
      filter.contains (outPointBytes txin.prevout) = .ok true ∨ Matches filter txin.scriptSig

theorem Grows.relevant {hash : UInt256} (h : Grows filter filter') (hrelevant : Relevant filter
      tx hash) : Relevant filter' tx hash :=
  hrelevant.imp h.contains <| Or.imp
    (Exists.imp fun _ hout => ⟨hout.1, h.matches hout.2⟩)
    (Exists.imp fun _ hin => ⟨hin.1, hin.2.imp h.contains h.matches⟩)

def UpdatesAll (filter : CBloomFilter) : Prop :=
  filter.nFlags &&& BLOOM_UPDATE_MASK = BLOOM_UPDATE_ALL

theorem Grows.updatesAll (h : Grows filter filter') (hall : UpdatesAll filter) :
    UpdatesAll filter' := by
  rw [UpdatesAll, h.nFlags_eq]
  exact hall

variable {filter : CBloomFilter}

variable (husable : Usable filter)
include husable

theorem Usable.insert_returns (vKey : Bytes) :
    Returns (filter.insert vKey) fun filter' =>
      Grows filter filter' ∧ filter'.contains vKey = .ok true := by
  refine (insertFrom_returns husable.range).mono fun filter' ⟨hgrows, hpoints⟩ => ⟨hgrows, ?_⟩
  rw [CBloomFilter.contains, containsFrom_eq_true, hgrows.nHashFuncs_eq]
  exact hpoints

theorem Usable.contains_returns (vKey : Bytes) :
    Returns (filter.contains vKey) fun _ => True := containsFrom_returns husable.range

theorem Usable.containsData_returns (data : Bytes) :
    Returns (containsData filter data) fun found =>
      found = true ↔ data ≠ [] ∧ filter.contains data = .ok true := by
  simp only [containsData, ne_eq, length_eq_zero_iff]
  split
  · rename_i hne
    obtain ⟨found, hfound, -⟩ := husable.contains_returns data
    refine ⟨found, hfound, ?_⟩
    rw [hfound, Except.ok.injEq, and_iff_right hne]
  · rename_i hempty
    exact returns_ok (iff_of_false Bool.false_ne_true fun h => hempty h.1)

theorem Usable.addMatched_returns (dataSize : Nat) (outpoint : COutPoint)
    (scriptPubKey : Bytes) :
    Returns (addMatched dataSize filter outpoint scriptPubKey) fun filter' =>
      Grows filter filter' ∧
        (UpdatesAll filter → filter'.contains (outPointBytes outpoint) = .ok true) := by
  rw [addMatched]
  split
  · exact (husable.insert_returns _).mono fun filter' h => ⟨h.1, fun _ => h.2⟩
  · rename_i hupdates
    exact returns_ok ⟨.refl filter, fun hall => absurd (if_pos hall) hupdates⟩

theorem Usable.containsPush_returns (hfuel : script.length ≤ fuel) :
    Returns (containsPush filter fuel script) fun found =>
      found = true ↔ Matches filter script := by
  have hnone : ∀ {script}, getOp script = none → ¬ Matches filter script := by
    rintro script hop ⟨data, -, hpushes, -⟩
    cases hpushes with
    | here hop' => cases hop.symm.trans hop'
    | later hop' => cases hop.symm.trans hop'
  induction fuel generalizing script with
  | zero =>
    obtain rfl := eq_nil_of_length_eq_zero (Nat.le_zero.mp hfuel)
    exact returns_ok (iff_of_false Bool.false_ne_true (hnone rfl))
  | succ fuel ih =>
    rw [containsPush]
    split
    · rename_i hop
      exact returns_ok (iff_of_false Bool.false_ne_true (hnone hop))
    rename_i opcode data rest hop
    have hrest := length_rest_of_getOp hop
    rw [matches_iff hop]
    refine (husable.containsData_returns data).bind fun found hfound => ?_
    rw [← hfound]
    split
    · rename_i htrue
      exact returns_ok (iff_of_true rfl (.inl htrue))
    · rename_i hfalse
      rw [or_iff_right hfalse]
      exact ih (by omega)

theorem Usable.matchOutputs_returns (dataSize : Nat) (hash : UInt256)
    (i : Nat) (vout : List CTxOut) (fFound : Bool) :
    Returns (matchOutputs dataSize hash i vout (fFound, filter)) fun result =>
      Grows filter result.2 ∧ (fFound = true → result.1 = true) ∧
        ∀ n, MatchedAt dataSize hash i vout filter n → result.1 = true ∧
          (UpdatesAll filter → result.2.contains (outPointBytes ⟨hash, i + n⟩) = .ok true) := by
  induction vout generalizing i filter fFound with
  | nil => exact returns_ok ⟨.refl filter, id, fun _ ⟨_, _, _, _, hnone, _⟩ => nomatch hnone⟩
  | cons txout vout ih =>
    obtain ⟨found, hfound, hmatches⟩ :=
      husable.containsPush_returns (Nat.le_refl txout.scriptPubKey.length)
    rw [matchOutputs, hfound, ok_bind]
    cases found with
    | true =>
      obtain ⟨updated, hupdated, hgrows, hinserted⟩ :=
        husable.addMatched_returns dataSize ⟨hash, i⟩ txout.scriptPubKey
      rw [if_pos rfl, hupdated, ok_bind]
      refine (ih (hgrows.usable husable) (i + 1) true).mono ?_
      rintro ⟨last, final⟩ ⟨hlater, hkept, hrest⟩
      refine ⟨hgrows.trans hlater, fun _ => hkept rfl, ?_⟩
      rintro (_ | n) ⟨out, before, _, tested, hout, htested, hout'⟩
      · exact ⟨hkept rfl, fun hall => hlater.contains (hinserted hall)⟩
      · rw [take_succ_cons, matchOutputs, hfound, ok_bind, if_pos rfl, hupdated, ok_bind]
          at htested
        rw [UpdatesAll, ← hgrows.nFlags_eq, Nat.add_comm n, ← Nat.add_assoc]
        exact hrest n ⟨out, true, _, tested, hout, htested, hout'⟩
    | false =>
      refine (ih husable (i + 1) fFound).mono ?_
      rintro ⟨last, final⟩ ⟨hlater, hkept, hrest⟩
      refine ⟨hlater, hkept, ?_⟩
      rintro (_ | n) ⟨out, before, _, tested, hout, htested, hout'⟩
      · cases hout
        cases htested
        exact absurd (hmatches.mpr hout') Bool.false_ne_true
      · rw [take_succ_cons, matchOutputs, hfound, ok_bind] at htested
        rw [Nat.add_comm n, ← Nat.add_assoc]
        exact hrest n ⟨out, before, _, tested, hout, htested, hout'⟩

theorem Usable.matchInputs_returns (vin : List CTxIn) :
    Returns (matchInputs filter vin) fun found => (∃ txin ∈ vin,
      filter.contains (outPointBytes txin.prevout) = .ok true ∨ Matches filter txin.scriptSig) →
        found = true := by
  induction vin with
  | nil => exact returns_ok fun ⟨_, hmem, _⟩ => nomatch hmem
  | cons txin vin ih =>
    obtain ⟨spent, hspent, -⟩ := husable.contains_returns (outPointBytes txin.prevout)
    rw [matchInputs, hspent, ok_bind]
    split
    · exact returns_ok fun _ => rfl
    rename_i hnot
    refine (husable.containsPush_returns (Nat.le_refl _)).bind fun pushed hpushed => ?_
    split
    · exact returns_ok fun _ => rfl
    rename_i hfalse
    refine ih.mono fun found hfound => ?_
    rintro ⟨other, hother, hrelevant⟩
    rcases mem_cons.mp hother with rfl | hmem
    · rw [hspent, Except.ok.injEq, ← hpushed] at hrelevant
      exact absurd hrelevant (not_or.mpr ⟨hnot, hfalse⟩)
    · exact hfound ⟨other, hmem, hrelevant⟩

theorem Usable.isRelevantAndUpdate_returns (dataSize : Nat)
    (tx : CTransaction) (hash : UInt256) :
    Returns (isRelevantAndUpdate dataSize filter tx hash) fun result =>
      Grows filter result.2 ∧ (Relevant filter tx hash → result.1 = true) ∧
        ∀ n, MatchedAt dataSize hash 0 tx.vout filter n → result.1 = true ∧
          (UpdatesAll filter → result.2.contains (outPointBytes ⟨hash, n⟩) = .ok true) := by
  obtain ⟨first, hfirst, -⟩ := husable.contains_returns (hashBytes hash)
  obtain ⟨⟨fFound, updated⟩, hupdated, hgrows, hkept, hmatched⟩ :=
    husable.matchOutputs_returns dataSize hash 0 tx.vout first
  rw [isRelevantAndUpdate, hfirst, ok_bind, hupdated, ok_bind]
  simp only [Nat.zero_add] at hmatched
  dsimp only
  split
  · exact returns_ok ⟨hgrows, fun _ => rfl, fun n h => ⟨rfl, (hmatched n h).2⟩⟩
  rename_i hnot
  refine ((hgrows.usable husable).matchInputs_returns tx.vin).bind fun found hfound => ?_
  refine returns_ok ⟨hgrows, ?_, fun n h => absurd (hmatched n h).1 hnot⟩
  rintro (hid | ⟨txout, htxout, hmatches⟩ | ⟨txin, htxin, hinput⟩)
  · rw [hfirst] at hid
    exact absurd (hkept (Except.ok.inj hid)) hnot
  · obtain ⟨n, hn, rfl⟩ := List.getElem_of_mem htxout
    obtain ⟨⟨_, tested⟩, htested, htests, -⟩ :=
      husable.matchOutputs_returns dataSize hash 0 (tx.vout.take n) first
    exact absurd (hmatched n ⟨_, first, _, tested, List.getElem?_eq_getElem hn, htested,
      htests.matches hmatches⟩).1 hnot
  · exact hfound ⟨txin, htxin, hinput.imp hgrows.contains hgrows.matches⟩

theorem Usable.matchTransactions_returns (env : NodeEnv) (dataSize : Nat)
    (i : Nat) (vtx : List CTransaction) (found : MerkleMatches) :
    Returns (matchTransactions env dataSize i vtx (found, filter)) fun result =>
      Grows filter result.2 ∧ found.vMatchedTxn ⊆ result.1.vMatchedTxn ∧
        ∀ j tx, vtx[j]? = some tx → Relevant filter tx (env.getHash tx) →
          (i + j, env.getHash tx) ∈ result.1.vMatchedTxn := by
  induction vtx generalizing i filter found with
  | nil => exact returns_ok ⟨.refl filter, Subset.refl _, nofun⟩
  | cons tx vtx ih =>
    refine (husable.isRelevantAndUpdate_returns dataSize tx (env.getHash tx)).bind ?_
    rintro ⟨relevant, updated⟩ ⟨hgrows, hrelevant, -⟩
    refine (ih (hgrows.usable husable) (i + 1) _).mono ?_
    rintro ⟨last, final⟩ ⟨hlater, hkept, hrest⟩
    refine ⟨hgrows.trans hlater, fun entry hentry => hkept (mem_append_left _ hentry), ?_⟩
    rintro (_ | j) other hother hothers
    · cases hother
      refine hkept (mem_append_right _ ?_)
      rw [if_pos (hrelevant hothers)]
      exact mem_singleton_self _
    · rw [Nat.add_comm j, ← Nat.add_assoc]
      exact hrest j other hother (hgrows.relevant hothers)

theorem Usable.mempoolInventory_returns (dataSize : Nat)
    (pool : List (CTransaction × UInt256)) (vInv : List UInt256) :
    Returns (mempoolInventory dataSize pool (vInv, filter)) fun result =>
      Grows filter result.2 := by
  induction pool generalizing filter vInv with
  | nil => exact returns_ok (.refl filter)
  | cons entry pool ih =>
    obtain ⟨tx, hash⟩ := entry
    refine (husable.isRelevantAndUpdate_returns dataSize tx hash).bind ?_
    rintro ⟨relevant, updated⟩ ⟨hshape, -⟩
    dsimp only
    generalize (if relevant = true then vInv ++ [hash] else vInv) = vInv'
    split
    · exact returns_ok hshape
    · exact (ih (hshape.usable husable) _).mono fun result hresult => hshape.trans hresult

omit husable

end Safety

section Runs

def NodeUsable (node : CNode) : Prop := ∀ filter ∈ node.pfilter, Usable filter

/-- A filter that is loaded can be used, unless it is refused. -/
def LoadsUsable (event : PeerEvent) : Prop :=
  ∀ filter, event = .filterload filter → isWithinSizeConstraints filter = true → Usable filter

variable {node : CNode}

theorem nodeUsable_misbehaving (husable : NodeUsable node) (howmuch : Int) :
    NodeUsable (misbehaving howmuch node) := by
  rw [misbehaving]
  split
  · exact husable
  · exact husable

theorem nodeUsable_some {filter : CBloomFilter} (hfilter : node.pfilter = some filter)
    (husable : Usable filter) : NodeUsable node := by
  intro loaded hloaded
  obtain rfl := Option.mem_unique hfilter hloaded
  exact husable

theorem processEvent_returns (env : NodeEnv) (husable : NodeUsable node)
    (hloads : LoadsUsable event) : Returns (processEvent env node event) NodeUsable := by
  cases event with
  | filterload filter =>
    refine returns_ok ?_
    rw [filterload]
    split
    · rename_i hwithin
      exact nodeUsable_some rfl (hloads filter rfl hwithin)
    · exact nodeUsable_misbehaving husable 100
  | filteradd vData =>
    rw [processEvent, filteradd]
    split
    · exact returns_ok (nodeUsable_misbehaving husable 100)
    split
    · rename_i filter hfilter
      refine ((husable filter hfilter).insert_returns vData).bind fun updated hshape => ?_
      exact returns_ok (nodeUsable_some rfl (hshape.1.usable (husable filter hfilter)))
    · exact returns_ok (nodeUsable_misbehaving husable 100)
  | filterclear => exact returns_ok fun filter hfilter => by cases hfilter
  | mempool dataSize pool =>
    rw [processEvent]
    split
    · exact returns_ok husable
    rename_i filter hfilter
    have hfilter := husable filter hfilter
    refine (hfilter.mempoolInventory_returns dataSize pool []).bind fun result hshape => ?_
    exact returns_ok (nodeUsable_some rfl (hshape.usable hfilter))
  | getFilteredBlock dataSize vtx =>
    rw [processEvent]
    split
    · exact returns_ok husable
    rename_i filter hfilter
    have hfilter := husable filter hfilter
    refine (hfilter.matchTransactions_returns env dataSize 0 vtx _).bind
      fun result hshape => ?_
    exact returns_ok (nodeUsable_some rfl (hshape.1.usable hfilter))
  | relayTransaction dataSize tx hash =>
    rw [processEvent]
    split
    · exact returns_ok husable
    split
    · exact returns_ok husable
    rename_i filter hfilter
    have hfilter := husable filter hfilter
    refine (hfilter.isRelevantAndUpdate_returns dataSize tx hash).bind fun result hshape => ?_
    exact returns_ok (nodeUsable_some rfl (hshape.1.usable hfilter))

theorem processEvents_returns (env : NodeEnv) (husable : NodeUsable node)
    (hloads : ∀ event ∈ events, LoadsUsable event) :
    Returns (processEvents env events node) NodeUsable := by
  induction events generalizing node with
  | nil => exact returns_ok husable
  | cons event events ih =>
    rw [forall_mem_cons] at hloads
    refine (processEvent_returns env husable hloads.1).bind fun next hnext => ?_
    exact ih hnext hloads.2

theorem insert_of_not_usable {filter : CBloomFilter} (hunusable : ¬Usable filter) (vKey : Bytes) :
    filter.insert vKey = .error .divisionByZero := by
  rw [Usable, not_or, Classical.not_not] at hunusable
  obtain ⟨hdata, hfuncs⟩ := hunusable
  obtain ⟨n, hn⟩ : ∃ n, filter.nHashFuncs.toNat = n + 1 := by
    refine Nat.exists_eq_succ_of_ne_zero fun hzero => hfuncs ?_
    exact UInt32.toNat_inj.mp hzero
  rw [CBloomFilter.insert, hn, range_succ_eq_map, CBloomFilter.insertFrom, CBloomFilter.hash, hdata]
  rfl

/-- A filter that is accepted never makes the node divide by zero or leave the
bytes of the filter, whatever follows, exactly if it has a bit or no hash
function. -/
theorem accepted_filter_safe_iff (env : NodeEnv) (node : CNode) (filter : CBloomFilter)
    (haccepted : isWithinSizeConstraints filter = true) :
    (∀ later : List PeerEvent, (∀ event ∈ later, LoadsUsable event) →
      ∃ final, processEvents env (.filterload filter :: later) node = .ok final) ↔
      Usable filter := by
  have hload : filterload filter node = { node with pfilter := some filter, fRelayTxes := true } := by
    rw [filterload, if_pos haccepted]
  constructor
  · intro hsafe
    refine Classical.by_contradiction fun hunusable => ?_
    have hadd : ∀ event ∈ [PeerEvent.filteradd []], LoadsUsable event := by
      refine forall_mem_singleton.mpr fun loaded heq => ?_
      cases heq
    obtain ⟨final, hfinal⟩ := hsafe [.filteradd []] hadd
    rw [processEvents, processEvent, ok_bind, hload, processEvents, processEvent, filteradd,
      if_neg (by decide)] at hfinal
    dsimp only at hfinal
    rw [insert_of_not_usable hunusable] at hfinal
    cases hfinal
  intro husable later hloads
  have hnode : NodeUsable (filterload filter node) := by
    rw [hload]
    exact nodeUsable_some rfl husable
  obtain ⟨final, hfinal, -⟩ := processEvents_returns env hnode hloads
  exact ⟨final, hfinal⟩

def newNode : CNode := ⟨none, true, false, 0, []⟩

theorem accepted_filter_safe_iff_one_byte :
    isWithinSizeConstraints ⟨[0], 1, 0, 1⟩ = true ∧
      ∀ later : List PeerEvent, (∀ event ∈ later, LoadsUsable event) →
        ∃ final, processEvents timeEnv (.filterload ⟨[0], 1, 0, 1⟩ :: later) newNode = .ok final :=
  ⟨by decide, (accepted_filter_safe_iff timeEnv newNode ⟨[0], 1, 0, 1⟩ (by decide)).mpr
    (Or.inl (by decide))⟩

/-- A filter without bytes and with a hash function is accepted; any data that is
added, and any transaction that is relayed, then divides by zero. -/
theorem empty_filter_divides_by_zero :
    isWithinSizeConstraints ⟨[], 1, 0, 0⟩ = true ∧
      processEvents timeEnv [.filterload ⟨[], 1, 0, 0⟩, .filteradd [1]] newNode =
        .error .divisionByZero ∧
      processEvents timeEnv [.filterload ⟨[], 1, 0, 0⟩, .relayTransaction 80 ⟨1, [], [], 0⟩ 1]
        newNode = .error .divisionByZero := by
  decide +kernel

end Runs

end Bfx.BloomFilter
