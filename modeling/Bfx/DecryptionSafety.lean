import Bfx.MessageDecryption
import Bfx.ParserSafety

/-!
When decrypting a message that anybody may have written stays inside the vectors it reads. The
header's lengths have to cover exactly the bytes behind it, the tag has to be whole, and every
chunk has to leave room for the size of the next one; nothing in the code asks for any of the
three.
-/

namespace Bfx.DecryptionSafety

open CallOutcome HexText ScriptText MessageDecryption ParserSafety TokenScript Base64Text List

section Defined

variable {α : Type}

/-- The call returns or throws. -/
def Defined (x : Decryption α) : Prop :=
  ∀ fault, x = .error fault → ∃ what, fault = .thrown what

@[simp] theorem defined_ok (a : α) : Defined (.ok a : Decryption α) := by
  simp [Defined]

@[simp] theorem defined_refuse (what : String) : Defined (refuse what : Decryption α) := by
  rintro fault h
  exact ⟨what, (Except.error.inj h).symm⟩

theorem defined_error_iff :
    Defined (.error fault : Decryption α) ↔ ∃ what, fault = .thrown what := by
  simp [Defined]

@[simp] theorem not_defined_outOfBounds : ¬ Defined (.error .outOfBounds : Decryption α) := by
  simp [Defined]

@[simp] theorem not_defined_intOverflow : ¬ Defined (.error .intOverflow : Decryption α) := by
  simp [Defined]

@[simp] theorem not_defined_stillRunning : ¬ Defined (.error .stillRunning : Decryption α) := by
  simp [Defined]

@[simp] theorem refuse_bind (what : String) (f : α → Decryption β) :
    ((refuse what : Decryption α) >>= f) = refuse what := rfl

theorem defined_bind : Defined (x >>= f) ↔ Defined x ∧ ∀ a, x = .ok a → Defined (f a) := by
  cases x with
  | error fault => simp [Defined]
  | ok a => simp

theorem Defined.bind (hx : Defined x) (hf : ∀ a, Defined (f a)) : Defined (x >>= f) :=
  defined_bind.mpr ⟨hx, fun a _ => hf a⟩

section Checks

variable {p : Prop} [Decidable p]

@[simp] theorem defined_refuseIf (what : String) : Defined (refuseIf p what) := by
  unfold refuseIf
  split
  · simp
  · simp

theorem refuseIf_eq_ok : refuseIf p what = .ok u ↔ ¬ p := by
  unfold refuseIf
  split <;> simp_all [refuse]

theorem refuseIf_pos (hp : p) (what : String) : refuseIf p what = refuse what := if_pos hp

theorem refuseIf_neg (hp : ¬ p) (what : String) : refuseIf p what = .ok () := if_neg hp

end Checks

theorem defined_fromOutcome (hx : InBounds x) : Defined (fromOutcome x) := by
  match x, hx with
  | .ok a, _ => exact defined_ok a
  | .error (.thrown what), _ => exact defined_refuse what
  | .error (.outOfBounds storage), hx => exact absurd rfl (hx storage)

@[simp] theorem defined_fromLibrary (x : Except String α) : Defined (fromLibrary x) := by
  cases x with
  | error what => exact defined_refuse what
  | ok a => exact defined_ok a

theorem readRange_of_le (h : last ≤ data.length) :
    readRange data first last = .ok ((data.drop first).take (last - first)) := by
  rw [readRange, if_pos h, drop_take]

theorem readRange_of_lt (h : data.length < last) :
    readRange data first last = .error .outOfBounds := if_neg (by omega)

end Defined

@[simp] theorem defined_getIntValue (object : JsonObject) (name : String) :
    Defined (getIntValue object name) := by
  unfold getIntValue
  split
  all_goals simp

@[simp] theorem defined_getStrValue (object : JsonObject) (name : String) :
    Defined (getStrValue object name) := by
  unfold getStrValue
  split
  all_goals simp

@[simp] theorem defined_readObject (readOrThrow : JsonReader) (text known unknown other : String) :
    Defined (readObject readOrThrow text known unknown other) := by
  unfold readObject
  split
  all_goals simp

theorem defined_pushData (data : Bytes) (charCount : Nat) (bracketLevel : Int) (rest : Bytes) :
    Defined (pushData data charCount bracketLevel rest) := by
  induction rest generalizing charCount bracketLevel with
  | nil => simp [pushData]
  | cons c rest ih =>
    unfold pushData
    repeat' split
    all_goals first | apply ih | simp

theorem defined_headerSize (data : Bytes) : Defined (headerSize data) := by
  refine (defined_pushData data 0 0 data).bind fun size => ?_
  cases size with
  | none => exact defined_refuse _
  | some size => exact defined_ok size

theorem defined_parseHeader (size : Nat) (root : JsonObject) : Defined (parseHeader size root) := by
  unfold parseHeader
  refine (defined_getIntValue root _).bind fun version => ?_
  refine (defined_refuseIf _).bind fun _ => ?_
  iterate 3 refine (defined_getStrValue root _).bind fun _ => ?_
  iterate 6 refine (defined_getIntValue root _).bind fun _ => ?_
  exact defined_ok _

theorem defined_readHeader (readOrThrow : JsonReader) (data : Bytes) :
    Defined (readHeader readOrThrow data) := by
  refine (defined_refuseIf _).bind fun _ => ?_
  refine (defined_refuseIf _).bind fun _ => ?_
  refine (defined_headerSize data).bind fun size => ?_
  refine (defined_readObject readOrThrow _ _ _ _).bind fun root => ?_
  refine (defined_parseHeader size root).bind fun header => ?_
  refine Defined.bind ?_ fun _ => defined_ok header
  unfold MessageHeader.check
  iterate 7 refine (defined_refuseIf _).bind fun _ => ?_
  exact defined_refuseIf _

theorem defined_openEnvelope (libraries : Libraries CKey) (data : String) (privateKey : CKey) :
    Defined (openEnvelope libraries data privateKey) := by
  have hunhex : ∀ text, Defined (fromOutcome (unhex text)) :=
    fun text => defined_fromOutcome (inBounds_unhexChars text.toList)
  iterate 2 refine (defined_refuseIf _).bind fun _ => ?_
  refine (defined_readObject _ _ _ _ _).bind fun root => ?_
  refine (defined_getIntValue root _).bind fun version => ?_
  iterate 3 refine (defined_getStrValue root _).bind fun _ => ?_
  refine (defined_refuseIf _).bind fun _ => ?_
  iterate 2 refine (hunhex _).bind fun _ => ?_
  refine (defined_fromLibrary _).bind fun ownPubKey => ?_
  iterate 2 refine (defined_refuseIf _).bind fun _ => ?_
  exact (defined_fromLibrary _).bind fun secret => defined_ok _

section Fields

variable {header : MessageHeader}

theorem lookup_assign (table : List (Nat × Nat)) (key value i : Nat) :
    (assign table key value).lookup i = if i = key then some value else table.lookup i := by
  have hfilter : i ≠ key →
      (table.filter (·.1 ≠ key)).lookup i = table.lookup i := by
    intro hne
    induction table with
    | nil => rfl
    | cons entry table ih =>
      by_cases hkey : entry.1 = key
      · have hentry : (i == entry.1) = false := by simp [hkey, hne]
        rw [filter_cons_of_neg (by simp [hkey]), ih, lookup_cons, hentry]
      · rw [filter_cons_of_pos (by simp [hkey]), lookup_cons, lookup_cons, ih]
  rw [assign, lookup_cons]
  by_cases h : i = key
  · simp [h]
  have hkey : (i == key) = false := by simp [h]
  rw [hkey, if_neg h]
  exact hfilter h

/-- The length the header gives to a position. -/
def sizeAt (header : MessageHeader) (i : Nat) : Nat := (header.dataSizes.lookup i).getD 0

def start (header : MessageHeader) (i : Nat) : Nat :=
  header.size + ((List.range i).map (sizeAt header)).sum

def fieldAt (header : MessageHeader) (data : Bytes) (position : Int) : Bytes :=
  (data.drop (start header position.toNat)).take (sizeAt header position.toNat)

/-- The three lengths together, as integers without bounds. -/
def totalLength (header : MessageHeader) : Int :=
  header.cipherLength + header.authDataLength + header.ivLength

def cutFields (header : MessageHeader) (data : Bytes) : EncryptMessageOutput :=
  { header.emptyOutput with
    cipher := fieldAt header data header.cipherPosition
    authData := fieldAt header data header.authDataPosition
    nonce := fieldAt header data header.ivPosition }

/-- Three numbers are 0, 1 and 2 in some order. -/
def Permuted (a b c : Int) : Prop :=
  (0 ≤ a ∧ a < 3) ∧ (0 ≤ b ∧ b < 3) ∧ (0 ≤ c ∧ c < 3) ∧ a ≠ b ∧ a ≠ c ∧ b ≠ c

theorem sum_of_permuted (f : Nat → Nat) (h : Permuted a b c) :
    f a.toNat + f b.toNat + f c.toNat = f 0 + f 1 + f 2 := by
  obtain ⟨ha, hb, hc, hne⟩ := h
  obtain rfl | rfl | rfl : a = 0 ∨ a = 1 ∨ a = 2 := by omega
  all_goals obtain rfl | rfl | rfl : b = 0 ∨ b = 1 ∨ b = 2 := by omega
  all_goals obtain rfl | rfl | rfl : c = 0 ∨ c = 1 ∨ c = 2 := by omega
  all_goals first | omega | (simp <;> omega)

/-- The lengths are positive and the positions are 0, 1 and 2 in some order. -/
structure Accepted (header : MessageHeader) : Prop where
  cipherLength_pos : 0 < header.cipherLength
  authDataLength_pos : 0 < header.authDataLength
  ivLength_pos : 0 < header.ivLength
  positions : Permuted header.cipherPosition header.authDataPosition header.ivPosition

theorem dataSizes_lookup (i : Nat) :
    header.dataSizes.lookup i =
      if i = header.ivPosition.toNat then some header.ivLength.toNat
      else if i = header.authDataPosition.toNat then some header.authDataLength.toNat
      else if i = header.cipherPosition.toNat then some header.cipherLength.toNat
      else none := by
  simp only [MessageHeader.dataSizes, lookup_assign, lookup_nil]

theorem accepted_of_check (h : header.check = .ok u) : Accepted header := by
  simp only [MessageHeader.check, bind_eq_ok, refuseIf_eq_ok, not_lt, not_le] at h
  obtain ⟨_, hcipherPosition, _, hauthDataPosition, _, hivPosition, _, hcipherLength, _,
    hauthDataLength, _, hivLength, _, -, h⟩ := h
  -- every one of 0, 1 and 2 is the position of one of the three fields
  have hcovers : ∀ i < 3, header.ivPosition = (i : Nat) ∨ header.authDataPosition = (i : Nat) ∨
      header.cipherPosition = (i : Nat) := by
    intro i hi
    by_contra hnone
    push Not at hnone
    obtain ⟨hiv, hauth, hcipher⟩ := hnone
    apply h
    refine ⟨i, hi, ?_⟩
    rw [dataSizes_lookup, if_neg (by omega), if_neg (by omega), if_neg (by omega)]
  have h0 := hcovers 0 (by decide)
  have h1 := hcovers 1 (by decide)
  have h2 := hcovers 2 (by decide)
  refine ⟨hcipherLength, hauthDataLength, hivLength, ⟨hcipherPosition, ?_⟩,
    ⟨hauthDataPosition, ?_⟩, ⟨hivPosition, ?_⟩, ?_, ?_, ?_⟩
  all_goals omega

theorem accepted_of_readHeader (h : readHeader readOrThrow data = .ok header) :
    Accepted header := by
  simp only [readHeader, bind_eq_ok] at h
  obtain ⟨_, -, _, -, size, -, root, -, parsed, -, _, hcheck, h⟩ := h
  cases h
  exact accepted_of_check hcheck

end Fields

section Cutting

variable {header : MessageHeader} (h : Accepted header)

include h

theorem sizeAt_cipherPosition :
    sizeAt header header.cipherPosition.toNat = header.cipherLength.toNat := by
  obtain ⟨hcipher, hauth, hiv, hne⟩ := h.positions
  rw [sizeAt, dataSizes_lookup, if_neg (by omega), if_neg (by omega), if_pos rfl,
    Option.getD_some]

theorem sizeAt_authDataPosition :
    sizeAt header header.authDataPosition.toNat = header.authDataLength.toNat := by
  obtain ⟨hcipher, hauth, hiv, hne⟩ := h.positions
  rw [sizeAt, dataSizes_lookup, if_neg (by omega), if_pos rfl, Option.getD_some]

omit h in
theorem sizeAt_ivPosition : sizeAt header header.ivPosition.toNat = header.ivLength.toNat := by
  rw [sizeAt, dataSizes_lookup, if_pos rfl, Option.getD_some]

theorem position_cases (hi : i < fieldCount) :
    (i : Int) = header.cipherPosition ∨ (i : Int) = header.authDataPosition ∨
      (i : Int) = header.ivPosition := by
  obtain ⟨hcipher, hauth, hiv, hne⟩ := h.positions
  simp only [fieldCount] at hi
  omega

theorem lookup_dataSizes (hi : i < fieldCount) :
    header.dataSizes.lookup i = some (sizeAt header i) := by
  have hsome : header.dataSizes.lookup i ≠ none := by
    rw [dataSizes_lookup]
    rcases position_cases h hi with hi | hi | hi
    all_goals
      simp only [← hi, Int.toNat_natCast]
      split_ifs <;> simp
  obtain ⟨size, hsize⟩ := Option.ne_none_iff_exists'.mp hsome
  rw [sizeAt, hsize, Option.getD_some]

theorem sum_sizeAt :
    sizeAt header 0 + sizeAt header 1 + sizeAt header 2 = (totalLength header).toNat := by
  have hcipher := sizeAt_cipherPosition h
  have hauth := sizeAt_authDataPosition h
  have hiv : sizeAt header header.ivPosition.toNat = _ := sizeAt_ivPosition
  have hsum : (totalLength header).toNat = sizeAt header header.cipherPosition.toNat +
      sizeAt header header.authDataPosition.toNat + sizeAt header header.ivPosition.toNat := by
    have hcipherLength := h.cipherLength_pos
    have hauthDataLength := h.authDataLength_pos
    have hivLength := h.ivLength_pos
    rw [totalLength]
    omega
  rw [hsum, sum_of_permuted (sizeAt header) h.positions]

/-- What `store` does at a position that is a field's. -/
def placed (header : MessageHeader) (result : EncryptMessageOutput) (i : Nat) (bytes : Bytes) :
    EncryptMessageOutput :=
  { result with
    cipher := if (i : Int) = header.cipherPosition then bytes else result.cipher
    authData := if (i : Int) = header.authDataPosition then bytes else result.authData
    nonce := if (i : Int) = header.ivPosition then bytes else result.nonce }

theorem store_eq_placed (result : EncryptMessageOutput) (hi : i < fieldCount) (bytes : Bytes) :
    header.store result i bytes = .ok (placed header result i bytes) := by
  obtain ⟨-, -, -, hca, hci, hai⟩ := h.positions
  rcases position_cases h hi with hi | hi | hi
  · simp [MessageHeader.store, placed, hi, hca, hci]
  · simp [MessageHeader.store, placed, hi, hca.symm, hai]
  · simp [MessageHeader.store, placed, hi, hci.symm, hai.symm]

theorem readField_eq (data : Bytes) (offset : Nat) (result : EncryptMessageOutput)
    (hi : i < fieldCount) :
    header.readField data (offset, result) i =
      if offset + sizeAt header i ≤ data.length then
        .ok (offset + sizeAt header i,
          placed header result i ((data.drop offset).take (sizeAt header i)))
      else .error .outOfBounds := by
  rw [MessageHeader.readField, lookup_dataSizes h hi]
  by_cases hroom : offset + sizeAt header i ≤ data.length
  · have hlength : ((data.drop offset).take (sizeAt header i)).length = sizeAt header i := by
      rw [length_take, length_drop]
      omega
    dsimp only
    rw [if_pos hroom, readRange_of_le hroom, ok_bind, Nat.add_sub_cancel_left,
      store_eq_placed h result hi, ok_bind, hlength]
  · dsimp only
    rw [if_neg hroom, readRange_of_lt (by omega), error_bind]

/-- The loop over the fields: it stays inside the data if all of them do. -/
theorem readFields_eq (data : Bytes) :
    header.readFields data =
      if header.size + (totalLength header).toNat ≤ data.length then
        .ok (cutFields header data)
      else .error .outOfBounds := by
  have hrange : List.range fieldCount = [0, 1, 2] := rfl
  rw [MessageHeader.readFields, hrange, ← sum_sizeAt h]
  simp only [foldlM_cons, foldlM_nil]
  rw [readField_eq h data _ _ (by decide)]
  by_cases h0 : header.size + sizeAt header 0 ≤ data.length
  swap
  · rw [if_neg h0, if_neg (by omega)]
    rfl
  rw [if_pos h0, ok_bind, readField_eq h data _ _ (by decide)]
  by_cases h1 : header.size + sizeAt header 0 + sizeAt header 1 ≤ data.length
  swap
  · rw [if_neg h1, if_neg (by omega)]
    rfl
  rw [if_pos h1, ok_bind, readField_eq h data _ _ (by decide)]
  by_cases h2 : header.size + sizeAt header 0 + sizeAt header 1 + sizeAt header 2 ≤ data.length
  swap
  · rw [if_neg h2, if_neg (by omega)]
    rfl
  rw [if_pos h2, if_pos (by omega), ok_bind]
  -- each field of the result is the part of the data in the field's position
  have hpick : ∀ {p : Int}, 0 ≤ p ∧ p < 3 → ∀ other : Bytes,
      (if ((2 : Nat) : Int) = p then
          (data.drop (header.size + sizeAt header 0 + sizeAt header 1)).take (sizeAt header 2)
        else if ((1 : Nat) : Int) = p then
          (data.drop (header.size + sizeAt header 0)).take (sizeAt header 1)
        else if ((0 : Nat) : Int) = p then (data.drop header.size).take (sizeAt header 0)
        else other) = fieldAt header data p := by
    intro p hp other
    obtain rfl | rfl | rfl : p = 0 ∨ p = 1 ∨ p = 2 := by omega
    · simp [fieldAt, start]
    · simp [fieldAt, start, range_succ]
    · simp [fieldAt, start, range_succ, Nat.add_assoc]
  obtain ⟨hcipher, hauth, hiv, -⟩ := h.positions
  refine congrArg Except.ok ?_
  simp only [placed, cutFields, hpick hcipher, hpick hauth, hpick hiv]

end Cutting

section Deserialize

variable {data : Bytes} {header : MessageHeader}

theorem addInt_of_lt (hpos : 0 < a + b) (h : a + b < 2 ^ 31) : addInt a b = .ok (a + b) :=
  if_pos ⟨by omega, h⟩

theorem addInt_of_le (h : 2 ^ 31 ≤ a + b) : addInt a b = .error .intOverflow :=
  if_neg (by omega)

theorem deserialize_eq (hheader : readHeader readOrThrow data = .ok header) :
    deserialize readOrThrow data =
      if 2 ^ 31 ≤ totalLength header then .error .intOverflow
      else if data.length > header.size + (totalLength header).toNat then
        refuse "The binary blob of the encrypted message doesn't have appropriate size."
      else if header.size + (totalLength header).toNat ≤ data.length then
        .ok (cutFields header data)
      else .error .outOfBounds := by
  have haccepted := accepted_of_readHeader hheader
  have hcipher := haccepted.cipherLength_pos
  have hauth := haccepted.authDataLength_pos
  have hiv := haccepted.ivLength_pos
  rw [deserialize, hheader, ok_bind]
  by_cases hboth : 2 ^ 31 ≤ header.cipherLength + header.authDataLength
  · have htotal : 2 ^ 31 ≤ totalLength header := by
      rw [totalLength]
      omega
    rw [addInt_of_le hboth, error_bind, if_pos htotal]
  rw [addInt_of_lt (by omega) (by omega), ok_bind]
  by_cases htotal : 2 ^ 31 ≤ totalLength header
  · rw [if_pos htotal]
    rw [totalLength] at htotal
    rw [addInt_of_le htotal, error_bind]
  rw [if_neg htotal]
  rw [totalLength, not_le] at htotal
  rw [addInt_of_lt (by omega) htotal, ok_bind, ← totalLength]
  by_cases hlong : data.length > header.size + (totalLength header).toNat
  · rw [refuseIf_pos hlong, if_pos hlong, refuse_bind]
  · rw [refuseIf_neg hlong, if_neg hlong, ok_bind, readFields_eq haccepted]

/-- The header's lengths neither overflow nor reach past the data. -/
def Fits (header : MessageHeader) (data : Bytes) : Prop :=
  totalLength header < 2 ^ 31 ∧ header.size + (totalLength header).toNat ≤ data.length

theorem defined_deserialize_iff (hheader : readHeader readOrThrow data = .ok header) :
    Defined (deserialize readOrThrow data) ↔ Fits header data := by
  rw [deserialize_eq hheader, Fits]
  by_cases htotal : 2 ^ 31 ≤ totalLength header
  · rw [if_pos htotal]
    simp only [not_defined_intOverflow, not_lt.mpr htotal, false_and]
  rw [if_neg htotal]
  rw [not_le] at htotal
  simp only [htotal, true_and]
  by_cases hlong : data.length > header.size + (totalLength header).toNat
  · simp [hlong, Nat.le_of_lt hlong]
  rw [if_neg hlong]
  split
  · simp_all
  · simp_all

end Deserialize

section Chunks

def chunkSize (rest : Bytes) : Nat := littleEndianValue (rest.take 4)

/-- The chunk is handed to libsodium: it has more than a tag, it is not too large, and it is
there. -/
def Takes (rest : Bytes) : Prop :=
  MACBYTES < chunkSize rest ∧ chunkSize rest + MACBYTES ≤ MAX_CRYPTOSECRETBOX_MSG_SIZE ∧
    4 + chunkSize rest ≤ rest.length

/-- Wherever the sizes lead, four bytes are left for the next size, up to the first chunk that is
refused for its size. -/
inductive Framed : Bytes → Prop where
  | done : Framed []
  | refused {rest : Bytes} : 4 ≤ rest.length → ¬ Takes rest → Framed rest
  | next {rest : Bytes} : Takes rest → Framed (rest.drop (4 + chunkSize rest)) → Framed rest

variable {cipher : Bytes} {ptr : Nat}

theorem defined_decryptBlock (sodium : Sodium) (cipher nonce key : Bytes) :
    Defined (decryptBlock sodium cipher nonce key) := by
  iterate 2 refine (defined_refuseIf _).bind fun _ => ?_
  split
  · exact defined_refuse _
  · exact defined_ok _

variable (hroom : ptr + 4 ≤ cipher.length)
include hroom

variable (hsmall : cipher.length < 2 ^ 31)
include hsmall

/-- A round that finds its four bytes. Nothing wraps in a cipher that a header can describe. -/
theorem decryptChunks_round :
    decryptChunks sodium cipher key (fuel + 1) ptr nonce res = (do
      refuseIf (chunkSize (cipher.drop ptr) > MAX_CRYPTOSECRETBOX_MSG_SIZE)
        "Chunk is larger than allowed limit"
      refuseIf ((chunkSize (cipher.drop ptr) : Int) > (cipher.length : Int) - (ptr + 4 : Nat))
        "Remaining size of cipher not enough to cover the next chunk size"
      let toDec ← readRange cipher (ptr + 4) (ptr + 4 + chunkSize (cipher.drop ptr))
      let msg ← decryptBlock sodium toDec nonce key
      decryptChunks sodium cipher key fuel ((ptr + 4 + chunkSize (cipher.drop ptr)) % 2 ^ 32)
        (incrementNonce nonce) (res ++ msg)) := by
  have hfront : (ptr + 4) % 2 ^ 32 = ptr + 4 := Nat.mod_eq_of_lt (by omega)
  rw [decryptChunks, if_pos (by omega), readRange_of_le hroom, ok_bind, Nat.add_sub_cancel_left,
    hfront]
  rfl

theorem decryptChunks_refused (htakes : ¬ Takes (cipher.drop ptr)) :
    Defined (decryptChunks sodium cipher key (fuel + 1) ptr nonce res) := by
  rw [decryptChunks_round hroom hsmall]
  refine defined_bind.mpr ⟨defined_refuseIf _, fun _ hlarge => ?_⟩
  refine defined_bind.mpr ⟨defined_refuseIf _, fun _ hthere => ?_⟩
  rw [refuseIf_eq_ok] at hlarge hthere
  rw [readRange_of_le (by omega), ok_bind]
  refine defined_bind.mpr ⟨defined_decryptBlock _ _ _ _, fun msg hmsg => ?_⟩
  -- a chunk that is opened has a size that `Takes` allows
  obtain ⟨_, hshort, hmsg⟩ := bind_eq_ok.mp hmsg
  obtain ⟨_, hlong, -⟩ := bind_eq_ok.mp hmsg
  rw [refuseIf_eq_ok] at hshort hlong
  rw [length_take, length_drop] at hshort hlong
  refine absurd ⟨?_, ?_, ?_⟩ htakes
  · omega
  · omega
  · rw [length_drop]
    omega

/-- A chunk that is taken: the run goes on behind it if it opens. -/
theorem defined_decryptChunks_iff (htakes : Takes (cipher.drop ptr)) :
    Defined (decryptChunks sodium cipher key (fuel + 1) ptr nonce res) ↔
      ∀ msg, decryptBlock sodium
          ((cipher.drop (ptr + 4)).take (chunkSize (cipher.drop ptr))) nonce key = .ok msg →
        Defined (decryptChunks sodium cipher key fuel
          (ptr + 4 + chunkSize (cipher.drop ptr)) (incrementNonce nonce) (res ++ msg)) := by
  obtain ⟨hmac, hmax, hthere⟩ := htakes
  rw [length_drop] at hthere
  have hnext : (ptr + 4 + chunkSize (cipher.drop ptr)) % 2 ^ 32 =
      ptr + 4 + chunkSize (cipher.drop ptr) := Nat.mod_eq_of_lt (by omega)
  rw [decryptChunks_round hroom hsmall, refuseIf_neg (by omega), ok_bind,
    refuseIf_neg (by omega), ok_bind, readRange_of_le (by omega), ok_bind, hnext,
    Nat.add_sub_cancel_left, defined_bind]
  simp only [defined_decryptBlock, true_and]

omit hsmall

omit hroom

theorem defined_decryptChunks_of_framed (hframed : Framed rest) (hsmall : cipher.length < 2 ^ 31)
    (hrest : rest = cipher.drop ptr) (hptr : ptr ≤ cipher.length)
    (hfuel : cipher.length - ptr < fuel) :
    Defined (decryptChunks sodium cipher key fuel ptr nonce res) := by
  induction hframed generalizing fuel ptr nonce res with
  | done =>
    obtain ⟨fuel, rfl⟩ := Nat.exists_eq_succ_of_ne_zero (by omega : fuel ≠ 0)
    have hend := drop_eq_nil_iff.mp hrest.symm
    rw [decryptChunks, if_neg (by omega)]
    exact defined_ok res
  | refused hfour htakes =>
    obtain ⟨fuel, rfl⟩ := Nat.exists_eq_succ_of_ne_zero (by omega : fuel ≠ 0)
    subst hrest
    rw [length_drop] at hfour
    exact decryptChunks_refused (by omega) hsmall htakes
  | next htakes hframed ih =>
    obtain ⟨fuel, rfl⟩ := Nat.exists_eq_succ_of_ne_zero (by omega : fuel ≠ 0)
    subst hrest
    have hthere := htakes.2.2
    rw [length_drop] at hthere
    rw [defined_decryptChunks_iff (by omega) hsmall htakes]
    intro msg hmsg
    refine ih ?_ (by omega) (by omega)
    rw [drop_drop, Nat.add_assoc]

/-- A library that accepts every tag and opens every box. -/
def permissive : Sodium where
  sha256 _ := Vector.replicate 32 0
  sha384 _ := Vector.replicate 48 0
  sha512 _ := Vector.replicate 64 0
  onetimeauthVerify _ _ _ := true
  secretboxOpen cipher _ _ := .ok cipher

theorem framed_of_defined (hsmall : cipher.length < 2 ^ 31) (hptr : ptr ≤ cipher.length)
    (h : Defined (decryptChunks permissive cipher key fuel ptr nonce res)) :
    Framed (cipher.drop ptr) := by
  induction fuel generalizing ptr nonce res with
  | zero => exact absurd h not_defined_stillRunning
  | succ fuel ih =>
    by_cases hend : ptr = cipher.length
    · rw [hend, drop_length]
      exact .done
    by_cases hroom : ptr + 4 ≤ cipher.length
    swap
    · rw [decryptChunks, if_pos (by omega), readRange_of_lt (by omega), error_bind] at h
      exact absurd h not_defined_outOfBounds
    by_cases htakes : Takes (cipher.drop ptr)
    swap
    · refine .refused ?_ htakes
      rw [length_drop]
      omega
    rw [defined_decryptChunks_iff hroom hsmall htakes] at h
    obtain ⟨hmac, hmax, hthere⟩ := id htakes
    rw [length_drop] at hthere
    have hlength : ((cipher.drop (ptr + 4)).take (chunkSize (cipher.drop ptr))).length =
        chunkSize (cipher.drop ptr) := by
      rw [length_take, length_drop]
      omega
    generalize (cipher.drop (ptr + 4)).take (chunkSize (cipher.drop ptr)) = chunk at h hlength
    obtain ⟨msg, hmsg⟩ : ∃ msg, decryptBlock permissive chunk nonce key = .ok msg := by
      rw [decryptBlock, refuseIf_neg (by omega), ok_bind, refuseIf_neg (by omega), ok_bind]
      exact ⟨_, rfl⟩
    refine .next htakes ?_
    rw [drop_drop, ← Nat.add_assoc]
    exact ih (by omega) (h msg hmsg)

/-- The part of a cipher behind the nonce is framed, or the cipher is refused for its size. -/
def FramedCipher (cipher : Bytes) : Prop :=
  NONCEBYTES + 4 < cipher.length → Framed (cipher.drop NONCEBYTES)

theorem decryptLongMsg_eq (hlong : NONCEBYTES + 4 < cipher.length) :
    decryptLongMsg sodium cipher key =
      decryptChunks sodium cipher key cipher.length NONCEBYTES (cipher.take NONCEBYTES) [] := by
  rw [decryptLongMsg, refuseIf_neg (by omega), ok_bind, readRange_of_le (by omega), ok_bind,
    drop_zero, Nat.sub_zero]

end Chunks

section Message

variable {output : EncryptMessageOutput}

/-- The names of a message are the names of algorithms. -/
structure KnownAlgorithms (encryptionAlgo authAlgo keyRatchetAlgo : String) : Prop where
  encryption : encryptionAlgo = XSalsa20Poly1305AlgoName
  authentication : authAlgo = XSalsa20Poly1305AlgoName
  ratchet : keyRatchetAlgo ∈ ["SHA256", "SHA384", "SHA512"]

theorem defined_assertNoneIsEmpty (output : EncryptMessageOutput) :
    Defined output.assertNoneIsEmpty := by
  unfold EncryptMessageOutput.assertNoneIsEmpty
  iterate 5 refine (defined_refuseIf _).bind fun _ => ?_
  exact defined_refuseIf _

theorem ratchet_returns (hname : name ∈ ["SHA256", "SHA384", "SHA512"]) (sodium : Sodium)
    (key : Bytes) :
    ∃ algo outputLen authKey, getRatchetAlgoFromName name = .ok algo ∧
      getRatchetAlgoOutputLength algo = some outputLen ∧ 32 ≤ outputLen ∧
      calculateKeyRatchet sodium algo key 32 = .ok authKey ∧ authKey.length = 32 := by
  simp only [mem_cons, not_mem_nil, or_false] at hname
  rcases hname with rfl | rfl | rfl
  · exact ⟨.sha256, 32, (sodium.sha256 key).toList.take 32, by decide, rfl, by decide,
      by simp [calculateKeyRatchet, ratchetHash], by simp⟩
  · exact ⟨.sha384, 48, (sodium.sha384 key).toList.take 32, by decide, rfl, by decide,
      by simp [calculateKeyRatchet, ratchetHash], by simp⟩
  · exact ⟨.sha512, 64, (sodium.sha512 key).toList.take 32, by decide, rfl, by decide,
      by simp [calculateKeyRatchet, ratchetHash], by simp⟩

theorem decryptMessage_eq (hkey : key.length = 32) (hnone : output.assertNoneIsEmpty = .ok u)
    (hknown : KnownAlgorithms output.encryptionAlgo output.authAlgo output.keyRatchetAlgo) :
    ∃ authKey, decryptMessage sodium output key = (do
      let tag ← readRange output.authData 0 16
      refuseIf (sodium.onetimeauthVerify tag output.cipher authKey = false)
        "Message authentication failed"
      decryptLongMsg sodium output.cipher key) := by
  obtain ⟨hencryption, hauthentication, hratchet⟩ := hknown
  obtain ⟨algo, outputLen, authKey, halgo, houtput, hlen, hauthKey, hauthLen⟩ :=
    ratchet_returns hratchet sodium key
  refine ⟨authKey, ?_⟩
  have henc : getEncryptionAlgoFromName output.encryptionAlgo = .ok .xSalsa20Poly1305 :=
    if_pos hencryption
  have hauth : getAuthAlgoFromName output.authAlgo = .ok .poly1305 := if_pos hauthentication
  have hauthRange : readRange authKey 0 32 = .ok authKey := by
    rw [readRange_of_le (by omega), drop_zero, Nat.sub_zero, ← hauthLen, take_length]
  rw [decryptMessage, hnone, ok_bind, henc, ok_bind, hauth, ok_bind, halgo, ok_bind]
  simp only [authKeyLength, getAuthAlgoKeyLength, houtput, getValue, ok_bind]
  rw [refuseIf_neg (by omega), ok_bind, hauthKey, ok_bind]
  simp only [authenticate, decryptWith, getCanonicalSalsa20poly1305Key, hauthRange, ok_bind]
  rw [refuseIf_neg (by simp [hkey]), ok_bind, ok_bind, bind_assoc]

theorem defined_decryptMessage_of_unknown
    (hunknown : ¬ KnownAlgorithms output.encryptionAlgo output.authAlgo output.keyRatchetAlgo) :
    Defined (decryptMessage sodium output key) := by
  refine (defined_assertNoneIsEmpty output).bind fun _ => ?_
  by_cases henc : output.encryptionAlgo = XSalsa20Poly1305AlgoName
  swap
  · rw [getEncryptionAlgoFromName, if_neg henc, refuse_bind]
    exact defined_refuse _
  by_cases hauth : output.authAlgo = XSalsa20Poly1305AlgoName
  swap
  · rw [getEncryptionAlgoFromName, if_pos henc, ok_bind, getAuthAlgoFromName, if_neg hauth,
      refuse_bind]
    exact defined_refuse _
  have hratchet : output.keyRatchetAlgo ∉ ["SHA256", "SHA384", "SHA512"] :=
    fun hmem => hunknown ⟨henc, hauth, hmem⟩
  simp only [mem_cons, not_mem_nil, or_false, not_or] at hratchet
  obtain ⟨h256, h384, h512⟩ := hratchet
  rw [getEncryptionAlgoFromName, if_pos henc, ok_bind, getAuthAlgoFromName, if_pos hauth, ok_bind,
    getRatchetAlgoFromName, if_neg h256, if_neg h384, if_neg h512, refuse_bind]
  exact defined_refuse _

/-- What makes a known message safe: a whole tag and a framed cipher. -/
theorem defined_decryptMessage (hkey : key.length = 32)
    (htag : 16 ≤ output.authData.length) (hsmall : output.cipher.length < 2 ^ 31)
    (hframed : FramedCipher output.cipher) : Defined (decryptMessage sodium output key) := by
  by_cases hknown : KnownAlgorithms output.encryptionAlgo output.authAlgo output.keyRatchetAlgo
  swap
  · exact defined_decryptMessage_of_unknown hknown
  cases hnone : output.assertNoneIsEmpty with
  | error fault =>
    rw [decryptMessage, hnone, error_bind, defined_error_iff]
    exact defined_assertNoneIsEmpty output fault hnone
  | ok u =>
    obtain ⟨authKey, heq⟩ := decryptMessage_eq hkey hnone hknown
    rw [heq, readRange_of_le htag, ok_bind]
    refine (defined_refuseIf _).bind fun _ => ?_
    by_cases hlong : NONCEBYTES + 4 < output.cipher.length
    · rw [decryptLongMsg_eq hlong]
      have hnonce : 0 < NONCEBYTES := by decide
      exact defined_decryptChunks_of_framed (hframed hlong) hsmall rfl (by omega) (by omega)
    · rw [decryptLongMsg, refuseIf_pos (by omega), refuse_bind]
      exact defined_refuse _

/-- With a library that refuses nothing, a known message has to be safe in this way. -/
theorem safe_of_defined (hkey : key.length = 32) (hnone : output.assertNoneIsEmpty = .ok u)
    (hknown : KnownAlgorithms output.encryptionAlgo output.authAlgo output.keyRatchetAlgo)
    (hsmall : output.cipher.length < 2 ^ 31) (h : Defined (decryptMessage permissive output key)) :
    16 ≤ output.authData.length ∧ FramedCipher output.cipher := by
  obtain ⟨authKey, heq⟩ := decryptMessage_eq hkey hnone hknown
  rw [heq] at h
  by_cases htag : 16 ≤ output.authData.length
  swap
  · rw [readRange_of_lt (by omega), error_bind] at h
    exact absurd h not_defined_outOfBounds
  rw [readRange_of_le htag, ok_bind, refuseIf_neg (by simp [permissive]), ok_bind] at h
  refine ⟨htag, fun hlong => ?_⟩
  rw [decryptLongMsg_eq hlong] at h
  exact framed_of_defined hsmall (by omega) h

end Message

section Metadata

variable {header : MessageHeader} {data : Bytes}

theorem length_fieldAt (h : Accepted header) (hposition : 0 ≤ position ∧ position < 3)
    (hfits : header.size + (totalLength header).toNat ≤ data.length) :
    (fieldAt header data position).length = sizeAt header position.toNat := by
  have hsum := sum_sizeAt h
  rw [fieldAt, length_take, length_drop]
  obtain rfl | rfl | rfl : position = 0 ∨ position = 1 ∨ position = 2 := by omega
  · simp [start]
    omega
  · simp [start, range_succ]
    omega
  · simp [start, range_succ]
    omega

theorem assertNoneIsEmpty_cutFields (h : Accepted header)
    (hfits : header.size + (totalLength header).toNat ≤ data.length)
    (hknown : KnownAlgorithms header.encryptionAlgo header.authAlgo header.keyRatchetAlgo) :
    (cutFields header data).assertNoneIsEmpty = .ok () := by
  obtain ⟨hcipher, hauth, hiv, -⟩ := h.positions
  have hne : ∀ {position : Int}, 0 ≤ position ∧ position < 3 →
      0 < sizeAt header position.toNat → ¬ fieldAt header data position = [] := by
    intro position hposition hpos
    rw [← length_eq_zero_iff, length_fieldAt h hposition hfits]
    omega
  have hcipherLength := h.cipherLength_pos
  have hauthDataLength := h.authDataLength_pos
  have hivLength := h.ivLength_pos
  have hcipherField := hne hcipher (by rw [sizeAt_cipherPosition h]; omega)
  have hauthField := hne hauth (by rw [sizeAt_authDataPosition h]; omega)
  have hivField := hne hiv (by rw [sizeAt_ivPosition]; omega)
  have hratchet : header.keyRatchetAlgo ≠ "" := by
    rintro hempty
    have hmem := hknown.ratchet
    rw [hempty] at hmem
    simp at hmem
  have hname : ∀ {name : String}, name = XSalsa20Poly1305AlgoName → name ≠ "" := by
    rintro name rfl
    decide
  simp only [EncryptMessageOutput.assertNoneIsEmpty, bind_eq_ok, refuseIf_eq_ok]
  exact ⟨(), hcipherField, (), hivField, (), hauthField, (), hname hknown.encryption, (), hratchet,
    hname hknown.authentication⟩

/-- What the author of a message has to respect: the lengths in the header fit, and if they are
the data's and the algorithms are known, the tag is whole and the cipher is framed. -/
structure SafeMessage (header : MessageHeader) (data : Bytes) : Prop where
  fits : Fits header data
  tag : header.size + (totalLength header).toNat = data.length →
    KnownAlgorithms header.encryptionAlgo header.authAlgo header.keyRatchetAlgo →
    16 ≤ header.authDataLength
  framed : header.size + (totalLength header).toNat = data.length →
    KnownAlgorithms header.encryptionAlgo header.authAlgo header.keyRatchetAlgo →
    FramedCipher (fieldAt header data header.cipherPosition)

/-- The message is cut if its size is the declared one, and refused if it is larger. -/
theorem deserialize_of_fits (hheader : readHeader readOrThrow data = .ok header)
    (hfits : Fits header data) :
    deserialize readOrThrow data =
      if header.size + (totalLength header).toNat = data.length then .ok (cutFields header data)
      else refuse "The binary blob of the encrypted message doesn't have appropriate size." := by
  obtain ⟨htotal, hlength⟩ := hfits
  rw [deserialize_eq hheader, if_neg (by omega)]
  by_cases hexact : header.size + (totalLength header).toNat = data.length
  · rw [if_neg (by omega), if_pos hlength, if_pos hexact]
  · rw [if_pos (by omega), if_neg hexact]

theorem defined_decrypt_iff (hkey : key.length = 32)
    (hheader : readHeader readOrThrow data = .ok header) :
    (∀ sodium, Defined (deserialize readOrThrow data >>= fun output =>
      decryptMessage sodium output key)) ↔ SafeMessage header data := by
  have haccepted := accepted_of_readHeader hheader
  have hcipher := haccepted.positions.1
  have hauth := haccepted.positions.2.1
  have hcipherLength := haccepted.cipherLength_pos
  have hauthDataLength := haccepted.authDataLength_pos
  have hivLength := haccepted.ivLength_pos
  have hcipherField : Fits header data →
      (fieldAt header data header.cipherPosition).length < 2 ^ 31 := by
    rintro ⟨htotal, hlength⟩
    rw [length_fieldAt haccepted hcipher hlength, sizeAt_cipherPosition haccepted]
    rw [totalLength] at htotal
    omega
  have hauthField : Fits header data →
      (fieldAt header data header.authDataPosition).length = header.authDataLength.toNat := by
    rintro ⟨htotal, hlength⟩
    rw [length_fieldAt haccepted hauth hlength, sizeAt_authDataPosition haccepted]
  constructor
  · intro h
    have hfits := (defined_deserialize_iff hheader).mp (defined_bind.mp (h permissive)).1
    have hsafe : header.size + (totalLength header).toNat = data.length →
        KnownAlgorithms header.encryptionAlgo header.authAlgo header.keyRatchetAlgo →
        16 ≤ (fieldAt header data header.authDataPosition).length ∧
          FramedCipher (fieldAt header data header.cipherPosition) := by
      intro hexact hknown
      have hrun := h permissive
      rw [deserialize_of_fits hheader hfits, if_pos hexact, ok_bind] at hrun
      exact safe_of_defined hkey (assertNoneIsEmpty_cutFields haccepted hfits.2 hknown) hknown
        (hcipherField hfits) hrun
    refine ⟨hfits, fun hexact hknown => ?_, fun hexact hknown => (hsafe hexact hknown).2⟩
    have htag := (hsafe hexact hknown).1
    rw [hauthField hfits] at htag
    omega
  rintro ⟨hfits, htag, hframed⟩ sodium
  rw [deserialize_of_fits hheader hfits]
  by_cases hexact : header.size + (totalLength header).toNat = data.length
  swap
  · rw [if_neg hexact, refuse_bind]
    exact defined_refuse _
  rw [if_pos hexact, ok_bind]
  by_cases hknown : KnownAlgorithms header.encryptionAlgo header.authAlgo header.keyRatchetAlgo
  swap
  · exact defined_decryptMessage_of_unknown hknown
  refine defined_decryptMessage hkey ?_ (hcipherField hfits) (hframed hexact hknown)
  have hlength := hauthField hfits
  have hsixteen := htag hexact hknown
  change 16 ≤ (fieldAt header data header.authDataPosition).length
  omega

/-- Decrypting a text stays defined, whatever libsodium answers, exactly if the message in it
respects the three rules of `SafeMessage`. -/
theorem decryptMetadata_defined_iff {CKey : Type} (libraries : Libraries CKey) (text : String)
    (privateKey : CKey) :
    (∀ sodium, Defined (decryptMetadata libraries sodium text privateKey)) ↔
      ∀ message secret header, openEnvelope libraries text privateKey = .ok (message, secret) →
        readHeader libraries.readOrThrow message = .ok header → SafeMessage header message := by
  constructor
  · intro h message secret header hopen hheader
    have hsecret : secret.toList.length = 32 := by simp
    refine (defined_decrypt_iff hsecret hheader).mp fun sodium => ?_
    have hrun := h sodium
    rw [decryptMetadata, hopen, ok_bind] at hrun
    exact hrun
  intro h sodium
  refine defined_bind.mpr ⟨defined_openEnvelope libraries text privateKey, ?_⟩
  rintro ⟨message, secret⟩ hopen
  cases hheader : readHeader libraries.readOrThrow message with
  | ok header =>
    exact (defined_decrypt_iff (by simp) hheader).mpr (h message secret header hopen hheader)
      sodium
  | error fault =>
    dsimp only
    rw [deserialize, hheader, error_bind, error_bind, defined_error_iff]
    exact defined_readHeader libraries.readOrThrow message fault hheader

end Metadata

section Samples

/-- The bytes of the header
`{"SerializationVersion":0,"EncAlgo":"XSalsa20Poly1305","AuthAlgo":"XSalsa20Poly1305",`
`"AuthKeyRatchetAlgo":"SHA256","IVPos":0,"AuthDataPos":1,"CipherPos":2,"IVLen":1,`
`"AuthDataLen":` up to the first length. -/
def sampleFront : Bytes :=
  [123, 34, 83, 101, 114, 105, 97, 108, 105, 122, 97, 116, 105, 111, 110, 86, 101, 114, 115, 105,
    111, 110, 34, 58, 48, 44, 34, 69, 110, 99, 65, 108, 103, 111, 34, 58, 34, 88, 83, 97, 108,
    115, 97, 50, 48, 80, 111, 108, 121, 49, 51, 48, 53, 34, 44, 34, 65, 117, 116, 104, 65, 108,
    103, 111, 34, 58, 34, 88, 83, 97, 108, 115, 97, 50, 48, 80, 111, 108, 121, 49, 51, 48, 53, 34,
    44, 34, 65, 117, 116, 104, 75, 101, 121, 82, 97, 116, 99, 104, 101, 116, 65, 108, 103, 111,
    34, 58, 34, 83, 72, 65, 50, 53, 54, 34, 44, 34, 73, 86, 80, 111, 115, 34, 58, 48, 44, 34, 65,
    117, 116, 104, 68, 97, 116, 97, 80, 111, 115, 34, 58, 49, 44, 34, 67, 105, 112, 104, 101, 114,
    80, 111, 115, 34, 58, 50, 44, 34, 73, 86, 76, 101, 110, 34, 58, 49, 44, 34, 65, 117, 116, 104,
    68, 97, 116, 97, 76, 101, 110, 34, 58]

/-- The header with the digits of two lengths; `,"CipherLen":` stands between them. -/
def sampleHeader (authDigits cipherDigits : Bytes) : Bytes :=
  sampleFront ++ (authDigits ++
    [44, 34, 67, 105, 112, 104, 101, 114, 76, 101, 110, 34, 58] ++
    cipherDigits ++ [125])

def sampleRoot (authDataLength cipherLength : Int) : JsonObject :=
  [("SerializationVersion", .int 0), ("EncAlgo", .str "XSalsa20Poly1305"),
    ("AuthAlgo", .str "XSalsa20Poly1305"), ("AuthKeyRatchetAlgo", .str "SHA256"),
    ("IVPos", .int 0), ("AuthDataPos", .int 1), ("CipherPos", .int 2), ("IVLen", .int 1),
    ("AuthDataLen", .int authDataLength), ("CipherLen", .int cipherLength)]

def sampleVersion : String := "\x7b\"SerializationVersion\":2"

/-- The text that carries a message from the key `02` to the key `03`. -/
def sampleText (message : Bytes) : String :=
  sampleVersion ++
    (",\"SourcePubKeyHex\":\"02\",\"TargetPubKeyHex\":\"03\",\"Cipher64\":\"" ++
      encodeBase64 message ++ "\"\x7d")

/-- A reader that knows the two texts of a message, and the holder of the key `03`. -/
def sampleLibraries (header message : Bytes) (root : JsonObject) : Libraries Unit where
  readOrThrow text :=
    if text = rawText header then .ok (.obj root)
    else if text = sampleText message then
      .ok (.obj [("SerializationVersion", .int 2), ("SourcePubKeyHex", .str "02"),
        ("TargetPubKeyHex", .str "03"), ("Cipher64", .str (encodeBase64 message))])
    else .error none
  rawPubKey _ := .ok [3]
  setPubKey _ := true
  generateSharedSecret _ _ := .ok (Vector.replicate 32 7)

theorem head?_sampleText (message : Bytes) : (sampleText message).toList.head? = some '\x7b' := by
  have hfront : sampleVersion.toList.head? = some '\x7b' := by decide +kernel
  rw [sampleText, String.toList_append, List.head?_append, hfront]
  rfl

theorem openEnvelope_sample (hne : sampleText message ≠ rawText header)
    (hround : decodeBase64From 0 0 (encodeBase64From 0 0 message) = message) (root : JsonObject) :
    openEnvelope (sampleLibraries header message root) (sampleText message) () =
      .ok (message, Vector.replicate 32 7) := by
  have hhead := head?_sampleText message
  have hempty : sampleText message ≠ "" := by
    intro hempty
    rw [hempty] at hhead
    exact absurd hhead (by decide)
  have hread : (sampleLibraries header message root).readOrThrow (sampleText message) =
      .ok (.obj [("SerializationVersion", .int 2), ("SourcePubKeyHex", .str "02"),
        ("TargetPubKeyHex", .str "03"), ("Cipher64", .str (encodeBase64 message))]) := by
    change (if sampleText message = rawText header then _
      else if sampleText message = sampleText message then _ else _) = _
    rw [if_neg hne, if_pos rfl]
  have hsource : unhex "02" = .ok [2] := by decide
  have htarget : unhex "03" = .ok [3] := by decide
  rw [openEnvelope, refuseIf_neg hempty, ok_bind, refuseIf_neg (by simp [hhead]), ok_bind,
    readObject, hread]
  simp [getIntValue, getStrValue, findValue, List.lookup, hsource, htarget, fromOutcome,
    refuseIf, sampleLibraries, fromLibrary, pubKeyToUse, decodeBase64_encodeBase64 hround]

def sampleParsed (authDigits cipherDigits : Bytes) (authDataLength cipherLength : Int) :
    MessageHeader where
  size := (sampleHeader authDigits cipherDigits).length
  encryptionAlgo := XSalsa20Poly1305AlgoName
  keyRatchetAlgo := "SHA256"
  authAlgo := XSalsa20Poly1305AlgoName
  cipherPosition := 2
  cipherLength := cipherLength
  authDataPosition := 1
  authDataLength := authDataLength
  ivPosition := 0
  ivLength := 1

/-- A sample is put into its envelope and decrypted by the holder of the key `03`. -/
def sampleRun (sodium : Sodium) (authDigits cipherDigits : Bytes)
    (authDataLength cipherLength : Int) (body : Bytes) : Decryption Bytes :=
  decryptMetadata
    (sampleLibraries (sampleHeader authDigits cipherDigits)
      (sampleHeader authDigits cipherDigits ++ body) (sampleRoot authDataLength cipherLength))
    sodium (sampleText (sampleHeader authDigits cipherDigits ++ body)) ()

theorem sampleRun_eq (sodium : Sodium) (hheader : sampleHeader auth digits = header)
    (hmessage : header ++ body = message) (hne : sampleText message ≠ rawText header)
    (hround : decodeBase64From 0 0 (encodeBase64From 0 0 message) = message) :
    sampleRun sodium auth digits authDataLength cipherLength body =
      deserialize (sampleLibraries header message
        (sampleRoot authDataLength cipherLength)).readOrThrow message >>= fun output =>
          decryptMessage sodium output (List.replicate 32 7) := by
  subst hheader hmessage
  rw [sampleRun, decryptMetadata, openEnvelope_sample hne hround, ok_bind]
  dsimp only
  rw [Vector.toList_replicate]

/-- A message of one chunk decrypts, and no answer of libsodium makes the run undefined. -/
theorem decryptMetadata_defined_one_chunk :
    (∀ sodium, Defined (sampleRun sodium [49, 54] [52, 53] 16 45
      (List.replicate 41 0 ++ [17, 0, 0, 0] ++ List.replicate 17 5))) ∧
    sampleRun permissive [49, 54] [52, 53] 16 45
      (List.replicate 41 0 ++ [17, 0, 0, 0] ++ List.replicate 17 5) = .ok [5] := by
  constructor
  · refine (decryptMetadata_defined_iff _ _ _).mpr ?_
    intro message secret header hopen hheader
    rw [openEnvelope_sample (by decide +kernel) (by decide +kernel)] at hopen
    cases hopen
    obtain rfl : header = sampleParsed [49, 54] [52, 53] 16 45 := by
      refine Except.ok.inj (hheader.symm.trans ?_)
      decide +kernel
    refine ⟨⟨by decide +kernel, by decide +kernel⟩, fun _ _ => by decide, fun _ _ _ => ?_⟩
    refine .next ?_ ?_
    · unfold Takes
      decide +kernel
    generalize hrest : List.drop _ _ = rest
    have hnil : rest = [] := by
      rw [← hrest]
      decide +kernel
    rw [hnil]
    exact .done
  rw [sampleRun_eq _ rfl rfl (by decide +kernel) (by decide +kernel)]
  decide +kernel

/-- A message that ends behind its header, a tag of three bytes, a cipher with one byte behind its
last chunk, and lengths whose sum is no `int`. -/
theorem hostile_messages_read_outside :
    sampleRun permissive [49, 54] [52, 53] 16 45 [] = .error .outOfBounds ∧
    sampleRun permissive [51] [52, 53] 3 45 (List.replicate 49 0) = .error .outOfBounds ∧
    sampleRun permissive [49, 54] [52, 54] 16 46
      (List.replicate 41 0 ++ [17, 0, 0, 0] ++ List.replicate 18 0) = .error .outOfBounds ∧
    sampleRun permissive [49, 54] [50, 49, 52, 55, 52, 56, 51, 54, 52, 55] 16 2147483647 [] =
      .error .intOverflow := by
  refine ⟨?_, ?_, ?_, ?_⟩
  · rw [sampleRun_eq _ rfl rfl (by decide +kernel) (by decide +kernel)]
    decide +kernel
  · rw [sampleRun_eq _ rfl rfl (by decide +kernel) (by decide +kernel)]
    decide +kernel
  · rw [sampleRun_eq _ rfl rfl (by decide +kernel) (by decide +kernel)]
    decide +kernel
  · rw [sampleRun_eq _ rfl rfl (by decide +kernel) (by decide +kernel)]
    decide +kernel

end Samples

end Bfx.DecryptionSafety
