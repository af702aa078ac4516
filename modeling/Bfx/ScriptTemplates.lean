import Bfx.ScriptText

/-!
Standard output scripts: the templates that `Solver` matches, the address a
script pays, and the script that pays an address.
-/

namespace Bfx.ScriptTemplates

open HexText List ScriptText

def OP_RETURN : UInt8 := 0x6a
def OP_DUP : UInt8 := 0x76
def OP_EQUAL : UInt8 := 0x87
def OP_EQUALVERIFY : UInt8 := 0x88
def OP_HASH160 : UInt8 := 0xa9
def OP_CHECKSIG : UInt8 := 0xac
def OP_CHECKMULTISIG : UInt8 := 0xae

/-! Opcodes that stand for an operand in a template. -/

def OP_SMALLDATA : UInt8 := 0xf9
def OP_SMALLINTEGER : UInt8 := 0xfa
def OP_PUBKEYS : UInt8 := 0xfb
def OP_PUBKEYHASH : UInt8 := 0xfd
def OP_PUBKEY : UInt8 := 0xfe
def OP_INVALIDOPCODE : UInt8 := 0xff

inductive TxOutType where
  | pubKey
  | pubKeyHash
  | scriptHash
  | multisig
  | nullData
  deriving DecidableEq, Repr

/-- The templates in the order of the map that holds them. -/
def mTemplates : List (TxOutType × List UInt8) :=
  [(.pubKey, [OP_PUBKEY, OP_CHECKSIG]),
    (.pubKeyHash, [OP_DUP, OP_HASH160, OP_PUBKEYHASH, OP_EQUALVERIFY, OP_CHECKSIG]),
    (.multisig, [OP_SMALLINTEGER, OP_PUBKEYS, OP_SMALLINTEGER, OP_CHECKMULTISIG]),
    (.nullData, [OP_RETURN, OP_SMALLDATA])]

def isPubKeySize (vch : Bytes) : Bool := 33 ≤ vch.length && vch.length ≤ 120

def decodeOP_N (opcode : UInt8) : UInt8 := if opcode = 0 then 0 else opcode - 0x50

/-- One opcode of a script against one of a template; the operands to keep are
returned. -/
def matchOp (dataSize : Nat) (opcode2 opcode1 : UInt8) (vch1 : Bytes) : Option (List Bytes) :=
  if opcode2 = OP_PUBKEY then
    if isPubKeySize vch1 then some [vch1] else none
  else if opcode2 = OP_PUBKEYHASH then
    if vch1.length = 20 then some [vch1] else none
  else if opcode2 = OP_SMALLINTEGER then
    if opcode1 = 0 ∨ (0x51 ≤ opcode1 ∧ opcode1 ≤ 0x60) then some [[decodeOP_N opcode1]] else none
  else if opcode2 = OP_SMALLDATA then
    if vch1.length > dataSize then none else some []
  else if opcode1 = opcode2 ∧ vch1 = [] then some []
  else none

/-- The loop over the keys of a template with `OP_PUBKEYS`: the keys, and the
opcode behind them. The length of the script is fuel enough. -/
def takePubKeys : Nat → UInt8 × Bytes × Bytes → List Bytes × (UInt8 × Bytes × Bytes)
  | 0, op => ([], op)
  | fuel + 1, (opcode1, vch1, script) =>
    if isPubKeySize vch1 then
      match getOp script with
      | none => ([vch1], OP_INVALIDOPCODE, [], [])
      | some op =>
        let (keys, op) := takePubKeys fuel op
        (vch1 :: keys, op)
    else ([], opcode1, vch1, script)

def matchTemplate (dataSize : Nat) : List UInt8 → Bytes → Option (List Bytes)
  | [], script => if script = [] then some [] else none
  | opcode2 :: template, script => do
    let op ← getOp script
    if opcode2 = OP_PUBKEYS then
      let (keys, opcode1, vch1, script) := takePubKeys script.length op
      match template with
      | [] => none
      | opcode2 :: template => do
        let vSolutions ← matchOp dataSize opcode2 opcode1 vch1
        let rest ← matchTemplate dataSize template script
        some (keys ++ vSolutions ++ rest)
    else do
      let vSolutions ← matchOp dataSize opcode2 op.1 op.2.1
      let rest ← matchTemplate dataSize template op.2.2
      some (vSolutions ++ rest)

/-- The additional checks for `TX_MULTISIG`. -/
def isValidMultisig (vSolutions : List Bytes) : Bool :=
  let m := ((vSolutions.headD []).headD 0).toNat
  let n := ((vSolutions.getLastD []).headD 0).toNat
  1 ≤ m && 1 ≤ n && m ≤ n && vSolutions.length - 2 == n

/-- The first template that matches decides. -/
def scanTemplates (dataSize : Nat) (script : Bytes) :
    List (TxOutType × List UInt8) → Option (TxOutType × List Bytes)
  | [] => none
  | (type, template) :: templates =>
    match matchTemplate dataSize template script with
    | none => scanTemplates dataSize script templates
    | some vSolutions =>
      if type = .multisig ∧ !isValidMultisig vSolutions then none
      else some (type, vSolutions)

def isPayToScriptHash (script : Bytes) : Bool :=
  script.length == 23 && script[0]? == some OP_HASH160 && script[1]? == some 0x14 &&
    script[22]? == some OP_EQUAL

def solver (dataSize : Nat) (scriptPubKey : Bytes) : Option (TxOutType × List Bytes) :=
  if isPayToScriptHash scriptPubKey then
    some (.scriptHash, [(scriptPubKey.drop 2).take 20])
  else scanTemplates dataSize scriptPubKey mTemplates

/-- Hashes of keys and scripts, as their bytes. -/
inductive CTxDestination where
  | keyID (hash : Bytes)
  | scriptID (hash : Bytes)
  deriving DecidableEq, Repr

def CTxDestination.hash : CTxDestination → Bytes
  | .keyID hash => hash
  | .scriptID hash => hash

def extractDestination (hash160 : Bytes → Bytes) (dataSize : Nat) (scriptPubKey : Bytes) :
    Option CTxDestination :=
  match solver dataSize scriptPubKey with
  | some (.pubKey, vSolutions) => some (.keyID (hash160 (vSolutions.headD [])))
  | some (.pubKeyHash, vSolutions) => some (.keyID (vSolutions.headD []))
  | some (.scriptHash, vSolutions) => some (.scriptID (vSolutions.headD []))
  | _ => none

def setDestination : CTxDestination → Bytes
  | .keyID hash => [OP_DUP, OP_HASH160, 20] ++ hash ++ [OP_EQUALVERIFY, OP_CHECKSIG]
  | .scriptID hash => [OP_HASH160, 20] ++ hash ++ [OP_EQUAL]

theorem getOp_of_lt (hopcode : 0x4e < opcode) (rest : Bytes) :
    getOp (opcode :: rest) = some (opcode, [], rest) := by
  rw [getOp, if_neg (UInt8.not_le.mpr hopcode)]

theorem getOp_push_twenty {hash : Bytes} (hhash : hash.length = 20) (rest : Bytes) :
    getOp (20 :: (hash ++ rest)) = some (20, hash, rest) := by
  have hsize : pushSize 20 (hash ++ rest) = some (20, hash ++ rest) := rfl
  rw [getOp, if_pos (by decide), hsize]
  dsimp only
  rw [if_neg (by simp [hhash]), ← hhash, take_left, drop_left]

theorem solver_setDestination_keyID {hash : Bytes} (hhash : hash.length = 20) :
    solver dataSize (setDestination (.keyID hash)) = some (.pubKeyHash, [hash]) := by
  have hscript : setDestination (.keyID hash) =
      OP_DUP :: OP_HASH160 :: 20 :: (hash ++ [OP_EQUALVERIFY, OP_CHECKSIG]) := rfl
  have hnot : isPayToScriptHash (setDestination (.keyID hash)) = false := by
    rw [hscript]
    simp [isPayToScriptHash, hhash]
  have hkey : matchTemplate dataSize [OP_PUBKEY, OP_CHECKSIG]
      (setDestination (.keyID hash)) = none := by
    rw [hscript, matchTemplate, getOp_of_lt (by decide)]
    rfl
  have hkeyHash : matchTemplate dataSize
      [OP_DUP, OP_HASH160, OP_PUBKEYHASH, OP_EQUALVERIFY, OP_CHECKSIG]
      (setDestination (.keyID hash)) = some [hash] := by
    have hop : matchOp dataSize OP_PUBKEYHASH 20 hash = some [hash] := by
      simp [matchOp, OP_PUBKEYHASH, OP_PUBKEY, hhash]
    rw [hscript, matchTemplate, getOp_of_lt (by decide)]
    change (matchTemplate dataSize [OP_HASH160, OP_PUBKEYHASH, OP_EQUALVERIFY, OP_CHECKSIG] _ >>=
      fun rest => some ([] ++ rest)) = _
    rw [matchTemplate, getOp_of_lt (by decide)]
    change ((matchTemplate dataSize [OP_PUBKEYHASH, OP_EQUALVERIFY, OP_CHECKSIG] _ >>=
      fun rest => some ([] ++ rest)) >>= fun rest => some ([] ++ rest)) = _
    rw [matchTemplate, getOp_push_twenty hhash]
    change (((matchOp dataSize OP_PUBKEYHASH 20 hash >>= fun vSolutions => _) >>= _) >>= _) = _
    rw [hop]
    rfl
  rw [solver, hnot, if_neg (by decide), mTemplates, scanTemplates, hkey]
  dsimp only
  rw [scanTemplates, hkeyHash]
  rfl

theorem solver_setDestination_scriptID {hash : Bytes} (hhash : hash.length = 20) :
    solver dataSize (setDestination (.scriptID hash)) = some (.scriptHash, [hash]) := by
  have hscript : setDestination (.scriptID hash) = OP_HASH160 :: 20 :: (hash ++ [OP_EQUAL]) := rfl
  have hlast : (OP_HASH160 :: 20 :: (hash ++ [OP_EQUAL]))[22]? = some OP_EQUAL := by
    simp [hhash]
  have hpays : isPayToScriptHash (setDestination (.scriptID hash)) = true := by
    rw [hscript, isPayToScriptHash, hlast]
    simp [hhash]
  rw [solver, hpays, if_pos rfl, hscript]
  congr 3
  change (hash ++ [OP_EQUAL]).take 20 = hash
  rw [← hhash, take_left]

theorem extractDestination_setDestination (hhash : dest.hash.length = 20) :
    extractDestination hash160 dataSize (setDestination dest) = some dest := by
  cases dest with
  | keyID hash =>
    have hlength : hash.length = 20 := hhash
    rw [extractDestination, solver_setDestination_keyID hlength]
    rfl
  | scriptID hash =>
    have hlength : hash.length = 20 := hhash
    rw [extractDestination, solver_setDestination_scriptID hlength]
    rfl

theorem matchTemplate_cons (hopcode : opcode2 ≠ OP_PUBKEYS)
    (hmatch : matchTemplate dataSize (opcode2 :: template) script = some vSolutions) :
    ∃ opcode1 vch1 script' front back, matchOp dataSize opcode2 opcode1 vch1 = some front ∧
      matchTemplate dataSize template script' = some back ∧ vSolutions = front ++ back := by
  rw [matchTemplate] at hmatch
  obtain ⟨⟨opcode1, vch1, script'⟩, -, hmatch⟩ := Option.bind_eq_some_iff.mp hmatch
  rw [if_neg hopcode] at hmatch
  obtain ⟨front, hfront, hmatch⟩ := Option.bind_eq_some_iff.mp hmatch
  obtain ⟨back, hback, hmatch⟩ := Option.bind_eq_some_iff.mp hmatch
  exact ⟨opcode1, vch1, script', front, back, hfront, hback, (Option.some.inj hmatch).symm⟩

theorem matchOp_exact (hopcode : opcode2 < OP_SMALLDATA)
    (hmatch : matchOp dataSize opcode2 opcode1 vch1 = some vSolutions) : vSolutions = [] := by
  have hne : ∀ {opcode : UInt8}, OP_SMALLDATA ≤ opcode → opcode2 ≠ opcode := by
    rintro opcode hle rfl
    exact UInt8.not_lt.mpr hle hopcode
  rw [matchOp, if_neg (hne (by decide)), if_neg (hne (by decide)), if_neg (hne (by decide)),
    if_neg (hne (by decide))] at hmatch
  split at hmatch
  · exact (Option.some.inj hmatch).symm
  · cases hmatch

theorem scanTemplates_eq_some
    (hscan : scanTemplates dataSize script templates = some (type, vSolutions)) :
    ∃ template, (type, template) ∈ templates ∧
      matchTemplate dataSize template script = some vSolutions := by
  induction templates with
  | nil => cases hscan
  | cons entry templates ih =>
    obtain ⟨type', template⟩ := entry
    rw [scanTemplates] at hscan
    split at hscan
    · obtain ⟨template', hmem, hmatch⟩ := ih hscan
      exact ⟨template', mem_cons_of_mem _ hmem, hmatch⟩
    rename_i vSolutions' hmatch
    split at hscan
    · cases hscan
    · cases hscan
      exact ⟨template, mem_cons_self, hmatch⟩

theorem solver_pubKeyHash
    (hsolver : solver dataSize scriptPubKey = some (.pubKeyHash, vSolutions)) :
    (vSolutions.headD []).length = 20 := by
  rw [solver] at hsolver
  split at hsolver
  · cases hsolver
  obtain ⟨template, hmem, hmatch⟩ := scanTemplates_eq_some hsolver
  obtain rfl : template = [OP_DUP, OP_HASH160, OP_PUBKEYHASH, OP_EQUALVERIFY, OP_CHECKSIG] := by
    simpa [mTemplates] using hmem
  obtain ⟨_, _, _, _, _, hdup, hmatch₁, rfl⟩ := matchTemplate_cons (by decide) hmatch
  obtain ⟨_, _, _, _, _, hhash, hmatch₂, rfl⟩ := matchTemplate_cons (by decide) hmatch₁
  obtain ⟨_, vch, _, _, _, hkey, -, rfl⟩ := matchTemplate_cons (by decide) hmatch₂
  rw [matchOp_exact (by decide) hdup, matchOp_exact (by decide) hhash]
  rw [matchOp, if_neg (by decide), if_pos rfl] at hkey
  split at hkey
  · rename_i hlength
    rw [← Option.some.inj hkey]
    exact hlength
  · cases hkey

theorem solver_scriptHash
    (hsolver : solver dataSize scriptPubKey = some (.scriptHash, vSolutions)) :
    (vSolutions.headD []).length = 20 := by
  rw [solver] at hsolver
  split at hsolver
  · rename_i hpays
    cases hsolver
    have hlength : scriptPubKey.length = 23 := by
      simp only [isPayToScriptHash, Bool.and_eq_true, beq_iff_eq] at hpays
      exact hpays.1.1.1
    rw [headD_cons, length_take, length_drop]
    omega
  · obtain ⟨template, hmem, -⟩ := scanTemplates_eq_some hsolver
    simp [mTemplates] at hmem

def littleEndianBytes : Nat → Nat → Bytes
  | 0, _ => []
  | width + 1, n => UInt8.ofNat n :: littleEndianBytes width (n / 256)

/-- `CScript::operator<<` for a vector of bytes. -/
def pushData (vch : Bytes) : Bytes :=
  if vch.length < 0x4c then UInt8.ofNat vch.length :: vch
  else if vch.length ≤ 0xff then 0x4c :: (littleEndianBytes 1 vch.length ++ vch)
  else if vch.length ≤ 0xffff then 0x4d :: (littleEndianBytes 2 vch.length ++ vch)
  else 0x4e :: (littleEndianBytes 4 vch.length ++ vch)

theorem littleEndianValue_bytes (hn : n < 256 ^ width) :
    littleEndianValue (littleEndianBytes width n) = n := by
  induction width generalizing n with
  | zero =>
    rw [Nat.pow_zero, Nat.lt_one_iff] at hn
    rw [hn]
    rfl
  | succ width ih =>
    have hrest : n / 256 < 256 ^ width := by
      rw [Nat.pow_succ, Nat.mul_comm] at hn
      exact Nat.div_lt_of_lt_mul hn
    have hstep : littleEndianValue (littleEndianBytes (width + 1) n) =
        (UInt8.ofNat n).toNat + 256 * littleEndianValue (littleEndianBytes width (n / 256)) :=
      rfl
    rw [hstep, ih hrest, UInt8.toNat_ofNat']
    omega

theorem length_littleEndianBytes (width n : Nat) : (littleEndianBytes width n).length = width := by
  induction width generalizing n with
  | zero => rfl
  | succ width ih => rw [littleEndianBytes, length_cons, ih]

theorem getOp_sized (rest : Bytes) (hopcode : opcode ≤ 0x4e) (hlength : vch.length < 256 ^ width)
    (hsize : ∀ bytes : Bytes, width ≤ bytes.length → pushSize opcode bytes = some (littleEndianValue
      (bytes.take width), bytes.drop width)) :
    getOp (opcode :: (littleEndianBytes width vch.length ++ vch) ++ rest) =
      some (opcode, vch, rest) := by
  have hwidth := length_littleEndianBytes width vch.length
  rw [cons_append, append_assoc, getOp, if_pos hopcode,
    hsize _ (by rw [length_append, hwidth]; exact Nat.le_add_right _ _),
    take_left' hwidth, drop_left' hwidth, littleEndianValue_bytes hlength]
  dsimp only
  rw [if_neg (by simp), take_left, drop_left]

theorem getOp_pushData (hlength : vch.length < 2 ^ 32) (rest : Bytes) :
    ∃ opcode, opcode ≤ 0x4e ∧ getOp (pushData vch ++ rest) = some (opcode, vch, rest) := by
  rw [pushData]
  split_ifs with hdirect hone htwo
  · have hnat : (UInt8.ofNat vch.length).toNat = vch.length := by
      rw [UInt8.toNat_ofNat']
      omega
    have hlt : UInt8.ofNat vch.length < 0x4c := by
      rw [UInt8.lt_iff_toNat_lt, hnat]
      exact hdirect
    have hle : UInt8.ofNat vch.length ≤ 0x4e := by
      rw [UInt8.le_iff_toNat_le, hnat]
      exact Nat.le_trans (Nat.le_of_lt hdirect) (by decide)
    refine ⟨_, hle, ?_⟩
    rw [cons_append, getOp, if_pos hle, pushSize, if_pos hlt, hnat]
    dsimp only
    rw [if_neg (by simp), take_left, drop_left]
  · refine ⟨0x4c, by decide, getOp_sized rest (by decide) (by omega) fun bytes hbytes => ?_⟩
    rw [pushSize, if_neg (by decide)]
    exact if_neg (Nat.not_lt.mpr hbytes)
  · refine ⟨0x4d, by decide, getOp_sized rest (by decide) (by omega) fun bytes hbytes => ?_⟩
    rw [pushSize, if_neg (by decide)]
    exact if_neg (Nat.not_lt.mpr hbytes)
  refine ⟨0x4e, by decide, getOp_sized rest (by decide) (by omega) fun bytes hbytes => ?_⟩
  rw [pushSize, if_neg (by decide)]
  exact if_neg (Nat.not_lt.mpr hbytes)

end Bfx.ScriptTemplates
