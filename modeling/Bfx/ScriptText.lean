import Bfx.HexText

/-!
The text of an output script, as `CScript::ToString` writes it, and the regular
expression that finds the token script in it.
-/

namespace Bfx.ScriptText

open Bfx.HexText

def littleEndianValue (bytes : Bytes) : Nat :=
  bytes.foldr (fun b acc => b.toNat + 256 * acc) 0

/-- The number of size bytes behind a push opcode, and the size itself. -/
def pushSize (opcode : UInt8) (rest : Bytes) : Option (Nat × Bytes) :=
  if opcode < 0x4c then some (opcode.toNat, rest)
  else
    let width := if opcode = 0x4c then 1 else if opcode = 0x4d then 2 else 4
    if rest.length < width then none
    else some (littleEndianValue (rest.take width), rest.drop width)

/-- `GetOp2`: the opcode, its operand and the bytes behind it. -/
def getOp (script : Bytes) : Option (UInt8 × Bytes × Bytes) :=
  match script with
  | [] => none
  | opcode :: rest =>
    if opcode ≤ 0x4e then
      match pushSize opcode rest with
      | none => none
      | some (nSize, rest) =>
        if rest.length < nSize then none
        else some (opcode, rest.take nSize, rest.drop nSize)
    else some (opcode, [], rest)

theorem length_rest_of_pushSize (hsize : pushSize opcode rest = some (nSize, rest')) :
    rest'.length ≤ rest.length := by
  rw [pushSize] at hsize
  split at hsize
  · cases hsize
    exact Nat.le_refl _
  dsimp only at hsize
  generalize (if opcode = 0x4c then 1 else if opcode = 0x4d then 2 else 4) = width at hsize
  split at hsize
  · cases hsize
  cases hsize
  rw [List.length_drop]
  exact Nat.sub_le _ _

theorem length_rest_of_getOp (hop : getOp script = some (opcode, data, rest)) :
    rest.length < script.length := by
  rcases script with _ | ⟨first, script⟩
  · cases hop
  rw [getOp] at hop
  split at hop
  · split at hop
    · cases hop
    rename_i nSize rest' hsize
    have hle := length_rest_of_pushSize hsize
    split at hop
    · cases hop
    obtain ⟨-, -, rfl⟩ : _ ∧ _ ∧ rest'.drop nSize = rest := by simpa using hop
    rw [List.length_drop, List.length_cons]
    omega
  · obtain ⟨-, -, rfl⟩ : _ ∧ _ ∧ script = rest := by simpa using hop
    exact Nat.lt_succ_self _

/-- `CBigNum(vch).getint()` for at most four bytes: little-endian magnitude with
the sign in the top bit. -/
def bigNumInt (vch : Bytes) : Int :=
  let value := littleEndianValue vch
  let sign := 2 ^ (8 * vch.length - 1)
  if vch.length = 0 then 0
  else if value < sign then value
  else -((value - sign : Nat) : Int)

/-- `HexStr` writes lower-case digits. -/
def hexStr (vch : Bytes) : String := String.ofList (lowerChars (hexChars vch))

def valueString (vch : Bytes) : String :=
  if vch.length ≤ 4 then toString (bigNumInt vch) else hexStr vch

/-- Names of the opcodes from `OP_1NEGATE` on, in order. -/
def opNames : List String :=
  ["-1", "OP_RESERVED", "1", "2", "3", "4", "5", "6", "7", "8", "9", "10", "11", "12", "13", "14",
    "15", "16", "OP_NOP", "OP_VER", "OP_IF", "OP_NOTIF", "OP_VERIF", "OP_VERNOTIF", "OP_ELSE",
    "OP_ENDIF", "OP_VERIFY", "OP_RETURN", "OP_TOALTSTACK", "OP_FROMALTSTACK", "OP_2DROP",
    "OP_2DUP", "OP_3DUP", "OP_2OVER", "OP_2ROT", "OP_2SWAP", "OP_IFDUP", "OP_DEPTH", "OP_DROP",
    "OP_DUP", "OP_NIP", "OP_OVER", "OP_PICK", "OP_ROLL", "OP_ROT", "OP_SWAP", "OP_TUCK", "OP_CAT",
    "OP_SUBSTR", "OP_LEFT", "OP_RIGHT", "OP_SIZE", "OP_INVERT", "OP_AND", "OP_OR", "OP_XOR",
    "OP_EQUAL", "OP_EQUALVERIFY", "OP_RESERVED1", "OP_RESERVED2", "OP_1ADD", "OP_1SUB",
    "OP_2MUL", "OP_2DIV", "OP_NEGATE", "OP_ABS", "OP_NOT", "OP_0NOTEQUAL", "OP_ADD", "OP_SUB",
    "OP_MUL", "OP_DIV", "OP_MOD", "OP_LSHIFT", "OP_RSHIFT", "OP_BOOLAND", "OP_BOOLOR",
    "OP_NUMEQUAL", "OP_NUMEQUALVERIFY", "OP_NUMNOTEQUAL", "OP_LESSTHAN", "OP_GREATERTHAN",
    "OP_LESSTHANOREQUAL", "OP_GREATERTHANOREQUAL", "OP_MIN", "OP_MAX", "OP_WITHIN",
    "OP_RIPEMD160", "OP_SHA1", "OP_SHA256", "OP_HASH160", "OP_HASH256", "OP_CODESEPARATOR",
    "OP_CHECKSIG", "OP_CHECKSIGVERIFY", "OP_CHECKMULTISIG", "OP_CHECKMULTISIGVERIFY", "OP_NOP1",
    "OP_CHECKLOCKTIMEVERIFY", "OP_CHECKSEQUENCEVERIFY", "OP_NOP4", "OP_NOP5", "OP_NOP6",
    "OP_NOP7", "OP_NOP8", "OP_NOP9", "OP_NOP10"]

/-- Names of the opcodes that `ToString` does not print as a value. -/
def getOpName (opcode : UInt8) : String :=
  if opcode = 0xf9 then "OP_SMALLDATA"
  else if opcode = 0xff then "OP_INVALIDOPCODE"
  else opNames.getD (opcode.toNat - 0x4f) "OP_UNKNOWN"

/-- The words of the text. Every opcode takes a byte, so the length of the
script is fuel enough. -/
def scriptWords : Nat → Bytes → List String
  | 0, _ => []
  | _, [] => []
  | fuel + 1, script =>
    match getOp script with
    | none => ["[error]"]
    | some (opcode, vch, rest) =>
      (if opcode ≤ 0x4e then valueString vch else getOpName opcode) :: scriptWords fuel rest

def scriptToString (script : Bytes) : String :=
  " ".intercalate (scriptWords script.length script)

def isSpaceChar (c : Char) : Bool :=
  c == ' ' || c == '\t' || c == '\n' || c == '\r' || c == '\x0b' || c == '\x0c'

/-- `boost::regex_match` with `^OP_RETURN\s+(4e54(?:01|03)[a-fA-F0-9]*)$`. The
group starts with a digit, so the white space in front of it is taken whole. -/
def matchBFXTOpReturn (text : String) : Option String :=
  let chars := text.toList
  let tail := chars.drop 9
  let arg := tail.dropWhile isSpaceChar
  if chars.take 9 = "OP_RETURN".toList ∧ arg.length < tail.length ∧
      (arg.take 6 = "4e5401".toList ∨ arg.take 6 = "4e5403".toList) ∧
      (arg.drop 6).all isHexDigit then
    some (String.ofList arg)
  else none

/-- `boost::regex_match` with `^OP_RETURN\s+(.*)$`. -/
def matchesOpReturn (text : String) : Bool :=
  text.toList.take 9 == "OP_RETURN".toList && ((text.toList.drop 9).head?.any isSpaceChar)

theorem matchesOpReturn_of_matchBFXTOpReturn (hmatch : matchBFXTOpReturn text = some arg) :
    matchesOpReturn text = true := by
  rw [matchBFXTOpReturn] at hmatch
  split at hmatch
  · rename_i hparts
    obtain ⟨hfront, hspace, -⟩ := hparts
    rw [matchesOpReturn, hfront, beq_self_eq_true, Bool.true_and]
    rcases htail : text.toList.drop 9 with _ | ⟨c, tail⟩
    · rw [htail] at hspace
      exact absurd hspace (Nat.lt_irrefl _)
    rw [htail] at hspace
    rw [List.head?_cons, Option.any_some]
    refine Classical.by_contradiction fun hc => ?_
    rw [List.dropWhile_cons_of_neg hc] at hspace
    exact Nat.lt_irrefl _ hspace
  · cases hmatch

end Bfx.ScriptText
