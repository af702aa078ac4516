import Bfx.TokenTransaction

/-!
Blocks, the index of transactions and the node state that block validation
reads. What other parts of the node compute (hashes, serialized sizes,
signatures, the token inputs of a transaction) is a parameter, collected in
`ChainEnv`; the database is `CTxDB`.
-/

namespace Bfx.ChainIndex

open CallOutcome HexText ScriptText TokenTransaction Transaction

section Verdicts

/-- The ways in which a check does not return true. -/
inductive Refusal where
  /-- `return false`, with the text for `error` and the penalty for `DoS`. -/
  | returned (nDoS : Nat) (message : Option String)
  | thrown (what : String)
  | outOfBounds (storage : Storage)
  | assertFailed
  deriving DecidableEq, Repr

abbrev Verdict (α : Type) := Except Refusal α

/-- `return error(message)`. -/
def Refusal.logged (message : String) : Refusal := .returned 0 (some message)

/-- `return DoS(nDoS, error(message))`. -/
def Refusal.dos (nDoS : Nat) (message : String) : Refusal := .returned nDoS (some message)

/-- `return false`. -/
def Refusal.silent : Refusal := .returned 0 none

/-- `if (!condition) return ...`. -/
def ensure (condition : Prop) [Decidable condition] (refusal : Refusal) : Verdict Unit :=
  if condition then .ok () else .error refusal

variable {α : Type}

/-- A call whose exceptions are not caught. -/
def ofCall : Outcome α → Verdict α
  | .ok a => .ok a
  | .error (.thrown what) => .error (.thrown what)
  | .error (.outOfBounds storage) => .error (.outOfBounds storage)

/-- A call whose exceptions are reported behind a text. -/
def catchCall (text : String) : Outcome α → Verdict α
  | .ok a => .ok a
  | .error (.thrown what) => .error (.logged (text ++ what ++ "\n"))
  | .error (.outOfBounds storage) => .error (.outOfBounds storage)

theorem ensure_eq_ok [Decidable condition] : ensure condition refusal = .ok u ↔ condition := by
  rw [ensure]
  split
  · rename_i h
    exact ⟨fun _ => h, fun _ => rfl⟩
  · rename_i h
    exact ⟨fun hok => (nomatch hok), fun hc => absurd hc h⟩

theorem ofCall_eq_ok : ofCall x = .ok a ↔ x = .ok a := by
  rcases x with (_ | _) | _
  · simp [ofCall]
  · simp [ofCall]
  · simp [ofCall]

theorem catchCall_eq_ok : catchCall text x = .ok a ↔ x = .ok a := by
  rcases x with (_ | _) | _
  · simp [catchCall]
  · simp [catchCall]
  · simp [catchCall]

end Verdicts

structure CDiskTxPos where
  nBlockPos : UInt256
  nTxPos : Nat
  deriving DecidableEq, Repr

def CDiskTxPos.null : CDiskTxPos := ⟨0, 2 ^ 32 - 1⟩

def CDiskTxPos.isNull (pos : CDiskTxPos) : Bool := pos.nTxPos == 2 ^ 32 - 1

def CDiskTxPos.toText (pos : CDiskTxPos) : String :=
  if pos.isNull then "null"
  else "(nBlockPos=" ++ pos.nBlockPos.toHex ++ ", nTxPos=" ++ toString pos.nTxPos ++ ")"

structure CTxIndex where
  pos : CDiskTxPos
  vSpent : List CDiskTxPos
  deriving DecidableEq, Repr

def CTxIndex.new (pos : CDiskTxPos) (nOutputs : Nat) : CTxIndex :=
  ⟨pos, List.replicate nOutputs .null⟩

abbrev MapPrevTx := UInt256 → Option (CTxIndex × CTransaction)

structure CBlockIndex where
  blockKeyInDB : UInt256
  nHeight : Int
  nMint : Int
  nMoneySupply : Int
  deriving DecidableEq, Repr

structure CBlock where
  nVersion : Int
  hashPrevBlock : UInt256
  hashMerkleRoot : UInt256
  nTime : Nat
  nBits : Nat
  nNonce : Nat
  vtx : List CTransaction
  vchBlockSig : Bytes
  deriving DecidableEq, Repr

structure CTxDB where
  readTxIndex : UInt256 → Option CTxIndex
  readTx : CDiskTxPos → Option CTransaction
  /-- The time in the header of a stored block. -/
  readBlockTime : UInt256 → Option Int
  /-- Whether the writes at the end of `ConnectBlock` succeed. -/
  writeBlockIndex : CBlockIndex → Bool
  updateTxIndex : (UInt256 → Option CTxIndex) → Bool

section Environment

inductive NetworkFork where
  | firstOne
  | confsChange
  | tachyon
  | retargetCorrection
  deriving DecidableEq, Repr

def forksToBlockMap (fTestNet : Bool) : NetworkFork → Int
  | .firstOne => 0
  | .confsChange => if fTestNet then 2 ^ 31 - 1 else 1
  | .tachyon => if fTestNet then 110100 else 2
  | .retargetCorrection => if fTestNet then 1163000 else 1003125

structure ChainEnv extends NodeEnv where
  fTestNet : Bool
  getAdjustedTime : Int
  getTotalBlocksEstimate : Int
  hashPair : UInt256 → UInt256 → UInt256
  getBlockHash : CBlock → UInt256
  getSerializeSize : CTransaction → Nat
  txToString : CTransaction → String
  checkProofOfWork : CBlock → Bool
  checkBlockSignature : CBlock → Bool
  verifySignature : CTransaction → CTransaction → Nat → Bool → Bool
  mempoolLookup : UInt256 → Option CTransaction
  getAllBFXTInputsOfTx : CTransaction → (UInt256 → Option (List InputPair)) →
    (UInt256 → Option CTxIndex) → Outcome (List InputPair)
  assertIssuanceUniquenessInBlock : (Bytes → Option UInt256) → CTransaction →
    (UInt256 → Option (List InputPair)) → (UInt256 → Option CTxIndex) →
    Outcome (Bytes → Option UInt256)
  writeBFXTBlockTransactionsToDisk : List CTransaction → Outcome Unit

variable (env : ChainEnv)

def ChainEnv.isForkActivated (fork : NetworkFork) : Bool :=
  env.nBestHeight ≥ forksToBlockMap env.fTestNet fork

def MAX_BLOCK_SIZE : Nat := 1000000

def OLD_MAX_BLOCK_SIZE : Nat := 1000000

def MAX_BLOCK_SIGOPS : Nat := OLD_MAX_BLOCK_SIZE / 50

def maxBlockSize : Nat :=
  if env.isForkActivated .tachyon then MAX_BLOCK_SIZE else OLD_MAX_BLOCK_SIZE

def coinbaseMaturity : Int :=
  if env.isForkActivated .tachyon then 120
  else if env.fTestNet then 10
  else if env.isForkActivated .confsChange then 10
  else 120

def stakeMinAge : Int :=
  if env.fTestNet && !env.isForkActivated .tachyon then 60 else 2 * 24 * 60 * 60

def futureDrift (nTime : Int) : Int := nTime + 10 * 60

end Environment

/-- The loop of `GetSigOpCount`; the length of the script is fuel enough. -/
def getSigOpCountFrom (fAccurate : Bool) : Nat → UInt8 → Bytes → Nat
  | 0, _, _ => 0
  | fuel + 1, lastOpcode, script =>
    match getOp script with
    | none => 0
    | some (opcode, _, rest) =>
      let n :=
        -- OP_CHECKSIG, OP_CHECKSIGVERIFY, OP_CHECKMULTISIG, OP_CHECKMULTISIGVERIFY
        if opcode = 0xac ∨ opcode = 0xad then 1
        else if opcode = 0xae ∨ opcode = 0xaf then
          if fAccurate ∧ 0x51 ≤ lastOpcode ∧ lastOpcode ≤ 0x60 then lastOpcode.toNat - 0x50
          else 20
        else 0
      n + getSigOpCountFrom fAccurate fuel opcode rest

def getSigOpCount (script : Bytes) (fAccurate : Bool) : Nat :=
  getSigOpCountFrom fAccurate script.length 0xff script

/-- The last item that a script pushes, if it has only pushes. -/
def lastPush : Nat → Bytes → Bytes → Option Bytes
  | _, data, [] => some data
  | 0, _, _ => none
  | fuel + 1, _, script =>
    match getOp script with
    | none => none
    | some (opcode, data, rest) => if opcode > 0x60 then none else lastPush fuel data rest

def isPayToScriptHash (script : Bytes) : Bool :=
  script.length == 23 && script[0]? == some 0xa9 && script[1]? == some 0x14 &&
    script[22]? == some 0x87

def getSigOpCountOf (scriptPubKey scriptSig : Bytes) : Nat :=
  if !isPayToScriptHash scriptPubKey then getSigOpCount scriptPubKey true
  else
    match lastPush scriptSig.length [] scriptSig with
    | none => 0
    | some subscript => getSigOpCount subscript true

def getLegacySigOpCount (tx : CTransaction) : Nat :=
  (tx.vin.map fun txin => getSigOpCount txin.scriptSig false).sum +
    (tx.vout.map fun txout => getSigOpCount txout.scriptPubKey false).sum

end Bfx.ChainIndex
