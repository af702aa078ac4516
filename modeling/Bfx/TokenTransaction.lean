import Bfx.ScriptText
import Bfx.TokenScript
import Bfx.Transaction

/-!
Token transactions: the tokens on the inputs and outputs of a standard
transaction. Hashes are parameters, collected in `NodeEnv`.
-/

namespace Bfx.TokenTransaction

open CallOutcome HexText ScriptText Transaction

structure NodeEnv where
  getHash : CTransaction → UInt256
  sha256 : Bytes → Bytes
  ripemd160 : Bytes → Bytes
  encodeBase58Check : Bytes → String
  nBestHeight : Int

structure BFXTTokenTxData where
  tokenId : String
  amount : Nat
  issueTxId : UInt256
  divisibility : Nat
  lockStatus : Bool
  aggregationPolicy : String
  tokenSymbol : Bytes
  deriving DecidableEq, Repr

structure BFXTTxIn where
  prevout : COutPoint
  scriptSigHex : String
  tokens : List BFXTTokenTxData
  deriving DecidableEq, Repr

structure BFXTTxOut where
  nValue : Int
  scriptPubKeyHex : String
  scriptPubKeyAsm : String
  tokens : List BFXTTokenTxData
  deriving DecidableEq, Repr

inductive BFXTTransactionType where
  | unknown
  | notBFXT
  | issuance
  | transfer
  | burn
  deriving DecidableEq, Repr

structure BFXTTransaction where
  txHash : UInt256
  vin : List BFXTTxIn
  vout : List BFXTTxOut
  nLockTime : Nat
  nTime : Nat
  bfxtTransactionType : BFXTTransactionType
  deriving DecidableEq, Repr

def BFXTTransaction.isNull (self : BFXTTransaction) : Bool := self.vin.isEmpty && self.vout.isEmpty

/-- A transaction together with its token data. -/
abbrev InputPair := CTransaction × BFXTTransaction

/-- Token ids with the height from which they are blocked. -/
def bfxtBlacklistedTokenIds : List (String × Int) :=
  [("La77KcJTUj991FnvxNKhrCD1ER8S81T3LgECS6", 300000),
    ("La4kVcoUAddLWkmQU9tBxrNdFjmSaHQruNJW2K", 300000),
    ("La36YNY2G6qgBPj7VSiQDjGCy8aC2GUUsGqtbQ", 300000),
    ("La9wLfpkfZTQvRqyiWjaEpgQStUbCSVMWZW2by", 300000),
    ("La347xkKhi5VUCNDCqxXU4F1RUu8wPvC3pnQk6", 300000),
    ("La531vUwiu9NnvtJcwPEjV84HrdKCupFCCb6D7", 300000),
    ("La5JGnJcSsLCvYWxqqVSyj3VUqsrAcLBjZjbw5", 300000),
    ("La86PtvXGftbwdoZ9rVMKsLQU5nPHganJDsCRq", 300000)]

def isBFXTTokenBlacklisted (tokenId : String) : Option Int :=
  bfxtBlacklistedTokenIds.lookup tokenId

/-- Transactions that the token layer ignores. The table of the main network is
empty. -/
def excludedTxsTestnet : List UInt256 :=
  [0x826e7b74b24e458e39d779b1033567d325b8d93b507282f983e3c4b3f950fca1,
    0xc378447562be04c6803fdb9f829c9ba0dda462b269e15bcfc7fac3b3561d2eef,
    0xa57a3e4746a79dd0d0e32e6a831d4207648ff000c82a4c5e8d9f3b6b0959f8b8,
    0x7e71508abef696d6c0427cc85073e0d56da9380f3d333354c7dd9370acd422bc,
    0xadb421a497e25375a88848b17b5c632a8d60db3d02dcc61dbecd397e6c1fb1ca,
    0xadedc16e0318668e55f08f2a1ea57be8c5a86cfce3c1900346b0337a8f75a390,
    0xbb8f1a29237e64285b9bd1f2bf1500c0de6205e8eb5e004c3b1ab6671e9c4cb2,
    0xcc8f8a763677b8015bf79a19c9bcf87837b734d1cb203b30726af27b75f41a48,
    0x666d81ad74e470ef1c9e74022a8be886e4951a0bec0d27f9b078519a30af71b2,
    0x27bea35b4e2ac8987441aa7c5ff3d305047664ef7244b822cad54e549b84f50b,
    0x59cb6e2cc9649d9a9b806f820a91927dcb0e43d1e1e92b0b9d976e921bba1334,
    0x054cead1a3b498ec845462a1920508698e4f0ab2a71e1f4f8d827d007a43a2f4,
    0x7d211b98e4796e9375233d935eb8d1262d6fb9d79645b576f15ad1b85427facf,
    0xab336eecf51cdaecd3f7444d5da7eca2286462d44e7f3439458ecbe3d7514971,
    0x95c6f2b978160ab0d51545a13a7ee7b931713a52bd1c9f12807f4cd77ff7536b]

def isBFXTTxExcluded (txHash : UInt256) : Bool := excludedTxsTestnet.contains txHash

section Inputs

variable (env : NodeEnv)

def ensureInputsHashesMatch (inputsTxs : List InputPair) : Outcome Unit :=
  if inputsTxs.all fun input => env.getHash input.1 == input.2.txHash then .ok ()
  else raise "Input transactions in the BFXT parser do not have matching hashes."

def ensureInputTokensRelateToTx (tx : CTransaction) (inputsTxs : List InputPair) : Outcome Unit :=
  if inputsTxs.all fun input => tx.vin.any fun txin => txin.prevout.hash == env.getHash input.1 then
    .ok ()
  else
    raise ("An input was included in BFXT transaction parser while it was not " ++
      "being spent by the spending transaction. This is not allowed.")

def getPrevInputIt (tx : CTransaction) (inputTxHash : UInt256) (inputsTxs : List InputPair) :
    Outcome InputPair :=
  match inputsTxs.find? fun input => env.getHash input.1 == inputTxHash with
  | some input => .ok input
  | none =>
    raise ("While reading/parsing BFXT transction: Could not find input related to transaction: "
      ++ (env.getHash tx).toHex ++ " with a prevout hash: " ++ inputTxHash.toHex)

/-- Whether a transaction carries a token script, and which. -/
def isTxBFXT (tx : CTransaction) : Option String :=
  if isBFXTTxExcluded (env.getHash tx) then none
  else tx.vout.findSome? fun txout => matchBFXTOpReturn (scriptToString txout.scriptPubKey)

def readTxIn (txin : CTxIn) : BFXTTxIn := ⟨txin.prevout, hex txin.scriptSig, []⟩

def readTxOut (txout : CTxOut) : BFXTTxOut :=
  ⟨txout.nValue, hex txout.scriptPubKey, scriptToString txout.scriptPubKey, []⟩

def readBFXTDataFromTxMinimal (self : BFXTTransaction) (tx : CTransaction) : BFXTTransaction :=
  { self with
    txHash := env.getHash tx
    vin := tx.vin.map readTxIn
    vout := tx.vout.map readTxOut
    bfxtTransactionType := .notBFXT }

end Inputs

end Bfx.TokenTransaction
