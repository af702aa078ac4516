import Bfx.HexText

/-!
Standard transactions, as far as the token layer and the value rules read them.
-/

namespace Bfx.Transaction

open CallOutcome HexText

abbrev UInt256 := BitVec 256

structure COutPoint where
  hash : UInt256
  n : Nat
  deriving DecidableEq, Repr

def COutPoint.isNull (prevout : COutPoint) : Bool :=
  prevout.hash == 0 && prevout.n == 2 ^ 32 - 1

structure CTxIn where
  prevout : COutPoint
  scriptSig : Bytes
  deriving DecidableEq, Repr

structure CTxOut where
  nValue : Int
  scriptPubKey : Bytes
  deriving DecidableEq, Repr

def CTxOut.isEmpty (txout : CTxOut) : Bool :=
  txout.nValue == 0 && txout.scriptPubKey.isEmpty

structure CTransaction where
  nTime : Nat
  vin : List CTxIn
  vout : List CTxOut
  nLockTime : Nat
  deriving DecidableEq, Repr

def CENT : Int := 1000000

def COIN : Int := 100000000

def MAX_MONEY : Int := 2 ^ 63 - 1

def moneyRange (nValue : Int) : Bool := 0 ≤ nValue && nValue ≤ MAX_MONEY

def getValueOutFrom (nValueOut : Int) : List CTxOut → Outcome Int
  | [] => .ok nValueOut
  | txout :: vout =>
    if !moneyRange txout.nValue || !moneyRange (nValueOut + txout.nValue) then
      raise "CTransaction::GetValueOut() : value out of range"
    else getValueOutFrom (nValueOut + txout.nValue) vout

def getValueOut (tx : CTransaction) : Outcome Int := getValueOutFrom 0 tx.vout

theorem getValueOutFrom_eq_ok (hvalue : getValueOutFrom start vout = .ok nValueOut)
    (hstart : moneyRange start = true) :
    (∀ txout ∈ vout, 0 ≤ txout.nValue) ∧ nValueOut = start + (vout.map (·.nValue)).sum ∧
      moneyRange nValueOut = true := by
  induction vout generalizing start with
  | nil =>
    cases hvalue
    exact ⟨nofun, by simp, hstart⟩
  | cons txout vout ih =>
    rw [getValueOutFrom] at hvalue
    split at hvalue
    · cases hvalue
    rename_i hrange
    simp only [Bool.or_eq_true, Bool.not_eq_true', not_or, Bool.not_eq_false] at hrange
    obtain ⟨hnonneg, hsum, hmoney⟩ := ih hvalue hrange.2
    simp only [moneyRange, Bool.and_eq_true, decide_eq_true_eq] at hrange
    refine ⟨List.forall_mem_cons.mpr ⟨hrange.1.1, hnonneg⟩, ?_, hmoney⟩
    rw [hsum, List.map_cons, List.sum_cons]
    ring

theorem getValueOut_eq_ok (hvalue : getValueOut tx = .ok nValueOut) :
    nValueOut = (tx.vout.map (·.nValue)).sum ∧ moneyRange nValueOut = true := by
  have hvalue' := (getValueOutFrom_eq_ok hvalue (by decide)).2
  rwa [Int.zero_add] at hvalue'

def isCoinBase (tx : CTransaction) : Bool :=
  match tx.vin with
  | [txin] => txin.prevout.isNull && 1 ≤ tx.vout.length
  | _ => false

def isCoinStake (tx : CTransaction) : Bool :=
  match tx.vin, tx.vout with
  | txin :: _, first :: _ :: _ => !txin.prevout.isNull && first.isEmpty
  | _, _ => false

/-- Trailing zeros are dropped from the end, but two decimals stay. -/
def trimZeros : List Char → List Char
  | '0' :: b :: c :: rest =>
    if c.isDigit then trimZeros (b :: c :: rest) else '0' :: b :: c :: rest
  | text => text

def formatMoney (n : Int) : String :=
  let quotient := n.natAbs / 100000000
  let remainder := (toString (n.natAbs % 100000000)).toList
  let decimals := List.replicate (8 - remainder.length) '0' ++ remainder
  let str := (toString quotient).toList ++ '.' :: decimals
  String.ofList ((if n < 0 then ['-'] else []) ++ (trimZeros str.reverse).reverse)

example : formatMoney (-1250000000) = "-12.50" := by decide

end Bfx.Transaction
