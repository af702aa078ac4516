import Bfx.CallOutcome

/-!
Hexadecimal text: `boost::algorithm::hex` writes upper-case digits and
`boost::algorithm::unhex` reads digits of either case.
-/

namespace Bfx.HexText

open Bfx.CallOutcome List

abbrev Bytes := List UInt8

def hexDigit (n : Nat) : Char :=
  if n < 10 then Char.ofNat (48 + n) else Char.ofNat (55 + n)

def hexValue (c : Char) : Option Nat :=
  if '0' ≤ c ∧ c ≤ '9' then some (c.toNat - 48)
  else if 'A' ≤ c ∧ c ≤ 'F' then some (c.toNat - 55)
  else if 'a' ≤ c ∧ c ≤ 'f' then some (c.toNat - 87)
  else none

def isHexDigit (c : Char) : Bool := (hexValue c).isSome

def hexChars (bytes : Bytes) : List Char :=
  bytes.flatMap fun b => [hexDigit (b.toNat / 16), hexDigit (b.toNat % 16)]

/-- `boost::algorithm::hex`. -/
def hex (bytes : Bytes) : String := String.ofList (hexChars bytes)

def unhexChars : List Char → Outcome Bytes
  | [] => .ok []
  | [c] =>
    match hexValue c with
    | none => raise "Bad character"
    | some _ => raise "Not enough input"
  | high :: low :: rest =>
    match hexValue high, hexValue low with
    | some h, some l =>
      unhexChars rest >>= fun bytes => .ok (UInt8.ofNat (16 * h + l) :: bytes)
    | _, _ => raise "Bad character"

/-- `boost::algorithm::unhex`. -/
def unhex (text : String) : Outcome Bytes := unhexChars text.toList

def lowerChars (text : List Char) : List Char := text.map Char.toLower

def upperChars (text : List Char) : List Char := text.map Char.toUpper

private theorem hexValue_hexDigit_table :
    ∀ n : Fin 16, hexValue (hexDigit n.val) = some n.val ∧
      hexValue (hexDigit n.val).toLower = some n.val ∧
      hexValue (hexDigit n.val).toUpper = some n.val := by
  decide

theorem hexValue_hexDigit (h : n < 16) : hexValue (hexDigit n) = some n :=
  (hexValue_hexDigit_table ⟨n, h⟩).1

private theorem unhexChars_map (change : Char → Char)
    (hchange : ∀ n, n < 16 → hexValue (change (hexDigit n)) = some n) (bytes : Bytes) :
    unhexChars ((hexChars bytes).map change) = .ok bytes := by
  induction bytes with
  | nil => rfl
  | cons b bytes ih =>
    have hb := b.toNat_lt
    have hhigh := hchange (b.toNat / 16) (by omega)
    have hlow := hchange (b.toNat % 16) (by omega)
    have hvalue : UInt8.ofNat (16 * (b.toNat / 16) + b.toNat % 16) = b := by
      rw [Nat.div_add_mod, UInt8.ofNat_toNat]
    simp only [hexChars, flatMap_cons, map_cons, cons_append, nil_append, unhexChars, hhigh, hlow]
    rw [show (bytes.flatMap fun b => [hexDigit (b.toNat / 16), hexDigit (b.toNat % 16)]) =
      hexChars bytes from rfl, ih, ok_bind, hvalue]

theorem unhexChars_hexChars (bytes : Bytes) : unhexChars (hexChars bytes) = .ok bytes := by
  simpa using unhexChars_map id (fun n hn => hexValue_hexDigit hn) bytes

theorem unhexChars_lowerChars_hexChars (bytes : Bytes) :
    unhexChars (lowerChars (hexChars bytes)) = .ok bytes :=
  unhexChars_map Char.toLower (fun n hn => (hexValue_hexDigit_table ⟨n, hn⟩).2.1) bytes

theorem unhexChars_upperChars_hexChars (bytes : Bytes) :
    unhexChars (upperChars (hexChars bytes)) = .ok bytes :=
  unhexChars_map Char.toUpper (fun n hn => (hexValue_hexDigit_table ⟨n, hn⟩).2.2) bytes

@[simp] theorem unhex_hex (bytes : Bytes) : unhex (hex bytes) = .ok bytes := by
  simp [unhex, hex, unhexChars_hexChars]

theorem unhexChars_eq_ok (h : unhexChars text = .ok bytes) :
    text.length = 2 * bytes.length ∧ text.all isHexDigit = true := by
  fun_induction unhexChars text generalizing bytes with
  | case1 =>
    cases h
    exact ⟨rfl, rfl⟩
  | case2 => simp at h
  | case3 => simp at h
  | case4 high low rest _ _ hhigh hlow ih =>
    obtain ⟨tail, htail, hbytes⟩ := bind_eq_ok.mp h
    cases hbytes
    obtain ⟨hlength, hall⟩ := ih htail
    refine ⟨?_, ?_⟩
    · simp only [length_cons]
      omega
    · simpa only [all_cons, isHexDigit, hhigh, hlow, Option.isSome_some, Bool.true_and] using hall
  | case5 => simp at h

end Bfx.HexText
