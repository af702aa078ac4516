import Bfx.HexText

/-!
`EncodeBase64` and `DecodeBase64`. Both go through their input one element at a time and keep in
`left` the bits that wait for the next element.
-/

namespace Bfx.Base64Text

open Bfx.HexText

def pbase64 : List Char :=
  ['A', 'B', 'C', 'D', 'E', 'F', 'G', 'H', 'I', 'J', 'K', 'L', 'M', 'N', 'O', 'P',
    'Q', 'R', 'S', 'T', 'U', 'V', 'W', 'X', 'Y', 'Z', 'a', 'b', 'c', 'd', 'e', 'f',
    'g', 'h', 'i', 'j', 'k', 'l', 'm', 'n', 'o', 'p', 'q', 'r', 's', 't', 'u', 'v',
    'w', 'x', 'y', 'z', '0', '1', '2', '3', '4', '5', '6', '7', '8', '9', '+', '/']

def base64Char (n : Nat) : Char := pbase64.getD n 'A'

/-- `mode` counts the bytes since the last whole group of three. -/
def encodeBase64From : Nat → Nat → Bytes → List Char
  | 0, _, [] => []
  | 1, left, [] => [base64Char left, '=', '=']
  | _, left, [] => [base64Char left, '=']
  | 0, _, enc :: rest =>
    base64Char (enc.toNat >>> 2) :: encodeBase64From 1 ((enc.toNat &&& 3) <<< 4) rest
  | 1, left, enc :: rest =>
    base64Char (left ||| enc.toNat >>> 4) ::
      encodeBase64From 2 ((enc.toNat &&& 15) <<< 2) rest
  | _, left, enc :: rest =>
    base64Char (left ||| enc.toNat >>> 6) :: base64Char (enc.toNat &&& 63) ::
      encodeBase64From 0 left rest

def encodeBase64 (bytes : Bytes) : String := String.ofList (encodeBase64From 0 0 bytes)

/-- `decode64_table`, without its entries -1. -/
def base64Value (c : Char) : Option Nat :=
  if 'A' ≤ c ∧ c ≤ 'Z' then some (c.toNat - 65)
  else if 'a' ≤ c ∧ c ≤ 'z' then some (c.toNat - 71)
  else if '0' ≤ c ∧ c ≤ '9' then some (c.toNat + 4)
  else if c = '+' then some 62
  else if c = '/' then some 63
  else none

/-- The loop stops at the first character outside the alphabet. -/
def decodeBase64From : Nat → Nat → List Char → Bytes
  | _, _, [] => []
  | mode, left, c :: rest =>
    match base64Value c with
    | none => []
    | some dec =>
      match mode with
      | 0 => decodeBase64From 1 dec rest
      | 1 => UInt8.ofNat (left <<< 2 ||| dec >>> 4) :: decodeBase64From 2 (dec &&& 15) rest
      | 2 => UInt8.ofNat (left <<< 4 ||| dec >>> 2) :: decodeBase64From 3 (dec &&& 3) rest
      | _ => UInt8.ofNat (left <<< 6 ||| dec) :: decodeBase64From 0 left rest

def decodeBase64 (text : String) : Bytes := decodeBase64From 0 0 text.toList

theorem decodeBase64_encodeBase64 (h : decodeBase64From 0 0 (encodeBase64From 0 0 bytes) = bytes) :
    decodeBase64 (encodeBase64 bytes) = bytes := by
  rw [decodeBase64, encodeBase64, String.toList_ofList]
  exact h

end Bfx.Base64Text
