import ChainWatch.Text.Digit

/-!
# Bytes and hexadecimal text

A byte is written as two digits. Reading accepts either case and is undone by writing in lower case
(`ofHexDigits?_hexDigits`).
-/

namespace ChainWatch

open Text

abbrev Bytes := List UInt8

namespace Bytes

def hexDigits : Bytes → List Char
  | [] => []
  | b :: rest => digitChar (b.toNat / 16) :: digitChar (b.toNat % 16) :: hexDigits rest

def ofHexDigits? : List Char → Option Bytes
  | [] => some []
  | [_] => none
  | high :: low :: rest => do
    let h ← digitValue? high
    let l ← digitValue? low
    let bytes ← ofHexDigits? rest
    some (UInt8.ofNat (16 * h + l) :: bytes)

/-- Drop the radix mark in front of hexadecimal digits. -/
def dropHexMark : List Char → List Char
  | '0' :: 'x' :: rest => rest
  | '0' :: 'X' :: rest => rest
  | text => text

def toHex (bytes : Bytes) : String :=
  String.ofList ('0' :: 'x' :: bytes.hexDigits)

/-- Bytes from hexadecimal digits, with or without the radix mark. -/
def ofHex? (text : String) : Option Bytes :=
  ofHexDigits? (dropHexMark text.toList)

/-- The number that bytes denote, the most significant byte first. -/
def toNat (bytes : Bytes) : Nat :=
  bytes.foldl (fun n b => n * 256 + b.toNat) 0

/-- The `size` low bytes of a number, the most significant first. -/
def ofNat (size n : Nat) : Bytes :=
  match size with
  | 0 => []
  | size + 1 => ofNat size (n / 256) ++ [UInt8.ofNat n]

def ofString (text : String) : Bytes :=
  text.toUTF8.toList

theorem ofHexDigits?_hexDigits (bytes : Bytes) : ofHexDigits? bytes.hexDigits = some bytes := by
  induction bytes with
  | nil => rfl
  | cons b rest ih =>
    have hb := b.toNat_lt
    simp only [hexDigits, ofHexDigits?, digitValue?_digitChar _ (show b.toNat / 16 < 16 by omega),
      digitValue?_digitChar _ (show b.toNat % 16 < 16 by omega), ih, Option.bind_eq_bind,
      Option.bind_some]
    rw [show 16 * (b.toNat / 16) + b.toNat % 16 = b.toNat by omega]
    simp

@[simp] theorem length_ofNat (size n : Nat) : (ofNat size n).length = size := by
  induction size generalizing n with
  | zero => rfl
  | succ size ih => simp [ofNat, ih]

theorem toNat_append_singleton (bytes : Bytes) (b : UInt8) :
    toNat (bytes ++ [b]) = toNat bytes * 256 + b.toNat := by
  simp [toNat]

theorem toNat_ofNat (size n : Nat) : toNat (ofNat size n) = n % Nat.pow 256 size := by
  induction size generalizing n with
  | zero => simp [ofNat, toNat, Nat.mod_one]
  | succ size ih =>
    have hp : Nat.pow 256 (size + 1) = 256 * Nat.pow 256 size := Nat.pow_succ'
    rw [ofNat, toNat_append_singleton, ih, hp, Nat.mod_mul, UInt8.toNat_ofNat']
    omega

end Bytes

end ChainWatch
