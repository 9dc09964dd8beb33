import ChainWatch.Keccak
import ChainWatch.Word

/-!
# Addresses

A contract is known by 20 bytes, the low bytes of a word. The checksummed text carries a digest of the
digits in the case of its letters; reading ignores the case.
-/

namespace ChainWatch

structure Address where
  bits : BitVec 160
  deriving DecidableEq, Repr

namespace Address

def zero : Address := ⟨0⟩

def toBytes (a : Address) : Bytes :=
  Bytes.ofNat 20 a.bits.toNat

/-- The address that bytes denote, cut to the 20 low bytes. -/
def ofBytes (bytes : Bytes) : Address :=
  ⟨BitVec.ofNat 160 bytes.toNat⟩

/-- The address in the low 20 bytes of a word. -/
def ofWord (w : Word) : Address :=
  ⟨w.setWidth 160⟩

def toWord (a : Address) : Word :=
  a.bits.setWidth 256

def toHex (a : Address) : String :=
  a.toBytes.toHex

/-- Put each letter into upper case whose place in the digest holds a digit of eight or more. -/
def raiseLetters : List Char → List Char → List Char
  | c :: digits, d :: digest =>
    (if 8 ≤ (Text.digitValue? d).getD 0 then c.toUpper else c) :: raiseLetters digits digest
  | digits, _ => digits

def checksumDigits (a : Address) : List Char :=
  let digits := a.toBytes.hexDigits
  raiseLetters digits
    (Keccak.digest (digits.map fun c => UInt8.ofNat c.toNat)).hexDigits

def checksum (a : Address) : String :=
  String.ofList ('0' :: 'x' :: a.checksumDigits)

/-- Exactly 40 hexadecimal digits of either case, with or without the radix mark. -/
def ofHex? (text : List Char) : Option Address :=
  let digits := Bytes.dropHexMark text
  if digits.length = 40 then (Bytes.ofHexDigits? digits).map ofBytes else none

theorem ofBytes_toBytes (a : Address) : ofBytes a.toBytes = a := by
  have h : a.bits.toNat < Nat.pow 256 20 := a.bits.isLt
  have hb : BitVec.ofNat 160 a.toBytes.toNat = a.bits := by
    apply BitVec.eq_of_toNat_eq
    rw [toBytes, Bytes.toNat_ofNat, Nat.mod_eq_of_lt h, BitVec.toNat_ofNat]
    exact Nat.mod_eq_of_lt h
  rw [ofBytes, hb]

end Address

end ChainWatch
