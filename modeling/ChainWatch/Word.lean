import ChainWatch.Bytes

/-!
# Words

The 256-bit words that chain storage and call data are made of, written as 32 bytes with the most
significant byte first.
-/

namespace ChainWatch

abbrev Word := BitVec 256

namespace Word

def size : Nat :=
  UInt64.size * UInt64.size * UInt64.size * UInt64.size

def toBytes (w : Word) : Bytes :=
  Bytes.ofNat 32 w.toNat

/-- The word that bytes denote, cut to its 32 low bytes. -/
def ofBytes (bytes : Bytes) : Word :=
  BitVec.ofNat 256 bytes.toNat

def toHex (w : Word) : String :=
  w.toBytes.toHex

def decimal (w : Word) : String :=
  String.ofList (Text.decimal w.toNat)

@[simp] theorem length_toBytes (w : Word) : w.toBytes.length = 32 :=
  Bytes.length_ofNat 32 _

theorem toNat_lt_size (w : Word) : w.toNat < size :=
  w.isLt

theorem ofBytes_toBytes (w : Word) : ofBytes w.toBytes = w := by
  apply BitVec.eq_of_toNat_eq
  have hs : Nat.pow 256 32 = size := rfl
  rw [ofBytes, toBytes, Bytes.toNat_ofNat, hs, Nat.mod_eq_of_lt w.toNat_lt_size, BitVec.toNat_ofNat]
  exact Nat.mod_eq_of_lt w.isLt

theorem toBytes_injective {v w : Word} (h : v.toBytes = w.toBytes) : v = w := by
  rw [← ofBytes_toBytes v, h, ofBytes_toBytes]

end Word

end ChainWatch
