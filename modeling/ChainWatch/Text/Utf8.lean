import ChainWatch.Bytes

/-!
# UTF-8

Reading bytes as text. Where bytes are no character, the strict reading fails and the lenient one puts
the replacement character in place of each longest beginning of a character.
-/

namespace ChainWatch.Text

/-- A continuation byte within bounds: its six low bits. -/
def continuation? (low high : UInt8) (b : UInt8) : Option Nat :=
  if low ≤ b ∧ b ≤ high then some (b.toNat % 64) else none

/-- The bounds of the byte that follows a leading byte of a longer character, and how many bytes follow
in all. -/
def leading? (b : UInt8) : Option (UInt8 × UInt8 × Nat) :=
  if 0xC2 ≤ b ∧ b ≤ 0xDF then some (0x80, 0xBF, 1)
  else if b = 0xE0 then some (0xA0, 0xBF, 2)
  else if b = 0xED then some (0x80, 0x9F, 2)
  else if 0xE1 ≤ b ∧ b ≤ 0xEF then some (0x80, 0xBF, 2)
  else if b = 0xF0 then some (0x90, 0xBF, 3)
  else if b = 0xF4 then some (0x80, 0x8F, 3)
  else if 0xF1 ≤ b ∧ b ≤ 0xF3 then some (0x80, 0xBF, 3)
  else none

/-- Read on behind a leading byte: the character, or none and how many bytes belong to its beginning. -/
def follow (low high : UInt8) (value taken : Nat) : Nat → Bytes → Option Char × Nat
  | 0, _ => (some (Char.ofNat value), taken)
  | _ + 1, [] => (none, taken)
  | left + 1, b :: rest =>
    match continuation? low high b with
    | none => (none, taken)
    | some v => follow 0x80 0xBF (value * 64 + v) (taken + 1) left rest

/-- The character at the front, or none, and how many bytes it takes. -/
def frontChar (b : UInt8) (rest : Bytes) : Option Char × Nat :=
  if b < 0x80 then (some (Char.ofNat b.toNat), 1)
  else
    match leading? b with
    | none => (none, 1)
    | some (low, high, n) =>
      let value := b.toNat % (if n = 1 then 32 else if n = 2 then 16 else 8)
      follow low high value 1 n rest

/-- The characters of a text, none where bytes are no character. The budget bounds their number. -/
def characters (budget : Nat) (bytes : Bytes) : List (Option Char) :=
  match budget, bytes with
  | 0, _ => []
  | _, [] => []
  | budget + 1, b :: rest =>
    let (c, taken) := frontChar b rest
    c :: characters budget ((b :: rest).drop taken)

def ofUtf8? (bytes : Bytes) : Option String :=
  ((characters bytes.length bytes).mapM id).map String.ofList

/-- The text that bytes encode, with replacement characters where they do not. -/
def ofUtf8 (bytes : Bytes) : String :=
  String.ofList ((characters bytes.length bytes).map (·.getD '\uFFFD'))

end ChainWatch.Text
