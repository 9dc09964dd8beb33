import ChainWatch.Address
import ChainWatch.Json.Decode
import ChainWatch.Text.Blank

/-!
# Numbers and bytes as text

A number is given as digits behind an optional radix mark, underscores between digits skipped; a text
without digits denotes zero. Quantities are written in hexadecimal without leading zeros.
-/

namespace ChainWatch

open Text

namespace Word

/-- The radix that a text announces, and the digits behind the mark. -/
def radixMark : List Char → Nat × List Char
  | '0' :: 'x' :: rest => (16, rest)
  | '0' :: 'X' :: rest => (16, rest)
  | '0' :: 'o' :: rest => (8, rest)
  | '0' :: 'O' :: rest => (8, rest)
  | '0' :: 'b' :: rest => (2, rest)
  | '0' :: 'B' :: rest => (2, rest)
  | text => (10, text)

def ofTextBelow? (bound : Nat) (text : List Char) : Option Nat :=
  let (radix, digits) := radixMark text
  ((digits? radix (digits.filter (· != '_'))).map (ofDigits radix)).filter (· < bound)

def ofText? (text : List Char) : Option Word :=
  (ofTextBelow? size text).map (BitVec.ofNat 256)

def quantity (n : Nat) : String :=
  String.ofList ('0' :: 'x' :: hexadecimal n)

/-- A quantity below a bound, as text or as an integer. -/
def ofQuantityBelow? (bound : Nat) : Json.Decoder Nat
  | .string text => ofTextBelow? bound text.toList
  | value => Json.asNatBelow (min bound UInt64.size) value

end Word

def byte? (value : Json) : Option UInt8 :=
  (Json.asNatBelow 256 value).map UInt8.ofNat

namespace Address

/-- Hexadecimal text, or the 20 bytes as numbers. -/
def ofJson? : Json.Decoder Address
  | .string text => ofHex? text.toList
  | .array items => if items.length = 20 then (items.mapM byte?).map ofBytes else none
  | _ => none

end Address

namespace Bytes

def ofJson? : Json.Decoder Bytes
  | .string text => ofHex? text
  | .array items => items.mapM byte?
  | _ => none

end Bytes

end ChainWatch
