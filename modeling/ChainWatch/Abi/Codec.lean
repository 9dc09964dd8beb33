import ChainWatch.Abi.Value
import ChainWatch.Text.Utf8

/-!
# Call data

The layout of values in call data. Each value of a sequence has a place in the head, which is its own
encoding or, for values of varying size, the distance from the start of the sequence to its encoding in
the tail. Everything is aligned to words of 32 bytes.
-/

namespace ChainWatch.Abi

def wordOf (n : Nat) : Bytes :=
  Word.toBytes (BitVec.ofNat 256 n)

/-- Fill up with zero bytes to whole words. -/
def padRight (bytes : Bytes) : Bytes :=
  bytes ++ List.replicate ((32 - bytes.length % 32) % 32) 0

structure Part where
  /-- Whether the encoding is found in the tail. -/
  inTail : Bool
  encoding : Bytes

namespace Part

def headSize (p : Part) : Nat :=
  if p.inTail then 32 else p.encoding.length

/-- The heads and tails of parts, the first tail at a distance from the start of the sequence. -/
def layOut (distance : Nat) : List Part → Bytes × Bytes
  | [] => ([], [])
  | p :: rest =>
    if p.inTail then
      let (heads, tails) := layOut (distance + p.encoding.length) rest
      (wordOf distance ++ heads, p.encoding ++ tails)
    else
      let (heads, tails) := layOut distance rest
      (p.encoding ++ heads, tails)

def headsSize : List Part → Nat
  | [] => 0
  | p :: rest => p.headSize + headsSize rest

def assemble (parts : List Part) : Bytes :=
  let (heads, tails) := layOut (headsSize parts) parts
  heads ++ tails

end Part

namespace Value

mutual

/-- Whether a value takes a varying number of bytes. -/
def isDynamic : Value → Bool
  | .bytes _ => true
  | .string _ => true
  | .array _ => true
  | .fixedArray items => anyDynamic items
  | .tuple items => anyDynamic items
  | _ => false

def anyDynamic : List Value → Bool
  | [] => false
  | item :: rest => item.isDynamic || anyDynamic rest

end

mutual

def encode : Value → Bytes
  | .bool b => wordOf (if b then 1 else 0)
  | .int w _ => w.toBytes
  | .uint w _ => w.toBytes
  | .fixedBytes w _ => w.toBytes
  | .address a => a.toWord.toBytes
  | .function code => padRight code
  | .bytes content => wordOf content.length ++ padRight content
  | .string text =>
    let content := Bytes.ofString text
    wordOf content.length ++ padRight content
  | .array items => wordOf items.length ++ Part.assemble (parts items)
  | .fixedArray items => Part.assemble (parts items)
  | .tuple items => Part.assemble (parts items)

def parts : List Value → List Part
  | [] => []
  | item :: rest => ⟨item.isDynamic, item.encode⟩ :: parts rest

end

def encodeAll (values : List Value) : Bytes :=
  Part.assemble (parts values)

end Value

namespace SolType

mutual

def isDynamic : SolType → Bool
  | .bytes => true
  | .string => true
  | .array _ => true
  | .fixedArray item _ => item.isDynamic
  | .tuple items => anyDynamic items
  | _ => false

def anyDynamic : List SolType → Bool
  | [] => false
  | item :: rest => item.isDynamic || anyDynamic rest

end

def wordAt? (base : Bytes) (place : Nat) : Option Bytes :=
  let word := (base.drop place).take 32
  if word.length = 32 then some word else none

def natAt? (base : Bytes) (place : Nat) : Option Nat :=
  (wordAt? base place).map Bytes.toNat

/-- Where the encoding begins whose distance stands at a place. -/
def tailAt? (base : Bytes) (place : Nat) : Option Bytes := do
  let distance ← natAt? base place
  if distance ≤ base.length then some (base.drop distance) else none

def content? (base : Bytes) : Option Bytes := do
  let size ← natAt? base 0
  let rest := base.drop 32
  if size ≤ rest.length then some (rest.take size) else none

def repeat? (decode : Nat → Option (Value × Nat)) : Nat → Nat → Option (List Value × Nat)
  | 0, place => some ([], place)
  | n + 1, place => do
    let (v, place) ← decode place
    let (vs, place) ← repeat? decode n place
    some (v :: vs, place)

mutual

/-- Decode the value whose head stands at a place; the place behind its head follows. -/
def decode? : SolType → Bytes → Nat → Option (Value × Nat)
  | .bool, base, place => (natAt? base place).map fun n => (.bool (n != 0), place + 32)
  | .int bits, base, place =>
    (wordAt? base place).map fun w => (.int (.ofBytes w) bits, place + 32)
  | .uint bits, base, place =>
    (wordAt? base place).map fun w => (.uint (.ofBytes w) bits, place + 32)
  | .fixedBytes size, base, place =>
    (wordAt? base place).map fun w => (.fixedBytes (.ofBytes w) size, place + 32)
  | .address, base, place =>
    (wordAt? base place).map fun w => (.address (.ofBytes w), place + 32)
  | .function, base, place => (wordAt? base place).map fun w => (.function (w.take 24), place + 32)
  | .bytes, base, place => do
    let content ← content? (← tailAt? base place)
    some (.bytes content, place + 32)
  | .string, base, place => do
    let content ← content? (← tailAt? base place)
    some (.string (Text.ofUtf8 content), place + 32)
  | .array item, base, place => do
    let tail ← tailAt? base place
    let size ← natAt? tail 0
    let members := tail.drop 32
    if members.length / 32 < size then none
    else
      let (vs, _) ← repeat? (decode? item members) size 0
      some (.array vs, place + 32)
  | .fixedArray item size, base, place =>
    if item.isDynamic then do
      let tail ← tailAt? base place
      let (vs, _) ← repeat? (decode? item tail) size 0
      some (.fixedArray vs, place + 32)
    else do
      let (vs, place) ← repeat? (decode? item base) size place
      some (.fixedArray vs, place)
  | .tuple items, base, place =>
    if anyDynamic items then do
      let tail ← tailAt? base place
      let (vs, _) ← decodeAll? items tail 0
      some (.tuple vs, place + 32)
    else do
      let (vs, place) ← decodeAll? items base place
      some (.tuple vs, place)

def decodeAll? : List SolType → Bytes → Nat → Option (List Value × Nat)
  | [], _, place => some ([], place)
  | t :: types, base, place => do
    let (v, place) ← decode? t base place
    let (vs, place) ← decodeAll? types base place
    some (v :: vs, place)

end

end SolType

end ChainWatch.Abi
