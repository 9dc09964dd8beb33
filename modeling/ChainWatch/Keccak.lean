import ChainWatch.Bytes

/-!
# Keccak-256

The sponge over the 1600-bit permutation with a rate of 136 bytes and the padding that starts with
the byte 1. A state is 25 lanes of 64 bits; the lane in column `x` and row `y` has index `x + 5 * y`.
-/

namespace ChainWatch.Keccak

abbrev State := Vector UInt64 25

/-- The lane in a column and a row, both taken modulo five. -/
def lane (s : State) (x y : Nat) : UInt64 :=
  s[x % 5 + 5 * (y % 5)]

def ofLanes (f : Nat → Nat → UInt64) : State :=
  Vector.ofFn fun i => f (i.val % 5) (i.val / 5)

def rotateLeft (v : UInt64) (n : Nat) : UInt64 :=
  if n % 64 = 0 then v
  else (v <<< UInt64.ofNat (n % 64)) ||| (v >>> UInt64.ofNat (64 - n % 64))

def parity (s : State) (x : Nat) : UInt64 :=
  lane s x 0 ^^^ lane s x 1 ^^^ lane s x 2 ^^^ lane s x 3 ^^^ lane s x 4

/-- Add to each lane the parities of two neighbouring columns. -/
def theta (s : State) : State :=
  let parities : Vector UInt64 5 := Vector.ofFn fun x => parity s x.val
  let added : Vector UInt64 5 := Vector.ofFn fun x =>
    parities[(x.val + 4) % 5] ^^^ rotateLeft parities[(x.val + 1) % 5] 1
  ofLanes fun x y => lane s x y ^^^ added[x % 5]

def rotations : Vector Nat 25 :=
  #v[0, 1, 62, 28, 27,
     36, 44, 6, 55, 20,
     3, 10, 43, 25, 39,
     41, 45, 15, 21, 8,
     18, 2, 61, 56, 14]

/-- Rotate each lane and move it to its new place. -/
def rhoPi (s : State) : State :=
  ofLanes fun x y =>
    let u := x + 3 * y
    rotateLeft (lane s u x) rotations[u % 5 + 5 * (x % 5)]

/-- Combine each lane with the two that follow in its row. -/
def chi (s : State) : State :=
  ofLanes fun x y => lane s x y ^^^ ((lane s (x + 1) y ^^^ 0xffffffffffffffff) &&& lane s (x + 2) y)

def iota (constant : UInt64) (s : State) : State :=
  s.set 0 (s[0] ^^^ constant)

def roundConstants : List UInt64 :=
  [0x0000000000000001, 0x0000000000008082, 0x800000000000808a, 0x8000000080008000,
   0x000000000000808b, 0x0000000080000001, 0x8000000080008081, 0x8000000000008009,
   0x000000000000008a, 0x0000000000000088, 0x0000000080008009, 0x000000008000000a,
   0x000000008000808b, 0x800000000000008b, 0x8000000000008089, 0x8000000000008003,
   0x8000000000008002, 0x8000000000000080, 0x000000000000800a, 0x800000008000000a,
   0x8000000080008081, 0x8000000000008080, 0x0000000080000001, 0x8000000080008008]

/-- The permutation: 24 rounds that differ in their constants. -/
def permute (s : State) : State :=
  roundConstants.foldl (fun s constant => iota constant (chi (rhoPi (theta s)))) s

def rate : Nat := 136

/-- A lane from its bytes, the least significant first. -/
def ofLittleEndian (bytes : Bytes) : UInt64 :=
  bytes.foldr (fun b v => v * 256 + b.toUInt64) 0

def toLittleEndian (v : UInt64) : Bytes :=
  (List.range 8).map fun i => (v >>> UInt64.ofNat (8 * i)).toUInt8

def absorbBlock (s : State) (block : Bytes) : State :=
  permute (ofLanes fun x y =>
    let i := x + 5 * y
    lane s x y ^^^ ofLittleEndian ((block.drop (8 * i)).take 8))

/-- Fill up the last block, which has room for at least one byte. -/
def pad (rest : Bytes) : Bytes :=
  if rest.length + 1 = rate then rest ++ [0x81]
  else rest ++ 0x01 :: List.replicate (rate - 2 - rest.length) 0 ++ [0x80]

def absorb (s : State) (message : Bytes) : State :=
  if message.length < rate then absorbBlock s (pad message)
  else absorb (absorbBlock s (message.take rate)) (message.drop rate)
termination_by message.length
decreasing_by
  simp only [List.length_drop, rate] at *
  omega

def digest (message : Bytes) : Bytes :=
  let s := absorb (Vector.replicate 25 0) message
  (List.range 4).flatMap fun x => toLittleEndian (lane s x 0)

end ChainWatch.Keccak
