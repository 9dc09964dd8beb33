import ChainWatch.Json.Parser
import ChainWatch.Toml.Lexeme

/-!
# TOML, numbers

Integers of 64 bits with a sign, in four radices, and fractions. Underscores may stand between two
digits.
-/

namespace ChainWatch.Toml

open Text

/-- The digits of a radix at the front of a text: at least one, underscores between them left out. -/
def digitRun? (radix : Nat) : Reader (List Nat)
  | [] => none
  | c :: rest =>
    match digitIn? radix c with
    | none => none
    | some d =>
      match rest with
      | '_' :: behind => (digitRun? radix behind).map fun (ds, rest) => (d :: ds, rest)
      | rest =>
        match digitRun? radix rest with
        | some (ds, rest) => some (d :: ds, rest)
        | none => some ([d], rest)

/-- The digits of a whole number: no zero in front of others. -/
def wholeRun? (text : List Char) : Option (List Nat × List Char) :=
  match text with
  | '0' :: rest => some ([0], rest)
  | text => digitRun? 10 text

def sign : List Char → Bool × List Char
  | '-' :: rest => (true, rest)
  | '+' :: rest => (false, rest)
  | text => (false, text)

def signed (negative : Bool) (n : Nat) : Int :=
  if negative then -(n : Int) else n

def fitting? (n : Int) : Option Json.Number :=
  if Json.isSigned n then some (.integer n) else none

/-- An integer. Only decimal ones have a sign. -/
def integer? : Reader Json.Number := fun text =>
  let inRadix (radix : Nat) (digits : List Char) := do
    let (ds, rest) ← digitRun? radix digits
    some (← fitting? (ofDigits radix ds), rest)
  match text with
  | '0' :: 'x' :: rest => inRadix 16 rest
  | '0' :: 'o' :: rest => inRadix 8 rest
  | '0' :: 'b' :: rest => inRadix 2 rest
  | text => do
    let (negative, rest) := sign text
    let (ds, rest) ← wholeRun? rest
    some (← fitting? (signed negative (ofDigits 10 ds)), rest)

def fractionRun? : Reader (List Nat)
  | '.' :: rest => digitRun? 10 rest
  | _ => none

def exponent? : Reader Int
  | c :: rest =>
    if c = 'e' ∨ c = 'E' then do
      let (negative, rest) := sign rest
      let (ds, rest) ← digitRun? 10 rest
      some (signed negative (ofDigits 10 ds), rest)
    else none
  | [] => none

/-- A fraction whose size double precision can hold. Of those beyond, the negative ones count as
infinite and the others are refused. -/
def fractionOf? (negative : Bool) (digits : List Nat) (exponent : Int) : Option Json.Number :=
  let n := ofDigits 10 digits
  if Json.inRange n exponent then some (.fraction ⟨negative, n, exponent⟩)
  else if negative then some .notFinite
  else none

def special? (text : List Char) : Option (Json.Number × List Char) :=
  match (sign text).2 with
  | 'i' :: 'n' :: 'f' :: rest => some (.notFinite, rest)
  | 'n' :: 'a' :: 'n' :: rest => some (.notFinite, rest)
  | _ => none

/-- A fraction: with a point, with a power of ten, or both. -/
def fraction? : Reader Json.Number := fun text => do
  let (negative, rest) := sign text
  let (whole, rest) ← wholeRun? rest
  match fractionRun? rest with
  | some (behind, rest) =>
    let (power, rest) := match exponent? rest with
      | some (power, rest) => (power, rest)
      | none => (0, rest)
    some (← fractionOf? negative (whole ++ behind) (power - behind.length), rest)
  | none =>
    let (power, rest) ← exponent? rest
    some (← fractionOf? negative whole power, rest)

def number? : Reader Json.Number := fun text =>
  (special? text).orElse fun _ => (fraction? text).orElse fun _ => integer? text

end ChainWatch.Toml
