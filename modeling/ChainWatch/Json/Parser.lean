import ChainWatch.Json.Basic
import ChainWatch.Text.Digit

/-!
# JSON text, read

A reader takes a value off the front of a text and returns the rest. Values nest at most 127 deep.
-/

namespace ChainWatch.Json

open Text

def maxDepth : Nat := 127

def isBlank (c : Char) : Bool :=
  c = ' ' || c = '\n' || c = '\t' || c = '\r'

def skipBlanks (text : List Char) : List Char :=
  text.dropWhile isBlank

def expect? : List Char → List Char → Option (List Char)
  | [], text => some text
  | c :: rest, d :: text => if c = d then expect? rest text else none
  | _ :: _, [] => none

def hexQuad? : List Char → Option (Nat × List Char)
  | a :: b :: c :: d :: rest => do
    let digits ← [a, b, c, d].mapM digitValue?
    some (ofDigits 16 digits, rest)
  | _ => none

/-- What an escape stands for. A code unit above the basic plane needs its second half. -/
def escaped? : List Char → Option (Char × List Char)
  | '"' :: rest => some ('"', rest)
  | '\\' :: rest => some ('\\', rest)
  | '/' :: rest => some ('/', rest)
  | 'b' :: rest => some (Char.ofNat 8, rest)
  | 'f' :: rest => some (Char.ofNat 12, rest)
  | 'n' :: rest => some ('\n', rest)
  | 'r' :: rest => some ('\r', rest)
  | 't' :: rest => some ('\t', rest)
  | 'u' :: rest => do
    let (unit, rest) ← hexQuad? rest
    if 0xD800 ≤ unit ∧ unit < 0xDC00 then
      match rest with
      | '\\' :: 'u' :: rest =>
        let (second, rest) ← hexQuad? rest
        if 0xDC00 ≤ second ∧ second < 0xE000 then
          some (Char.ofNat (0x10000 + (unit - 0xD800) * 0x400 + (second - 0xDC00)), rest)
        else none
      | _ => none
    else if 0xDC00 ≤ unit ∧ unit < 0xE000 then none
    else some (Char.ofNat unit, rest)
  | _ => none

/-- The characters of a string up to its closing quote. The budget bounds their number. -/
def stringBody? (budget : Nat) (text : List Char) : Option (List Char × List Char) :=
  match budget, text with
  | 0, _ => none
  | _ + 1, [] => none
  | _ + 1, '"' :: rest => some ([], rest)
  | budget + 1, '\\' :: rest => do
    let (c, rest) ← escaped? rest
    let (body, rest) ← stringBody? budget rest
    some (c :: body, rest)
  | budget + 1, c :: rest =>
    if c.toNat < 32 then none
    else do
      let (body, rest) ← stringBody? budget rest
      some (c :: body, rest)

/-- A string whose opening quote has been read. -/
def string? (budget : Nat) (text : List Char) : Option (String × List Char) :=
  (stringBody? budget text).map fun (body, rest) => (String.ofList body, rest)

def digitRun (text : List Char) : List Char × List Char :=
  text.span Char.isDigit

def valueOf (digits : List Char) : Nat :=
  ofDigits 10 (digits.filterMap digitValue?)

/-- Whether a fraction lies within the range of double precision. -/
def inRange (digits : Nat) (exponent : Int) : Bool :=
  let size : Int := (decimal digits).length + exponent
  if digits = 0 ∨ size < 309 then true
  else if 309 < size then false
  else
    let limit := 1 <<< 1024 - 1 <<< 970
    if 0 ≤ exponent then digits * Nat.pow 10 exponent.toNat < limit
    else digits < limit * Nat.pow 10 (-exponent).toNat

/-- The part of a number before the point: no zero in front of other digits. -/
def wholePart? (text : List Char) : Option (List Char × List Char) :=
  match digitRun text with
  | ([], _) => none
  | ('0' :: _ :: _, _) => none
  | run => some run

def fractionPart? : List Char → Option (Option (List Char) × List Char)
  | '.' :: rest =>
    match digitRun rest with
    | ([], _) => none
    | (digits, rest) => some (some digits, rest)
  | text => some (none, text)

def exponentPart? : List Char → Option (Option Int × List Char)
  | c :: rest =>
    if c = 'e' ∨ c = 'E' then
      let (negative, rest) := match rest with
        | '-' :: rest => (true, rest)
        | '+' :: rest => (false, rest)
        | rest => (false, rest)
      match digitRun rest with
      | ([], _) => none
      | (digits, rest) =>
        let n : Int := valueOf digits
        some (some (if negative then -n else n), rest)
    else some (none, c :: rest)
  | [] => some (none, [])

/-- An integer of at most 64 bits, or the fraction that stands in for a longer one. -/
def ofInteger (negative : Bool) (n : Nat) : Number :=
  if negative then
    if n ≠ 0 ∧ isSigned (-(n : Int)) then .integer (-(n : Int)) else .fraction ⟨true, n, 0⟩
  else if n < UInt64.size then .integer n
  else .fraction ⟨false, n, 0⟩

def unsignedNumber? (negative : Bool) (text : List Char) : Option (Number × List Char) := do
  let (whole, rest) ← wholePart? text
  let (behind, rest) ← fractionPart? rest
  let (exponent, rest) ← exponentPart? rest
  match behind, exponent with
  | none, none => if inRange (valueOf whole) 0 then some (ofInteger negative (valueOf whole), rest) else none
  | behind, exponent =>
    let behind := behind.getD []
    let digits := valueOf (whole ++ behind)
    let exponent := exponent.getD 0 - behind.length
    if inRange digits exponent then some (.fraction ⟨negative, digits, exponent⟩, rest) else none

def number? : List Char → Option (Number × List Char)
  | '-' :: rest => unsignedNumber? true rest
  | text => unsignedNumber? false text

mutual

/-- A value at the front of the text, blanks before it skipped. The budget bounds the recursion and the
strings; two for every character of the text and two more are enough. -/
def value? (budget depth : Nat) (text : List Char) : Option (Json × List Char) :=
  match budget with
  | 0 => none
  | budget + 1 =>
    match skipBlanks text with
    | [] => none
    | 'n' :: rest => (expect? "ull".toList rest).map fun rest => (.null, rest)
    | 't' :: rest => (expect? "rue".toList rest).map fun rest => (.bool true, rest)
    | 'f' :: rest => (expect? "alse".toList rest).map fun rest => (.bool false, rest)
    | '"' :: rest => (string? budget rest).map fun (s, rest) => (.string s, rest)
    | '[' :: rest =>
      match depth with
      | 0 => none
      | depth + 1 =>
        match skipBlanks rest with
        | ']' :: rest => some (.array [], rest)
        | rest => (items? budget depth rest).map fun (items, rest) => (.array items, rest)
    | '\x7b' :: rest =>
      match depth with
      | 0 => none
      | depth + 1 =>
        match skipBlanks rest with
        | '\x7d' :: rest => some (.object [], rest)
        | rest => (members? budget depth rest).map fun (members, rest) => (.object members, rest)
    | text => (number? text).map fun (n, rest) => (.number n, rest)

def items? (budget depth : Nat) (text : List Char) : Option (List Json × List Char) :=
  match budget with
  | 0 => none
  | budget + 1 => do
    let (item, rest) ← value? budget depth text
    match skipBlanks rest with
    | ',' :: rest =>
      let (items, rest) ← items? budget depth rest
      some (item :: items, rest)
    | ']' :: rest => some ([item], rest)
    | _ => none

def members? (budget depth : Nat) (text : List Char) :
    Option (List (String × Json) × List Char) :=
  match budget with
  | 0 => none
  | budget + 1 => do
    match skipBlanks text with
    | '"' :: rest =>
      let (name, rest) ← string? budget rest
      match skipBlanks rest with
      | ':' :: rest =>
        let (value, rest) ← value? budget depth rest
        match skipBlanks rest with
        | ',' :: rest =>
          let (members, rest) ← members? budget depth rest
          some ((name, value) :: members, rest)
        | '\x7d' :: rest => some ([(name, value)], rest)
        | _ => none
      | _ => none
    | _ => none

end

def parse? (text : String) : Option Json :=
  let chars := text.toList
  match value? (2 * chars.length + 2) maxDepth chars with
  | some (value, rest) => if (skipBlanks rest).isEmpty then some value else none
  | none => none

theorem parse?_eq_bind (text : String) : parse? text =
    (value? (2 * text.toList.length + 2) maxDepth text.toList).bind fun p =>
      if (skipBlanks p.2).isEmpty then some p.1 else none := by
  rw [parse?]
  cases value? (2 * text.toList.length + 2) maxDepth text.toList <;> rfl

end ChainWatch.Json
