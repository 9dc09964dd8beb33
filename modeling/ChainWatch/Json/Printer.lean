import ChainWatch.Json.Basic
import ChainWatch.Text.Digit

/-!
# JSON text, written

The compact form: no blanks, control characters escaped and nothing else but quotes and backslashes.
A fraction is written with a point, in scientific notation when it is very large or very small.
-/

namespace ChainWatch.Json

open Text

def escape (c : Char) : List Char :=
  match c with
  | '"' => ['\\', '"']
  | '\\' => ['\\', '\\']
  | '\n' => ['\\', 'n']
  | '\r' => ['\\', 'r']
  | '\t' => ['\\', 't']
  | c =>
    if c.toNat = 8 then ['\\', 'b']
    else if c.toNat = 12 then ['\\', 'f']
    else if c.toNat < 32 then
      ['\\', 'u', '0', '0', digitChar (c.toNat / 16), digitChar (c.toNat % 16)]
    else [c]

def quoted (text : String) : List Char :=
  '"' :: text.toList.flatMap escape ++ ['"']

def integerText (n : Int) : List Char :=
  if n < 0 then '-' :: decimal n.natAbs else decimal n.natAbs

/-- Take zeros off the end of the digits. The budget bounds how many. -/
def dropTrailingZeros (budget digits : Nat) (exponent : Int) : Nat × Int :=
  match budget with
  | 0 => (digits, exponent)
  | budget + 1 =>
    if digits ≠ 0 ∧ digits % 10 = 0 then dropTrailingZeros budget (digits / 10) (exponent + 1)
    else (digits, exponent)

/-- A fraction: positional from 0.00001 up to sixteen digits before the point. -/
def fractionText (d : Decimal) : List Char :=
  let sign := if d.negative then ['-'] else []
  if d.digits = 0 then sign ++ "0.0".toList
  else
    let (n, exponent) := dropTrailingZeros (decimal d.digits).length d.digits d.exponent
    let text := decimal n
    let point : Int := text.length + exponent
    sign ++
      if 0 ≤ exponent ∧ point ≤ 16 then
        text ++ List.replicate exponent.toNat '0' ++ ".0".toList
      else if 0 < point ∧ point ≤ 16 then
        text.take point.toNat ++ '.' :: text.drop point.toNat
      else if -5 < point ∧ point ≤ 0 then
        "0.".toList ++ List.replicate (-point).toNat '0' ++ text
      else
        let mantissa := match text with
          | [] => []
          | [c] => [c]
          | c :: rest => c :: '.' :: rest
        mantissa ++ 'e' :: integerText (point - 1)

def numberText : Number → List Char
  | .integer n => integerText n
  | .fraction d => fractionText d
  | .notFinite => "null".toList

mutual

def render : Json → List Char
  | .null => "null".toList
  | .bool true => "true".toList
  | .bool false => "false".toList
  | .number n => numberText n
  | .string text => quoted text
  | .array items => '[' :: renderItems items ++ [']']
  | .object members => '\x7b' :: renderMembers members ++ ['\x7d']

def renderItems : List Json → List Char
  | [] => []
  | [item] => render item
  | item :: next :: rest => render item ++ ',' :: renderItems (next :: rest)

def renderMembers : List (String × Json) → List Char
  | [] => []
  | [(name, value)] => quoted name ++ ':' :: render value
  | (name, value) :: next :: rest =>
    quoted name ++ ':' :: render value ++ ',' :: renderMembers (next :: rest)

end

def text (value : Json) : String :=
  String.ofList value.render

end ChainWatch.Json
