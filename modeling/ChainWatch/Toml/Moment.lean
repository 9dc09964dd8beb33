import ChainWatch.Toml.Lexeme

/-!
# TOML, dates and times

A date, a time of day, or both with or without an offset. They are kept as text in one form: a `T`
between date and time, and no zeros at the end of the fraction of a second.
-/

namespace ChainWatch.Toml

open Text

/-- A number of exactly so many digits, within bounds. -/
def fixedNumber? (digits low high : Nat) (text : List Char) : Option (Nat × List Char) := do
  let front := text.take digits
  if front.length ≠ digits then none
  else
    let n := ofDigits 10 (← digits? 10 front)
    if low ≤ n ∧ n ≤ high then some (n, text.drop digits) else none

def mark? (c : Char) : List Char → Option (List Char)
  | d :: rest => if c = d then some rest else none
  | [] => none

def daysIn (year month : Nat) : Nat :=
  let leap := year % 4 = 0 ∧ (year % 100 ≠ 0 ∨ year % 400 = 0)
  if month = 2 then if leap then 29 else 28
  else if month = 4 ∨ month = 6 ∨ month = 9 ∨ month = 11 then 30
  else 31

def padded (width n : Nat) : String :=
  let digits := decimal n
  String.ofList (List.replicate (width - digits.length) '0' ++ digits)

def date? : Reader String := fun text => do
  let (year, rest) ← fixedNumber? 4 0 9999 text
  let (month, rest) ← fixedNumber? 2 1 12 (← mark? '-' rest)
  let (day, rest) ← fixedNumber? 2 1 31 (← mark? '-' rest)
  if daysIn year month < day then none
  else some (padded 4 year ++ "-" ++ padded 2 month ++ "-" ++ padded 2 day, rest)

/-- The fraction of a second with the point before it, to nine digits; empty when there is none. -/
def subsecond? : Reader String
  | '.' :: rest =>
    let digits := rest.takeWhile Char.isDigit
    if digits.isEmpty then none
    else
      let kept := (digits.take 9).reverse.dropWhile (· = '0') |>.reverse
      let text := if kept.isEmpty then "" else "." ++ String.ofList kept
      some (text, rest.dropWhile Char.isDigit)
  | text => some ("", text)

def timeOfDay? : Reader String := fun text => do
  let (hour, rest) ← fixedNumber? 2 0 23 text
  let (minute, rest) ← fixedNumber? 2 0 59 (← mark? ':' rest)
  let (second, rest) ← fixedNumber? 2 0 60 (← mark? ':' rest)
  let (fraction, rest) ← subsecond? rest
  some (padded 2 hour ++ ":" ++ padded 2 minute ++ ":" ++ padded 2 second ++ fraction, rest)

/-- An offset from universal time; empty when there is none. An offset of nothing is written with a
plus sign. -/
def offset? : Reader String
  | 'Z' :: rest => some ("Z", rest)
  | 'z' :: rest => some ("Z", rest)
  | c :: rest =>
    if c = '+' ∨ c = '-' then do
      let (hour, rest) ← fixedNumber? 2 0 23 rest
      let (minute, rest) ← fixedNumber? 2 0 59 (← mark? ':' rest)
      let mark := if c = '-' ∧ (hour ≠ 0 ∨ minute ≠ 0) then "-" else "+"
      some (mark ++ padded 2 hour ++ ":" ++ padded 2 minute, rest)
    else some ("", c :: rest)
  | [] => some ("", [])

def timeBehind? (text : List Char) : Option (String × List Char) :=
  match text with
  | c :: rest =>
    if c = 'T' ∨ c = 't' ∨ c = ' ' then do
      let (time, rest) ← timeOfDay? rest
      let (offset, rest) ← offset? rest
      some ("T" ++ time ++ offset, rest)
    else none
  | [] => none

def moment? : Reader String := fun text =>
  match date? text with
  | some (date, rest) =>
    match timeBehind? rest with
    | some (time, rest) => some (date ++ time, rest)
    | none => some (date, rest)
  | none => timeOfDay? text

end ChainWatch.Toml
