import ChainWatch.Text.Digit

/-!
# TOML, characters and strings

A reader takes something off the front of a text and returns the rest. Strings come in four forms:
basic ones with escapes and literal ones without, each on one line or on several.
-/

namespace ChainWatch.Toml

open Text

abbrev Reader (α : Type) := List Char → Option (α × List Char)

/-- Whether a character may stand in a comment or, quotes and backslashes apart, in a string of one
line. Tabs may, other control characters may not. -/
def isPlain (c : Char) : Bool :=
  c = '\t' || (0x20 ≤ c.toNat && c.toNat ≠ 0x7F)

def isBlank (c : Char) : Bool :=
  c = ' ' || c = '\t'

def skipBlanks (text : List Char) : List Char :=
  text.dropWhile isBlank

/-- What follows a line break: a line feed, or a carriage return and a line feed. -/
def newline? : List Char → Option (List Char)
  | '\n' :: rest => some rest
  | '\r' :: '\n' :: rest => some rest
  | _ => none

def skipComment : List Char → List Char
  | '#' :: rest => rest.dropWhile isPlain
  | text => text

/-- What follows the end of a line, blanks and a comment before it skipped. -/
def lineEnd? (text : List Char) : Option (List Char) :=
  match skipComment (skipBlanks text) with
  | [] => some []
  | rest => newline? rest

/-- Skip blanks, line breaks and comments. The budget bounds the number of lines. -/
def skipLines (budget : Nat) (text : List Char) : List Char :=
  match budget with
  | 0 => text
  | budget + 1 =>
    let rest := skipComment (skipBlanks text)
    match newline? rest with
    | some rest => skipLines budget rest
    | none => rest

def skipFiller (text : List Char) : List Char :=
  skipLines (text.length + 1) text

def codePoint? (digits : Nat) (text : List Char) : Option (Char × List Char) := do
  let front := text.take digits
  if front.length ≠ digits then none
  else
    let n := ofDigits 16 (← digits? 16 front)
    if n.isValidChar then some (Char.ofNat n, text.drop digits) else none

def escaped? : Reader Char
  | 'b' :: rest => some (Char.ofNat 8, rest)
  | 't' :: rest => some ('\t', rest)
  | 'n' :: rest => some ('\n', rest)
  | 'f' :: rest => some (Char.ofNat 12, rest)
  | 'r' :: rest => some ('\r', rest)
  | '"' :: rest => some ('"', rest)
  | '\\' :: rest => some ('\\', rest)
  | 'u' :: rest => codePoint? 4 rest
  | 'U' :: rest => codePoint? 8 rest
  | _ => none

def basicBody? (budget : Nat) (text : List Char) : Option (List Char × List Char) :=
  match budget, text with
  | 0, _ => none
  | _, [] => none
  | _ + 1, '"' :: rest => some ([], rest)
  | budget + 1, '\\' :: rest => do
    let (c, rest) ← escaped? rest
    let (body, rest) ← basicBody? budget rest
    some (c :: body, rest)
  | budget + 1, c :: rest =>
    if isPlain c then (basicBody? budget rest).map fun (body, rest) => (c :: body, rest) else none

def literalBody? : Reader (List Char)
  | [] => none
  | '\'' :: rest => some ([], rest)
  | c :: rest =>
    if isPlain c then (literalBody? rest).map fun (body, rest) => (c :: body, rest) else none

/-- Whether a run of quotes ends a string of several lines, and how many of them belong to it. -/
def closing? (quotes : Nat) : Option Nat :=
  if 3 ≤ quotes ∧ quotes ≤ 5 then some (quotes - 3) else none

/-- What follows a backslash at the end of a line: blanks and line breaks are skipped. -/
def joinedLine? (text : List Char) : Option (List Char) :=
  (newline? (skipBlanks text)).map fun rest =>
    rest.dropWhile fun c => isBlank c || c = '\n' || c = '\r'

/-- The rest of a string of several lines. A line break counts as a line feed. -/
def linesBody? (quote : Char) (escapes : Bool) (budget : Nat) (text : List Char) :
    Option (List Char × List Char) :=
  match budget, text with
  | 0, _ => none
  | _, [] => none
  | budget + 1, c :: rest =>
    if c = quote then
      let run := (c :: rest).takeWhile (· = quote)
      let behind := (c :: rest).dropWhile (· = quote)
      match closing? run.length with
      | some kept => some (run.take kept, behind)
      | none =>
        if 3 ≤ run.length then none
        else (linesBody? quote escapes budget behind).map fun (body, rest) => (run ++ body, rest)
    else if escapes && c = '\\' then
      match joinedLine? rest with
      | some rest => linesBody? quote escapes budget rest
      | none => do
        let (c, rest) ← escaped? rest
        let (body, rest) ← linesBody? quote escapes budget rest
        some (c :: body, rest)
    else
      match newline? (c :: rest) with
      | some rest =>
        (linesBody? quote escapes budget rest).map fun (body, rest) => ('\n' :: body, rest)
      | none =>
        if isPlain c then
          (linesBody? quote escapes budget rest).map fun (body, rest) => (c :: body, rest)
        else none

/-- A string of several lines, its opening quotes read. A line break right behind them is dropped. -/
def linesString? (quote : Char) (escapes : Bool) : Reader (List Char) := fun text =>
  let text := (newline? text).getD text
  linesBody? quote escapes (text.length + 1) text

def string? : Reader String := fun text =>
  let body := match text with
    | '"' :: '"' :: '"' :: rest => linesString? '"' true rest
    | '\'' :: '\'' :: '\'' :: rest => linesString? '\'' false rest
    | '"' :: rest => basicBody? (rest.length + 1) rest
    | '\'' :: rest => literalBody? rest
    | _ => none
  body.map fun (chars, rest) => (String.ofList chars, rest)

def isBare (c : Char) : Bool :=
  c.isAlphanum || c = '_' || c = '-'

/-- One part of a key: bare, or a string of one line. -/
def keyPart? : Reader String
  | '"' :: rest =>
    (basicBody? (rest.length + 1) rest).map fun (chars, rest) => (String.ofList chars, rest)
  | '\'' :: rest => (literalBody? rest).map fun (chars, rest) => (String.ofList chars, rest)
  | text =>
    match text.takeWhile isBare with
    | [] => none
    | chars => some (String.ofList chars, text.dropWhile isBare)

/-- The parts of a dotted key, blanks around them skipped. The budget bounds their number. -/
def keyParts? (budget : Nat) (text : List Char) : Option (List String × List Char) :=
  match budget with
  | 0 => none
  | budget + 1 => do
    let (part, rest) ← keyPart? (skipBlanks text)
    match skipBlanks rest with
    | '.' :: rest =>
      let (parts, rest) ← keyParts? budget rest
      some (part :: parts, rest)
    | rest => some ([part], rest)

/-- The greatest number of parts of a key, and of values inside each other. -/
def maxDepth : Nat := 79

def key? : Reader (List String) :=
  keyParts? maxDepth

end ChainWatch.Toml
