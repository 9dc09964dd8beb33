import ChainWatch.Config.Load
import ChainWatch.Text.Blank

/-!
# Environment files

A file of variables, one assignment a line: `NAME=value`, with an optional `export` before the name.
Quotes may carry a value over several lines, single quotes taking everything verbatim; elsewhere a
backslash escapes and a dollar sign stands for another variable. Lines behind a malformed one do not
count, and what the environment holds already is not replaced.
-/

namespace ChainWatch.EnvFile

open Text

/-! ## Lines -/

/-- Where a line stands when it is cut from a file. Only quotes and escapes carry it over a line feed. -/
inductive LineState where
  | plain
  /-- Behind a blank, where a number sign starts a comment. -/
  | blank
  | escape
  | single
  | singleEscape
  | double
  | doubleEscape
  | comment
  deriving DecidableEq, Repr

def LineState.after (c : Char) : LineState → LineState
  | plain =>
    if isBlank c && c != '\n' && c != '\r' then blank else opening
  | blank => if c = '#' then comment else opening
  | escape => plain
  | single => if c = '\\' then singleEscape else if c = '\'' then plain else single
  | singleEscape => single
  | double => if c = '\\' then doubleEscape else if c = '"' then plain else double
  | doubleEscape => double
  | comment => if c = '\n' then plain else comment
where
  opening : LineState :=
    if c = '\\' then escape else if c = '"' then double else if c = '\'' then single else plain

/-- The lines of a file without their comments; the last is none if its quotes are not closed. The
line up to here is held with its end in front. -/
def cut (state : LineState) (line : List Char) : List Char → List (Option (List Char))
  | [] =>
    match state with
    | .plain => if line.isEmpty then [] else [some line.reverse]
    | .comment => [some line.reverse]
    | _ => [none]
  | c :: rest =>
    let next := if c = '#' && line.all isBlank then .comment else state.after c
    if c = '\n' && next = .plain then some line.reverse :: cut .plain [] rest
    else if next = .comment then cut .comment line rest
    else cut next (c :: line) rest

/-! ## Assignments -/

def isNameStart (c : Char) : Bool :=
  c.isAlpha || c = '_'

def isNameChar (c : Char) : Bool :=
  c.isAlphanum || c = '_' || c = '.'

def skipBlanks (text : List Char) : List Char :=
  text.dropWhile isBlank

def name? : List Char → Option (String × List Char)
  | c :: rest =>
    if isNameStart c then
      some (String.ofList ((c :: rest).takeWhile isNameChar),
        skipBlanks ((c :: rest).dropWhile isNameChar))
    else none
  | [] => none

def target? (text : List Char) : Option (String × List Char) := do
  let (name, rest) ← name? text
  match rest with
  | '=' :: rest => some (name, skipBlanks rest)
  | rest =>
    if name ≠ "export" then none
    else
      match ← name? rest with
      | (name, '=' :: rest) => some (name, skipBlanks rest)
      | _ => none

inductive ValueState where
  | bare
  | single
  | double
  | escape (quoted : Bool)
  /-- In a reference without braces: the name up to here. -/
  | reference (quoted : Bool) (name : List Char)
  | braced (quoted : Bool) (name : List Char)
  /-- The value is over, only a comment may follow. -/
  | over
  deriving DecidableEq, Repr

/-- Outside of references, escapes and single quotes. -/
def ValueState.within (quoted : Bool) : ValueState :=
  if quoted then double else bare

def escaped? (c : Char) : Option Char :=
  if c = 'n' then some '\n'
  else if ['\\', '"', '\'', '$', ' '].contains c then some c
  else none

/-- The value in a text, references being looked up by the given function; none when it is malformed.
The character that ends a reference without braces is taken verbatim, unless it starts another. -/
def value? (find : List Char → List Char) : ValueState → List Char → Option (List Char)
  | .bare, [] => some []
  | .over, [] => some []
  | .escape quoted, [] => if quoted then none else some []
  | .reference quoted name, [] => if quoted then none else some (find name)
  | _, [] => none
  | .over, c :: rest =>
    if c = '#' then some []
    else if c = ' ' || c = '\t' then value? find .over rest
    else none
  | .escape quoted, c :: rest => do
    let e ← escaped? c
    (value? find (.within quoted) rest).map (e :: ·)
  | .single, c :: rest =>
    if c = '\'' then value? find .bare rest else (value? find .single rest).map (c :: ·)
  | .reference quoted name, c :: rest =>
    if c.isAlphanum then value? find (.reference quoted (name ++ [c])) rest
    else if c = '\x7b' && name.isEmpty then value? find (.braced quoted []) rest
    else
      (if c = '$' then value? find (.reference quoted []) rest
        else (value? find (.within quoted) rest).map (c :: ·)).map (find name ++ ·)
  | .braced quoted name, c :: rest =>
    if c = '\x7d' then (value? find (.within quoted) rest).map (find name ++ ·)
    else value? find (.braced quoted (name ++ [c])) rest
  | .double, c :: rest =>
    if c = '$' then value? find (.reference true []) rest
    else if c = '"' then value? find .bare rest
    else if c = '\\' then value? find (.escape true) rest
    else (value? find .double rest).map (c :: ·)
  | .bare, c :: rest =>
    if c = '$' then value? find (.reference false []) rest
    else if c = '\'' then value? find .single rest
    else if c = '"' then value? find .double rest
    else if c = '\\' then value? find (.escape false) rest
    else if c = ' ' || c = '\t' then value? find .over rest
    else (value? find .bare rest).map (c :: ·)

/-- What a line assigns; nothing is right for a line that is blank. -/
inductive Assignment where
  | nothing
  | value (name : String) (value : String)
  | malformed
  deriving DecidableEq, Repr

/-- The value of a variable, empty when it is not set. -/
def valueIn (env : Environment) (name : List Char) : List Char :=
  ((env.find? (String.ofList name)).getD "").toList

def Assignment.ofLine (env : Environment) (line : List Char) : Assignment :=
  match trim line with
  | [] => nothing
  | text =>
    match target? text with
    | none => malformed
    | some (name, '#' :: _) => value name ""
    | some (name, text) =>
      match value? (valueIn env) .bare text with
      | some v => value name (String.ofList v)
      | none => malformed

def extend (env : Environment) : List (Option (List Char)) → Environment
  | [] => env
  | none :: _ => env
  | some line :: rest =>
    match Assignment.ofLine env line with
    | .nothing => extend env rest
    | .malformed => env
    | .value name value =>
      extend (if (env.find? name).isSome then env else env ++ [(name, value)]) rest

/-- A file's text without the mark that may stand in front of it. -/
def withoutMark : List Char → List Char
  | '\uFEFF' :: rest => rest
  | text => text

def load (env : Environment) (text : String) : Environment :=
  extend env (cut .plain [] (withoutMark text.toList))

end ChainWatch.EnvFile
