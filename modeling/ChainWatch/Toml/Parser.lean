import ChainWatch.Toml.Moment
import ChainWatch.Toml.Number
import ChainWatch.Toml.Tree

/-!
# TOML, documents

The reader of whole documents. A document denotes an object; dates and times are objects with one
member, whose name sets them apart from text.
-/

namespace ChainWatch.Toml

/-- The name of the member that holds the text of a date or time. -/
def momentMember : String := "$__toml_private_datetime"

def scalar? : Reader Json := fun text =>
  match text with
  | 't' :: 'r' :: 'u' :: 'e' :: rest => some (.bool true, rest)
  | 'f' :: 'a' :: 'l' :: 's' :: 'e' :: rest => some (.bool false, rest)
  | '"' :: _ => (string? text).map fun (s, rest) => (.string s, rest)
  | '\'' :: _ => (string? text).map fun (s, rest) => (.string s, rest)
  | _ =>
    match moment? text with
    | some (moment, rest) => some (.object [(momentMember, .string moment)], rest)
    | none => (number? text).map fun (n, rest) => (.number n, rest)

mutual

/-- A value at the front of a text. The budget bounds the recursion, the depth the nesting. -/
def value? (budget depth : Nat) (text : List Char) : Option (Json × List Char) :=
  match budget with
  | 0 => none
  | budget + 1 =>
    match text with
    | '[' :: rest =>
      match depth with
      | 0 => none
      | depth + 1 => (items? budget depth rest).map fun (items, rest) => (.array items, rest)
    | '\x7b' :: rest =>
      match depth with
      | 0 => none
      | depth + 1 =>
        match skipBlanks rest with
        | '\x7d' :: rest => some (.object [], rest)
        | rest =>
          (pairs? budget depth (.table .header []) rest).map fun (tree, rest) => (tree.toJson, rest)
    | text => scalar? text

/-- The items of an array up to its closing bracket. A comma may follow the last one. -/
def items? (budget depth : Nat) (text : List Char) : Option (List Json × List Char) :=
  match budget with
  | 0 => none
  | budget + 1 =>
    match skipFiller text with
    | ']' :: rest => some ([], rest)
    | text => do
      let (item, rest) ← value? budget depth text
      match skipFiller rest with
      | ',' :: rest =>
        let (items, rest) ← items? budget depth rest
        some (item :: items, rest)
      | ']' :: rest => some ([item], rest)
      | _ => none

def pairs? (budget depth : Nat) (tree : Tree) (text : List Char) : Option (Tree × List Char) :=
  match budget with
  | 0 => none
  | budget + 1 => do
    let (key, rest) ← key? text
    match rest with
    | '=' :: rest =>
      let (value, rest) ← value? budget depth (skipBlanks rest)
      let tree ← tree.setKey key (.leaf value)
      match skipBlanks rest with
      | ',' :: rest => pairs? budget depth tree rest
      | '\x7d' :: rest => some (tree, rest)
      | _ => none
    | _ => none

end

def assignment? : Reader (List String × Json) := fun text => do
  let (key, rest) ← key? text
  match rest with
  | '=' :: rest =>
    let rest := skipBlanks rest
    let (value, rest) ← value? (2 * rest.length + 2) maxDepth rest
    some ((key, value), ← lineEnd? rest)
  | _ => none

/-- A header: the key, and whether it is that of one more table of its name. -/
def header? : Reader (List String × Bool)
  | '[' :: '[' :: rest => do
    let (key, rest) ← key? rest
    match rest with
    | ']' :: ']' :: rest => some ((key, true), ← lineEnd? rest)
    | _ => none
  | '[' :: rest => do
    let (key, rest) ← key? rest
    match rest with
    | ']' :: rest => some ((key, false), ← lineEnd? rest)
    | _ => none
  | _ => none

inductive Line where
  | header (key : List String) (oneMore : Bool)
  | assignment (key : List String) (value : Json)

/-- The lines of a document that say something. The budget bounds their number. -/
def lines? (budget : Nat) (text : List Char) : Option (List Line) :=
  match budget with
  | 0 => none
  | budget + 1 =>
    match skipFiller text with
    | [] => some []
    | '[' :: rest => do
      let ((key, oneMore), rest) ← header? ('[' :: rest)
      let lines ← lines? budget rest
      some (.header key oneMore :: lines)
    | text => do
      let ((key, value), rest) ← assignment? text
      let lines ← lines? budget rest
      some (.assignment key value :: lines)

/-- The assignments at the front of some lines, made in a table, and the lines behind them. -/
def assign? (tree : Tree) : List Line → Option (Tree × List Line)
  | .assignment key value :: lines => do
    let tree ← tree.setKey key (.leaf value)
    assign? tree lines
  | lines => some (tree, lines)

/-- Take sections in, each a header and the assignments below it. -/
def sections? (root : Tree) (lines : List Line) : Option Tree :=
  match lines with
  | [] => some root
  | .header key oneMore :: lines => do
    let fill (tree : Tree) : Option Tree := (assign? tree lines).map (·.1)
    let root ← if oneMore then root.addTable key fill else root.setTable key fill
    sections? root lines
  | .assignment _ _ :: lines => sections? root lines

/-- The object that a document denotes. A byte order mark at its beginning is skipped. -/
def parse? (text : String) : Option Json := do
  let chars := match text.toList with
    | '\uFEFF' :: rest => rest
    | chars => chars
  let lines ← lines? (chars.length + 1) chars
  let (root, sections) ← assign? (.table .header []) lines
  let root ← sections? root sections
  some root.toJson

theorem parse?_eq_bind {text : String} (h : text.toList.head? ≠ some '\uFEFF') :
    parse? text = (lines? (text.toList.length + 1) text.toList).bind fun lines =>
      (assign? (.table .header []) lines).bind fun p =>
        (sections? p.1 p.2).map fun root => root.toJson := by
  unfold parse?
  split
  · rename_i rest heq
    simp [heq] at h
  · simp only [Option.bind_eq_bind, Option.map_eq_bind]
    rfl

end ChainWatch.Toml
