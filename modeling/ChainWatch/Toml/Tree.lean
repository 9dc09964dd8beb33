import ChainWatch.Json.Basic

/-!
# TOML, tables

A document is a tree of tables that grows line by line. A table is defined once: by its own header, by
dotted keys, or for the time being by a longer header. Values in arrays and braces are closed, and
nothing can be added to them.
-/

namespace ChainWatch.Toml

inductive Origin where
  | header
  /-- By the header of a table inside it; its own header may follow. -/
  | implied
  | dotted
  deriving DecidableEq, Repr

inductive Tree where
  | leaf (value : Json)
  | table (origin : Origin) (entries : List (String × Tree))
  /-- Tables of one name, of which the last one may still grow. -/
  | tables (earlier : List Tree) (last : Tree)
  deriving Repr

namespace Tree

def find? (name : String) (entries : List (String × Tree)) : Option Tree :=
  (entries.find? (·.1 == name)).map (·.2)

def put (name : String) (tree : Tree) : List (String × Tree) → List (String × Tree)
  | [] => [(name, tree)]
  | (other, t) :: rest =>
    if other = name then (name, tree) :: rest else (other, t) :: put name tree rest

/-- Change the table that a path of names leads to, beginning in a table. Tables on the way that are not
there are made with the given origin; of several tables of one name the path leads into the last. -/
def descend (missing : Origin) (enter : Origin → Bool) (path : List String)
    (change : Tree → Option Tree) (tree : Tree) : Option Tree :=
  match path, tree with
  | [], tree => change tree
  | name :: path, .table origin entries =>
    match find? name entries with
    | none => do
      let child ← descend missing enter path change (.table missing [])
      some (.table origin (put name child entries))
    | some (.leaf _) => none
    | some (.tables earlier last) => do
      let last ← descend missing enter path change last
      some (.table origin (put name (.tables earlier last) entries))
    | some (.table o es) =>
      if enter o then do
        let child ← descend missing enter path change (.table o es)
        some (.table origin (put name child entries))
      else none
  | _, _ => none

/-- Put a value under a name that is not taken yet. -/
def insertNew (name : String) (value : Tree) : Tree → Option Tree
  | .table origin entries =>
    match find? name entries with
    | some _ => none
    | none => some (.table origin (put name value entries))
  | _ => none

def isDotted : Tree → Bool
  | .table .dotted _ => true
  | _ => false

/-- Set a key of a table. Dotted keys make tables of their own and add to no others. -/
def setKey (tree : Tree) (key : List String) (value : Tree) : Option Tree :=
  match key.reverse with
  | [] => none
  | [name] => insertNew name value tree
  | name :: path =>
    descend .dotted (· != .header) path.reverse
      (fun t => if t.isDotted then insertNew name value t else none) tree

/-- Define the table of a header: one that is not there yet, or that a longer header has implied. The
lines below the header fill it. -/
def setTable (root : Tree) (key : List String) (fill : Tree → Option Tree) : Option Tree :=
  match key.reverse with
  | [] => none
  | name :: path =>
    descend .implied (fun _ => true) path.reverse
      (fun
        | .table origin entries =>
          match find? name entries with
          | none => do
            some (.table origin (put name (← fill (.table .header [])) entries))
          | some (.table .implied es) => do
            some (.table origin (put name (← fill (.table .header es)) entries))
          | some _ => none
        | _ => none)
      root

def addTable (root : Tree) (key : List String) (fill : Tree → Option Tree) : Option Tree :=
  match key.reverse with
  | [] => none
  | name :: path =>
    descend .implied (fun _ => true) path.reverse
      (fun
        | .table origin entries =>
          match find? name entries with
          | none => do
            some (.table origin (put name (.tables [] (← fill (.table .header []))) entries))
          | some (.tables earlier last) => do
            let next ← fill (.table .header [])
            some (.table origin (put name (.tables (earlier ++ [last]) next) entries))
          | some _ => none
        | _ => none)
      root

mutual

def toJson : Tree → Json
  | .leaf value => value
  | .table _ entries => .object (entriesJson entries)
  | .tables earlier last => .array (itemsJson earlier ++ [last.toJson])

def entriesJson : List (String × Tree) → List (String × Json)
  | [] => []
  | (name, tree) :: rest => (name, tree.toJson) :: entriesJson rest

def itemsJson : List Tree → List Json
  | [] => []
  | tree :: rest => tree.toJson :: itemsJson rest

end

end Tree

end ChainWatch.Toml
