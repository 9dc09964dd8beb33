import ChainWatch.Text.Digit

/-!
# Types of contract interfaces

A type is written as a name or as a bracketed list of types, followed by array marks. The text alone
may name a type that does not exist; `TypeText.resolve?` finds the type it stands for. Blanks may stand
around the types of a list, and a comma may follow the last of them.
-/

namespace ChainWatch.Abi

open Text

inductive SolType where
  | bool
  | int (bits : Nat)
  | uint (bits : Nat)
  | fixedBytes (size : Nat)
  | address
  | function
  | bytes
  | string
  | array (item : SolType)
  | fixedArray (item : SolType) (size : Nat)
  | tuple (items : List SolType)
  deriving Repr

/-- A type as it is written. -/
inductive TypeText where
  | named (name : List Char)
  | list (items : List TypeText)
  | array (item : TypeText) (size : Option Nat)
  deriving Repr

def isNameStart (c : Char) : Bool :=
  c.isAlpha || c == '_' || c == '$'

def isNamePart (c : Char) : Bool :=
  isNameStart c || c.isDigit

/-- Names of functions and parameters: nothing, or an identifier. -/
def isName : List Char → Bool
  | [] => true
  | c :: rest => isNameStart c && rest.all isNamePart

namespace TypeText

/-- The array marks behind a type. The budget bounds their number. -/
def marks? (budget : Nat) (item : TypeText) (text : List Char) : Option (TypeText × List Char) :=
  match budget, text with
  | budget + 1, '[' :: rest =>
    let (digits, rest) := rest.span Char.isDigit
    match rest with
    | ']' :: rest =>
      match digits, decimal? digits with
      | [], _ => marks? budget (.array item none) rest
      | _, some (n + 1) =>
        if n + 1 < UInt64.size then marks? budget (.array item (some (n + 1))) rest else none
      | _, _ => none
    | _ => none
  | _, text => some (item, text)

def skipBlanks (text : List Char) : List Char :=
  text.dropWhile fun c => c = ' ' || c = '\t'

/-- The name at the front of a text. One behind a dot belongs to a library's enumeration, whose values
are bytes. -/
def name? (text : List Char) : Option (List Char × List Char) :=
  match text.span isNamePart with
  | ([], _) => none
  | (c :: name, rest) =>
    if !isNameStart c then none
    else if rest.head? = some '.' then
      some ("uint8".toList, rest.dropWhile fun c => c = '.' || isNamePart c)
    else some (c :: name, rest)

def opened? : List Char → Option (List Char)
  | '(' :: rest => some rest
  | 't' :: 'u' :: 'p' :: 'l' :: 'e' :: '(' :: rest => some rest
  | _ => none

mutual

/-- A type at the front of a text. The budget bounds the nesting. -/
def front? (budget : Nat) (text : List Char) : Option (TypeText × List Char) :=
  match budget with
  | 0 => none
  | budget + 1 =>
    match opened? text with
    | some rest =>
      match skipBlanks rest with
      | ')' :: rest => marks? rest.length (.list []) rest
      | rest => do
        let (items, rest) ← items? budget rest
        marks? rest.length (.list items) rest
    | none => do
      let (name, rest) ← name? text
      marks? rest.length (.named name) rest

def items? (budget : Nat) (text : List Char) : Option (List TypeText × List Char) :=
  match budget with
  | 0 => none
  | budget + 1 => do
    let (item, rest) ← front? budget (skipBlanks text)
    match skipBlanks rest with
    | ',' :: rest =>
      match skipBlanks rest with
      | ')' :: rest => some ([item], rest)
      | rest =>
        let (items, rest) ← items? budget rest
        some (item :: items, rest)
    | ')' :: rest => some ([item], rest)
    | _ => none

end

def parse? (text : String) : Option TypeText :=
  let chars := text.toList
  match front? (2 * chars.length + 1) chars with
  | some (type, []) => some type
  | _ => none

end TypeText

/-- A number of bits: a multiple of eight up to 256. -/
def bits? (text : List Char) : Option Nat :=
  (decimal? text).filter fun n => n != 0 && n ≤ 256 && n % 8 == 0

def SolType.ofName? (name : List Char) : Option SolType :=
  let startsWith (beginning : String) : Option (List Char) :=
    if beginning.toList.isPrefixOf name then some (name.drop beginning.length) else none
  if name = "bool".toList then some .bool
  else if name = "address".toList then some .address
  else if name = "function".toList then some .function
  else if name = "string".toList then some .string
  else if name = "bytes".toList then some .bytes
  else if name = "uint".toList then some (.uint 256)
  else if name = "int".toList then some (.int 256)
  else
    match startsWith "bytes", startsWith "uint", startsWith "int" with
    | some size, _, _ => ((decimal? size).filter fun n => n != 0 && n ≤ 32).map .fixedBytes
    | _, some bits, _ => (bits? bits).map .uint
    | _, _, some bits => (bits? bits).map .int
    | _, _, _ => none

namespace TypeText

mutual

def resolve? : TypeText → Option SolType
  | .named name => SolType.ofName? name
  | .list items => (resolveAll? items).map .tuple
  | .array item none => item.resolve?.map .array
  | .array item (some size) => item.resolve?.map (.fixedArray · size)

def resolveAll? : List TypeText → Option (List SolType)
  | [] => some []
  | item :: rest => do
    let t ← item.resolve?
    let ts ← resolveAll? rest
    some (t :: ts)

end

/-- The array marks of a text, put around another type. -/
def wrap (inner : SolType) : TypeText → SolType
  | .array item none => .array (wrap inner item)
  | .array item (some size) => .fixedArray (wrap inner item) size
  | _ => inner

end TypeText

end ChainWatch.Abi
