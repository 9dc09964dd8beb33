import ChainWatch.Json.Basic

/-!
# Reading records off JSON values

A record is given as an object or as an array of its fields in their order. Members of other names are
ignored; a repeated field or a missing field without a default is a failure. Notations differ in two
points, which the exact style and the tolerant one stand for.
-/

namespace ChainWatch.Json

abbrev Decoder (α : Type) := Json → Option α

variable {α : Type}

/-- The only member of that name, if there is one; a repeated name is a failure. -/
def member? (members : List (String × Json)) (name : String) : Option (Option Json) :=
  match members.filter fun m => m.1 == name with
  | [] => some none
  | [m] => some (some m.2)
  | _ => none

inductive RecordStyle where
  /-- An array has no items beyond the fields, and a name out of a choice has no content. -/
  | exact
  /-- Items beyond the fields are ignored, and a name out of a choice has empty content. -/
  | tolerant
  deriving DecidableEq, Repr

def fields? (style : RecordStyle) (names : List String) : Json → Option (List (Option Json))
  | .object members => names.mapM (member? members)
  | .array items =>
    if items.length ≤ names.length ∨ style = .tolerant then
      some ((items.take names.length).map some ++ List.replicate (names.length - items.length) none)
    else none
  | _ => none

def required (decode : Decoder α) (field : Option Json) : Option α :=
  field.bind decode

def defaulted (default : α) (decode : Decoder α) : Option Json → Option α
  | none => some default
  | some value => decode value

def nullable (decode : Decoder α) : Decoder (Option α)
  | .null => some none
  | value => (decode value).map some

def asString : Decoder String
  | .string text => some text
  | _ => none

def asBool : Decoder Bool
  | .bool b => some b
  | _ => none

/-- An integer from zero up to, but not including, a bound. -/
def asNatBelow (bound : Nat) : Decoder Nat
  | .number (.integer n) => if 0 ≤ n ∧ n < bound then some n.toNat else none
  | _ => none

def asUInt64 : Decoder Nat := asNatBelow UInt64.size

def asList (decode : Decoder α) : Decoder (List α)
  | .array items => items.mapM decode
  | _ => none

def isEmptyContent : RecordStyle → Json → Bool
  | .exact, .null => true
  | .tolerant, .array [] => true
  | .tolerant, .object [] => true
  | _, _ => false

/-- A name out of a fixed choice: a string, or an object whose only member has that name and no
content. -/
def asChoice (style : RecordStyle) (choice : String → Option α) : Decoder α
  | .string name => choice name
  | .object [(name, content)] => if isEmptyContent style content then choice name else none
  | _ => none

end ChainWatch.Json
