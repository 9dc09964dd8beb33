/-!
# JSON values

A value keeps the members of an object in the order of the text, repeated names included: what a
repeated name means is up to the reader of the object.
-/

namespace ChainWatch

/-- A decimal fraction: digits scaled by a power of ten. -/
structure Decimal where
  negative : Bool
  digits : Nat
  exponent : Int
  deriving DecidableEq, Repr

namespace Json

/-- A number. Integers are those of 64 bits, signed or not; all other numbers are fractions.
`notFinite` stands for the infinities and for what is not a number: JSON text has no spelling for
them, other notations do. -/
inductive Number where
  | integer (value : Int)
  | fraction (value : Decimal)
  | notFinite
  deriving DecidableEq, Repr

def isSigned (n : Int) : Bool :=
  Int64.minValue.toInt ≤ n && n ≤ Int64.maxValue.toInt

end Json

inductive Json where
  | null
  | bool (value : Bool)
  | number (value : Json.Number)
  | string (value : String)
  | array (items : List Json)
  | object (members : List (String × Json))
  deriving Repr

namespace Json

instance : Inhabited Json := ⟨null⟩

def ofNat (n : Nat) : Json := .number (.integer n)

/-- The last member of that name. -/
def find? (members : List (String × Json)) (name : String) : Option Json :=
  (members.reverse.find? fun m => m.1 == name).map (·.2)

/-- Insert a member in the order of names; a member of that name gives way. -/
def insertSorted (name : String) (value : Json) : List (String × Json) → List (String × Json)
  | [] => [(name, value)]
  | (other, v) :: rest =>
    if name < other then (name, value) :: (other, v) :: rest
    else if name = other then (name, value) :: rest
    else (other, v) :: insertSorted name value rest

mutual

/-- Members in the order of their names; of members with one name the last counts. -/
def canonical : Json → Json
  | .array items => .array (canonicalItems items)
  | .object members => .object (canonicalMembers members [])
  | .number .notFinite => .null
  | value => value

def canonicalItems : List Json → List Json
  | [] => []
  | item :: rest => item.canonical :: canonicalItems rest

def canonicalMembers : List (String × Json) → List (String × Json) → List (String × Json)
  | [], sorted => sorted
  | (name, value) :: rest, sorted =>
    canonicalMembers rest (insertSorted name value.canonical sorted)

end

end Json

end ChainWatch
