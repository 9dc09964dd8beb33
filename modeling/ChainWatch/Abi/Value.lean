import ChainWatch.Abi.Type
import ChainWatch.Address
import ChainWatch.Text.Quoted

/-!
# Values of contract interfaces

Integers and short byte strings keep their whole word beside the width of their type.
-/

namespace ChainWatch.Abi

inductive Value where
  | bool (value : Bool)
  | int (word : Word) (bits : Nat)
  | uint (word : Word) (bits : Nat)
  | fixedBytes (word : Word) (size : Nat)
  | address (value : Address)
  | function (bytes : Bytes)
  | bytes (value : Bytes)
  | string (text : String)
  | array (items : List Value)
  | fixedArray (items : List Value)
  | tuple (items : List Value)
  deriving Repr

namespace Value

mutual

def hasType : SolType → Value → Bool
  | .bool, .bool _ => true
  | .int bits, .int _ b => bits == b
  | .uint bits, .uint _ b => bits == b
  | .fixedBytes size, .fixedBytes _ s => size == s
  | .address, .address _ => true
  | .function, .function _ => true
  | .bytes, .bytes _ => true
  | .string, .string _ => true
  | .array item, .array items => items.all (hasType item)
  | .fixedArray item size, .fixedArray items => items.length == size && items.all (hasType item)
  | .tuple types, .tuple items => haveTypes types items
  | _, _ => false

def haveTypes : List SolType → List Value → Bool
  | [], [] => true
  | t :: types, v :: items => hasType t v && haveTypes types items
  | _, _ => false

end

mutual

/-- A value in words, with its kind in front. -/
def text : Value → String
  | .bool b => s!"Bool({b})"
  | .int w bits => s!"Int({w.toInt}, {bits})"
  | .uint w bits => s!"Uint({w.decimal}, {bits})"
  | .fixedBytes w size => s!"FixedBytes({w.toHex}, {size})"
  | .address a => s!"Address({a.toHex})"
  | .function code => s!"Function({Bytes.toHex code})"
  | .bytes content =>
    "Bytes([" ++ ", ".intercalate (content.map fun b => toString b.toNat) ++ "])"
  | .string s => "String(" ++ Text.quoted s ++ ")"
  | .array items => "Array([" ++ ", ".intercalate (texts items) ++ "])"
  | .fixedArray items => "FixedArray([" ++ ", ".intercalate (texts items) ++ "])"
  | .tuple items => "Tuple([" ++ ", ".intercalate (texts items) ++ "])"

def texts : List Value → List String
  | [] => []
  | item :: rest => item.text :: texts rest

end

def optionText : Option Value → String
  | none => "None"
  | some value => s!"Some({value.text})"

end Value

end ChainWatch.Abi
