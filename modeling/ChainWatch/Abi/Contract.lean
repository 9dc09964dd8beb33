import ChainWatch.Abi.Codec
import ChainWatch.Json.Decode
import ChainWatch.Json.Parser

/-!
# Contract interfaces

The interface of a contract lists its functions, among them several of one name, told apart by what
they take. A call is encoded as the first four bytes of the digest of the function's signature followed
by the encoded inputs.
-/

namespace ChainWatch.Abi

open Json

/-- What a function takes or answers. Only tuples have components. -/
inductive Param where
  | mk (type : String) (components : List Param)
  deriving Repr

namespace Param

def type : Param → String
  | .mk type _ => type

mutual

/-- The type as it counts for signatures: tuples spelled out, all else verbatim. -/
def signatureType : Param → String
  | .mk type [] => type
  | .mk type (c :: components) =>
    "(" ++ signatureTypes (c :: components) ++ ")" ++ (type.drop "tuple".length).toString

def signatureTypes : List Param → String
  | [] => ""
  | [p] => p.signatureType
  | p :: q :: rest => p.signatureType ++ "," ++ signatureTypes (q :: rest)

end

mutual

def resolve? : Param → Option SolType
  | .mk type [] => (TypeText.parse? type).bind TypeText.resolve?
  | .mk type (c :: components) => do
    let text ← TypeText.parse? type
    let items ← resolveAll? (c :: components)
    some (text.wrap (.tuple items))

def resolveAll? : List Param → Option (List SolType)
  | [] => some []
  | p :: rest => do
    let t ← p.resolve?
    let ts ← resolveAll? rest
    some (t :: ts)

end

/-- A parameter of a function or an event. The depth bounds how far components nest. -/
def ofJson? (depth : Nat) (indexable : Bool) (value : Json) : Option Param :=
  match depth with
  | 0 => none
  | depth + 1 => do
    match ← fields? .exact ["name", "type", "indexed", "internalType", "components"] value with
    | [name, type, indexed, internalType, components] =>
      let name ← defaulted "" asString name
      let type ← required asString type
      let indexed ← defaulted none (nullable asBool) indexed
      let _ ← defaulted none (nullable asString) internalType
      let components ← defaulted [] (asList (ofJson? depth false)) components
      if !isName name.toList || (indexed.isSome && !indexable) then none
      else if components.isEmpty then
        if (TypeText.parse? type).isSome then some (.mk type []) else none
      else if "tuple".toList.isPrefixOf type.toList then some (.mk type components)
      else none
    | _ => none

end Param

structure Function where
  name : String
  inputs : List Param
  outputs : List Param
  deriving Repr

namespace Function

def signature (f : Function) : String :=
  f.name ++ "(" ++ Param.signatureTypes f.inputs ++ ")"

/-- The four bytes that a call of the function begins with. -/
def selector (f : Function) : Bytes :=
  (Keccak.digest (Bytes.ofString f.signature)).take 4

/-- The data of a call; none when the values are not of the inputs' types. -/
def encodeCall? (f : Function) (values : List Value) : Option Bytes := do
  let types ← Param.resolveAll? f.inputs
  if Value.haveTypes types values then some (f.selector ++ Value.encodeAll values) else none

def decodeAnswer? (f : Function) (answer : Bytes) : Option (List Value) := do
  let types ← Param.resolveAll? f.outputs
  let (values, _) ← SolType.decodeAll? types answer 0
  some values

end Function

structure Contract where
  /-- In the order of the text. -/
  functions : List Function
  events : List String
  errors : List String
  hasConstructor : Bool
  hasFallback : Bool
  hasReceive : Bool
  deriving Repr

namespace Contract

def empty : Contract := ⟨[], [], [], false, false, false⟩

def overloads (contract : Contract) (name : String) : List Function :=
  contract.functions.filter (·.name == name)

/-- The first function of a name that takes so many inputs. -/
def overload? (contract : Contract) (name : String) (arity : Nat) : Option Function :=
  (contract.overloads name).find? (·.inputs.length == arity)

/-- The first function of a name that takes at most one input. -/
def action? (contract : Contract) (name : String) : Option Function :=
  (contract.overloads name).find? (·.inputs.length ≤ 1)

def insertName (name : String) : List String → List String
  | [] => [name]
  | other :: rest =>
    if name < other then name :: other :: rest
    else if name = other then other :: rest
    else other :: insertName name rest

def distinct (names : List String) : List String :=
  names.foldl (fun sorted name => insertName name sorted) []

def functionNames (contract : Contract) : List String :=
  distinct (contract.functions.map (·.name))

def asParams (indexable : Bool) : Decoder (List Param) :=
  asList (Param.ofJson? (maxDepth + 1) indexable)

def asMutability : Decoder Unit :=
  asChoice .exact fun text =>
    if ["pure", "view", "nonpayable", "payable"].contains text then some () else none

/-- The members that say how a function treats the state, in the present and in an older form. -/
def mutability? (members : List (String × Json)) : Option Unit := do
  let _ ← defaulted none (nullable asMutability) (← member? members "stateMutability")
  let _ ← defaulted none (nullable asBool) (← member? members "payable")
  let _ ← defaulted none (nullable asBool) (← member? members "constant")
  some ()

def asName : Decoder String
  | .string text => if isName text.toList then some text else none
  | _ => none

/-- The kind of an entry, and the entry's content: the object itself, or what follows the kind in an
array. -/
def tagged? : Json → Option (String × Json)
  | .object members => do
    some (← required asString (← member? members "type"), .object members)
  | .array (.string kind :: rest) => some (kind, .array rest)
  | _ => none

def mutable? : Json → Option (List (String × Json))
  | .object members => do
    mutability? members
    some members
  | _ => none

/-- Take one entry of the text in. There is at most one constructor, fallback and receiver. -/
def add? (contract : Contract) (entry : Json) : Option Contract := do
  let (kind, content) ← tagged? entry
  match kind with
  | "function" =>
    let members ← mutable? content
    let name ← required asName (← member? members "name")
    let inputs ← required (asParams false) (← member? members "inputs")
    let outputs ← required (asParams false) (← member? members "outputs")
    some { contract with functions := contract.functions ++ [⟨name, inputs, outputs⟩] }
  | "event" =>
    match ← fields? .exact ["name", "inputs", "anonymous"] content with
    | [name, inputs, anonymous] =>
      let name ← required asName name
      let _ ← required (asParams true) inputs
      let _ ← required asBool anonymous
      some { contract with events := contract.events ++ [name] }
    | _ => none
  | "error" =>
    match ← fields? .exact ["name", "inputs"] content with
    | [name, inputs] =>
      let name ← required asName name
      let _ ← required (asParams false) inputs
      some { contract with errors := contract.errors ++ [name] }
    | _ => none
  | "constructor" =>
    let _ ← required (asParams false) (← member? (← mutable? content) "inputs")
    if contract.hasConstructor then none else some { contract with hasConstructor := true }
  | "fallback" =>
    let _ ← mutable? content
    if contract.hasFallback then none else some { contract with hasFallback := true }
  | "receive" =>
    let _ ← mutable? content
    if contract.hasReceive then none else some { contract with hasReceive := true }
  | _ => none

def parse? (text : String) : Option Contract :=
  match Json.parse? text with
  | some (.array entries) => entries.foldlM add? empty
  | _ => none

theorem parse?_eq_bind (text : String) : parse? text =
    (Json.parse? text).bind fun value => match value with
      | .array entries => entries.foldlM add? empty
      | _ => none := by
  rw [parse?]
  rcases Json.parse? text with _ | _ | _ | _ | _ | _ | _ <;> rfl

end Contract

end ChainWatch.Abi
