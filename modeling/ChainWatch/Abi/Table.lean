import ChainWatch.Abi.Contract
import ChainWatch.Text.Blank
import ChainWatch.Text.Quoted

/-!
# Known interfaces

A table of interface texts by contract address. A configured table names addresses as text, in any
case and with blanks around them; it is taken in entry by entry, and a later entry for an address takes
the place of an earlier one.
-/

namespace ChainWatch

inductive AbiFault where
  | notFound (address : Address)
  /-- The explorer could not be asked, or its answer could not be read. -/
  | exchange
  | status (code : Nat)
  | rejected (address : Address) (message : String)
  | unreadable
  | badAddress (raw : String)
  deriving DecidableEq, Repr

namespace AbiFault

def message? : AbiFault → Option String
  | notFound a => some s!"no ABI known for {a.checksum}"
  | exchange => none
  | status code => some s!"explorer returned status {code}"
  | rejected a m => some s!"explorer rejected lookup for {a.checksum}: {m}"
  | unreadable => none
  | badAddress raw => some s!"invalid address {Text.quoted raw} in ABI config"

end AbiFault

structure AbiTable where
  entries : List (Address × String)
  deriving DecidableEq, Repr

namespace AbiTable

def empty : AbiTable := ⟨[]⟩

def find? (table : AbiTable) (a : Address) : Option String :=
  (table.entries.find? (·.1 == a)).map (·.2)

/-- Put a text into a list of entries, in place of the first one for that address. -/
def put (a : Address) (text : String) : List (Address × String) → List (Address × String)
  | [] => [(a, text)]
  | e :: rest => if e.1 = a then (a, text) :: rest else e :: put a text rest

def insert (table : AbiTable) (a : Address) (text : String) : AbiTable :=
  ⟨put a text table.entries⟩

theorem find?_put (entries : List (Address × String)) (a b : Address) (text : String) :
    ((put a text entries).find? (·.1 == b)).map (·.2) =
      if b = a then some text else (entries.find? (·.1 == b)).map (·.2) := by
  induction entries with
  | nil =>
    by_cases hb : a = b
    · simp [put, hb]
    · simp [put, hb, Ne.symm hb]
  | cons e rest ih =>
    by_cases he : e.1 = a
    · by_cases hb : a = b
      · simp [put, he, hb]
      · simp [put, he, hb, Ne.symm hb]
    · by_cases hf : e.1 = b
      · have hb : ¬ b = a := fun h => he (hf.trans h)
        simp [put, hf, hb]
      · simpa [put, he, hf] using ih

theorem find?_insert (table : AbiTable) (a b : Address) (text : String) :
    (table.insert a text).find? b = if b = a then some text else table.find? b :=
  find?_put table.entries a b text

def size (table : AbiTable) : Nat := table.entries.length

def isEmpty (table : AbiTable) : Bool := table.entries.isEmpty

/-- Take in one configured entry, whose text must be an interface. -/
def insertInline (table : AbiTable) (entry : String × String) : Except AbiFault AbiTable :=
  match Address.ofHex? (Text.trim entry.1.toList) with
  | none => .error (.badAddress entry.1)
  | some a =>
    if (Abi.Contract.parse? entry.2).isSome then .ok (table.insert a entry.2)
    else .error .unreadable

def ofInline (entries : List (String × String)) : Except AbiFault AbiTable :=
  entries.foldlM insertInline empty

end AbiTable

end ChainWatch
