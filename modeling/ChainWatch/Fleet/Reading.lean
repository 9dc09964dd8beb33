/-!
# Readings

What one endpoint contributed to a read: a value, and the height of the chain as that endpoint saw it.
Of several readings the freshest counts. Only complete readings can be chosen; at equal heights the
endpoint that comes first in the fleet wins.
-/

namespace ChainWatch

structure Reading (α : Type) where
  position : Nat
  value : Option α
  height : Option Nat
  deriving DecidableEq, Repr

namespace Reading

variable {α : Type}

structure Complete (α : Type) where
  position : Nat
  value : α
  height : Nat
  deriving DecidableEq, Repr

def complete? (r : Reading α) : Option (Complete α) :=
  match r.value, r.height with
  | some value, some height => some ⟨r.position, value, height⟩
  | _, _ => none

/-- Whether a reading takes the place of the best one so far. -/
def Complete.fresher (r best : Complete α) : Bool :=
  best.height < r.height || (r.height == best.height && r.position < best.position)

def better (best : Option (Complete α)) (r : Reading α) : Option (Complete α) :=
  match r.complete?, best with
  | none, best => best
  | some r, none => some r
  | some r, some best => if r.fresher best then some r else some best

def freshest (readings : List (Reading α)) : Option (Complete α) :=
  readings.foldl better none

end Reading

end ChainWatch
