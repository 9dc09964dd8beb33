import ChainWatch.Concurrency.Activity

/-!
# Locks

Whoever wants a lock takes the next number and waits until this number is called; whoever gives it back
calls the number after its own. So the lock goes round in the order in which it was asked for.
-/

namespace ChainWatch.Concurrency

/-- How many numbers have been taken, and the one that was called last. -/
structure Lock where
  taken : Nat
  called : Nat
  deriving DecidableEq, Repr

namespace Lock

def new : Lock := ⟨0, 0⟩

/-- Nobody holds the lock or waits for it: the number that was called is not taken yet. -/
def IsFree (lock : Lock) : Prop :=
  lock.called = lock.taken

def take (lock : Lock) : Lock :=
  { lock with taken := lock.taken + 1 }

def call (lock : Lock) : Lock :=
  { lock with called := lock.called + 1 }

end Lock

structure Locked (M : Type) where
  lock : Lock
  content : M
  deriving DecidableEq, Repr

namespace Locked

variable {M : Type}

def take (m : Locked M) : Locked M :=
  { m with lock := m.lock.take }

def call (m : Locked M) : Locked M :=
  { m with lock := m.lock.call }

def change (f : M → M) (m : Locked M) : Locked M :=
  { m with content := f m.content }

end Locked

abbrev Interface.locked (I : Interface) : Interface where
  Memory := Locked I.Memory
  Request := I.Request
  Answer := I.Answer

def Activity.exclusively {I : Interface} {α : Type} (work : Activity I.locked α) :
    Activity I.locked α := do
  let before ← Activity.touch (I := I.locked) Locked.take fun _ m => .done m
  Activity.await (I := I.locked) fun m => m.lock.called = before.lock.taken
  let value ← work
  Activity.modify (I := I.locked) Locked.call
  return value

end ChainWatch.Concurrency
