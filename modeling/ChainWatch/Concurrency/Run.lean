import ChainWatch.Concurrency.Progress

/-!
# Runs

`Activity.run` polls an activity, moves the clock to the next instant at which something is due, and
repeats until the activity has finished. The run ends without a value only when every part of the
activity waits for a change of memory that none of them will make.
-/

namespace ChainWatch.Concurrency

variable {I : Interface} {σ α : Type}

structure Ending (I : Interface) (σ α : Type) where
  value? : Option α
  time : Nat
  world : World I σ

/-- Fewer moves lie before the smaller of two activities. -/
instance : WellFoundedRelation (Activity I α) where
  rel := Relation.TransGen Step
  wf := WellFounded.transGen ⟨Activity.acc_step⟩

def Activity.run (h : Handler I σ) (now : Nat) (p : Activity I α) (w : World I σ) :
    Ending I σ α :=
  match _hw : p.wake now w.memory with
  | some due => Activity.run h due (p.poll h due w).1 (p.poll h due w).2
  | none =>
    match p with
    | .done value => ⟨some value, now, w⟩
    | _ => ⟨none, now, w⟩
termination_by p
decreasing_by exact p.poll_progress h now due w _hw (Nat.le_refl due)

theorem Activity.run_done (h : Handler I σ) (now : Nat) (value : α) (w : World I σ) :
    Activity.run h now (.done value) w = ⟨some value, now, w⟩ := by
  rw [Activity.run]
  rfl

theorem Activity.run_of_wake {h : Handler I σ} {now due : Nat} {p : Activity I α}
    {w : World I σ} (hw : p.wake now w.memory = some due) :
    p.run h now w = (p.poll h due w).1.run h due (p.poll h due w).2 := by
  rw [Activity.run]
  split
  · rename_i heq
    rw [hw] at heq
    cases heq
    rfl
  · rename_i heq
    rw [hw] at heq
    cases heq

end ChainWatch.Concurrency
