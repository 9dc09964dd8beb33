import ChainWatch.Concurrency.Activity

/-!
# Batches

A batch runs many tasks of one kind side by side, so many at a time, in their order. Each task succeeds
or fails for itself.
-/

namespace ChainWatch

open Concurrency

/-- The results of the tasks that succeeded, in the tasks' order, and how many failed. -/
structure BatchOutcome (α : Type) where
  succeeded : List α
  failed : Nat
  deriving DecidableEq, Repr

namespace BatchOutcome

variable {ε α : Type}

def ofResults (results : List (Except ε α)) : BatchOutcome α where
  succeeded := results.filterMap Except.toOption
  failed := results.countP fun r => !r.isOk

def total (outcome : BatchOutcome α) : Nat :=
  outcome.succeeded.length + outcome.failed

/-- Whether there was something to do and none of it succeeded. -/
def allFailed (outcome : BatchOutcome α) : Bool :=
  outcome.failed > 0 && outcome.succeeded.isEmpty

variable {results : List (Except ε α)}

theorem total_ofResults (results : List (Except ε α)) : (ofResults results).total = results.length := by
  unfold total ofResults
  induction results with
  | nil => rfl
  | cons result results ih =>
      dsimp only at ih ⊢
      cases result with
      | error e =>
          rw [List.filterMap_cons_none rfl, List.countP_cons_of_pos rfl, List.length_cons]
          omega
      | ok value =>
          have kept : (Except.ok value : Except ε α).toOption = some value := rfl
          rw [List.filterMap_cons_some kept, List.countP_cons_of_neg Bool.false_ne_true,
            List.length_cons, List.length_cons]
          omega

theorem succeeded_eq_nil_iff :
    (ofResults results).succeeded = [] ↔ ∀ result ∈ results, ∃ e, result = .error e := by
  rw [ofResults, List.filterMap_eq_nil_iff]
  refine forall_congr' fun result => forall_congr' fun _ => ?_
  cases result <;> simp [Except.toOption]

theorem failed_eq_length (h : ∀ result ∈ results, ∃ e, result = .error e) :
    (ofResults results).failed = results.length := by
  have counted := total_ofResults results
  rwa [total, succeeded_eq_nil_iff.mpr h, List.length_nil, Nat.zero_add] at counted

theorem allFailed_iff : (ofResults results).allFailed = true ↔
    results ≠ [] ∧ ∀ result ∈ results, ∃ e, result = .error e := by
  rw [allFailed, Bool.and_eq_true, decide_eq_true_eq, List.isEmpty_iff, succeeded_eq_nil_iff]
  refine and_congr_left fun hall => ?_
  rw [failed_eq_length hall]
  exact List.length_pos_iff

end BatchOutcome

namespace Batch

variable {I : Interface} {ε α : Type}

/-- How many tasks run at a time when so many are asked for: at least one. -/
def limit (requested : Nat) : Nat :=
  max 1 requested

/-- The greatest number of places that can be given out. -/
def maxLimit : Nat := (UInt64.size - 1) / 8

/-- Run a batch. There is none with a limit that is too great. -/
def run? (limit : Nat) (tasks : List (Activity I (Except ε α))) :
    Activity I (Option (BatchOutcome α)) :=
  if maxLimit < limit then return none
  else do
    let results ← Activity.joinBounded limit tasks
    return some (BatchOutcome.ofResults results)

end Batch

end ChainWatch
