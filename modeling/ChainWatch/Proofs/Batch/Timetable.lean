import Mathlib.Data.List.Basic
import Mathlib.Tactic.Common

/-!
# Timetables

What runs for a while occupies one of so many places from its start on, until it is over. A timetable
is fair (`Timetable.Fair`) if places are given out in order and without delay: what is next starts as
soon as there is a place for it, and not before its predecessors. In a fair timetable no more is under
way than there are places, and no place is left free while something waits; and how long everything takes
already settles when it runs.
-/

namespace ChainWatch

/-- When something runs: from its start on, for a span of time. -/
structure Stint where
  start : Nat
  span : Nat
  deriving DecidableEq, Repr

namespace Stint

/-- From this instant on it is over. -/
def ending (s : Stint) : Nat := s.start + s.span

/-- It has begun and is not over yet. What takes no time is never under way. -/
def UnderWay (s : Stint) (t : Nat) : Prop := s.start ≤ t ∧ t < s.ending

instance (s : Stint) (t : Nat) : Decidable (s.UnderWay t) := inferInstanceAs (Decidable (_ ∧ _))

end Stint

/-- When things run, in the order in which they are given places. -/
abbrev Timetable : Type := List Stint

namespace Timetable

variable {limit t t' : Nat} {table table' : Timetable} {next s : Stint}

/-- How much is under way at an instant. -/
def inFlight (table : Timetable) (t : Nat) : Nat :=
  table.countP fun s => s.UnderWay t

/-- All that comes has its turn: it starts at the first instant at which its predecessors have started
and leave it a place. -/
inductive Fair (limit : Nat) : Timetable → Prop where
  | nil : Fair limit []
  | snoc {table : Timetable} {next : Stint} (before : Fair limit table)
    (ordered : ∀ s ∈ table, s.start ≤ next.start) (place : table.inFlight next.start < limit)
    (waited : ∀ t < next.start, table.inFlight t = limit) : Fair limit (table ++ [next])

theorem inFlight_cons :
    inFlight (s :: table) t = table.inFlight t + if s.UnderWay t then 1 else 0 := by
  simp [inFlight, List.countP_cons]

theorem inFlight_snoc :
    inFlight (table ++ [next]) t = table.inFlight t + if next.UnderWay t then 1 else 0 := by
  simp [inFlight, List.countP_append, List.countP_singleton]

theorem inFlight_snoc_of_lt (h : t < next.start) :
    inFlight (table ++ [next]) t = table.inFlight t := by
  rw [inFlight_snoc, if_neg fun hn => Nat.not_le_of_lt h hn.1, Nat.add_zero]

/-- When everything has started, only less and less is under way. -/
theorem inFlight_anti (hs : ∀ s ∈ table, s.start ≤ t) (ht : t ≤ t') :
    table.inFlight t' ≤ table.inFlight t := by
  refine List.countP_mono_left fun s hm hu => ?_
  have later : s.UnderWay t' := of_decide_eq_true hu
  exact decide_eq_true ⟨hs s hm, Nat.lt_of_le_of_lt ht later.2⟩

/-- Unless something ends in between, there is as much under way as before. -/
theorem inFlight_eq_of_quiet (hs : ∀ s ∈ table, s.start ≤ t) (ht : t ≤ t')
    (quiet : ∀ s ∈ table, t < s.ending → t' < s.ending) : table.inFlight t' = table.inFlight t := by
  refine Nat.le_antisymm (inFlight_anti hs ht) (List.countP_mono_left fun s hm hu => ?_)
  have now : s.UnderWay t := of_decide_eq_true hu
  exact decide_eq_true ⟨Nat.le_trans (hs s hm) ht, quiet s hm now.2⟩

namespace Fair

theorem inFlight_le (h : Fair limit table) (t : Nat) : table.inFlight t ≤ limit := by
  induction h with
  | nil => exact Nat.zero_le limit
  | @snoc table next _ ordered place _ ih =>
      rw [inFlight_snoc]
      split
      · rename_i hu
        exact Nat.lt_of_le_of_lt (inFlight_anti ordered hu.1) place
      · exact ih

theorem ordered (h : Fair limit table) : table.Pairwise fun s s' => s.start ≤ s'.start := by
  induction h with
  | nil => exact .nil
  | snoc _ ordered _ _ ih =>
      refine List.pairwise_append.mpr ⟨ih, List.pairwise_singleton _ _, fun s hs s' hs' => ?_⟩
      rw [List.mem_singleton.mp hs']
      exact ordered s hs

/-- While something waits, all places are taken. -/
theorem inFlight_eq (h : Fair limit table) (hs : s ∈ table) (ht : t < s.start) :
    table.inFlight t = limit := by
  induction h with
  | nil => cases hs
  | @snoc table next _ ordered _ waited ih =>
      have earlier : t < next.start := by
        rcases List.mem_append.mp hs with hs | hs
        · exact Nat.lt_of_lt_of_le ht (ordered s hs)
        · rwa [← List.mem_singleton.mp hs]
      rw [inFlight_snoc_of_lt earlier]
      exact waited t earlier

/-- How long everything takes settles when it runs. -/
theorem unique (h : Fair limit table) (h' : Fair limit table')
    (heq : table.map (·.span) = table'.map (·.span)) : table = table' := by
  induction h generalizing table' with
  | nil => exact (List.map_eq_nil_iff.mp heq.symm).symm
  | @snoc table next _ _ place waited ih =>
      cases h' with
      | nil => simp at heq
      | @snoc table' next' before _ place' waited' =>
          simp only [List.map_append, List.map_singleton] at heq
          obtain ⟨htable, hspan⟩ := List.append_inj' heq rfl
          obtain rfl := ih before htable
          have same : next.start = next'.start := by
            rcases Nat.lt_trichotomy next.start next'.start with hlt | same | hlt
            · exact absurd (waited' _ hlt) (Nat.ne_of_lt place)
            · exact same
            · exact absurd (waited _ hlt) (Nat.ne_of_lt place')
          obtain ⟨start, span⟩ := next
          obtain ⟨start', span'⟩ := next'
          cases same
          cases hspan
          rfl

end Fair

end Timetable

end ChainWatch
