import ChainWatch.Proofs.Batch.Timetable
import ChainWatch.Proofs.Concurrency.Places
import ChainWatch.Rehearsal.Batch

/-!
# Rounds of a batch

A batch of timed tasks is polled whenever some of its tasks are due to end. `crewAt` is what the batch is
at an instant, given when its tasks have started, and a poll leads from one such state to the next
(`poll_crewAt`): those whose time has come end, and in their places others start. If the batch is polled
when it wakes, the timetable of those that have started stays fair (`Round.poll`).
-/

namespace ChainWatch.Rehearsal

open Concurrency

variable {α : Type}

/-- A task and the instant at which it has started. -/
structure Begun (α : Type) where
  start : Nat
  task : TimedTask α

namespace Begun

def stint (b : Begun α) : Stint := ⟨b.start, b.task.span⟩

/-- What a task has become that has started. -/
def left (number : Nat) (b : Begun α) : Activity gauge (Except Unit α) :=
  .resumeAt b.stint.ending (b.task.closing number b.start)

end Begun

/-- The members of a batch at an instant: of those that have started some are over, and the others are
still waiting. -/
def crewAt (now : Nat) : Nat → List (Begun α) → List (TimedTask α) → Crew gauge (Except Unit α)
  | number, [], queued => .ofList (TimedTask.activities number queued)
  | number, b :: begun, queued =>
    if b.stint.ending ≤ now then .finished b.task.result (crewAt now (number + 1) begun queued)
    else .running (b.left number) (crewAt now (number + 1) begun queued)

/-- The records of those that are over. -/
def records (now : Nat) : Nat → List (Begun α) → List (Nat × Nat × Nat)
  | _, [] => []
  | number, b :: begun =>
    if b.stint.ending ≤ now then (number, b.start, b.stint.ending) :: records now (number + 1) begun
    else records now (number + 1) begun

/-- How many tasks of the queue start when there are so many places. Who takes no time gives the place
back at once. -/
def admits : Nat → List (TimedTask α) → Nat
  | 0, _ => 0
  | _, [] => 0
  | free + 1, task :: queued => admits (if task.span = 0 then free + 1 else free) queued + 1

/-- How many places become free between two instants. -/
def freed (was now : Nat) (begun : List (Begun α)) : Nat :=
  begun.countP fun b => was < b.stint.ending ∧ b.stint.ending ≤ now

/-- Such tasks have started and such ones have ended since. -/
structure Notes (w w' : World gauge Unit) (started : List Nat) (ended : List (Nat × Nat × Nat)) :
    Prop where
  begun : w'.memory.begun = w.memory.begun ++ started
  spans : w'.memory.spans = w.memory.spans ++ ended

namespace Notes

variable {w w' : World gauge Unit} {started : List Nat} {ended : List (Nat × Nat × Nat)}
  {number start now : Nat}

theorem refl (w : World gauge Unit) : Notes w w [] [] :=
  ⟨(List.append_nil _).symm, (List.append_nil _).symm⟩

theorem enter (h : Notes ⟨Gauge.enter number w.memory, w.outside⟩ w' started ended) :
    Notes w w' (number :: started) ended where
  begun := by
    rw [h.begun]
    exact List.append_assoc w.memory.begun [number] started
  spans := h.spans

theorem leave (h : Notes ⟨Gauge.leave number start now w.memory, w.outside⟩ w' started ended) :
    Notes w w' started ((number, start, now) :: ended) where
  begun := h.begun
  spans := by
    rw [h.spans]
    exact List.append_assoc w.memory.spans [(number, start, now)] ended

end Notes

section Poll

variable {was now free number : Nat} {queued : List (TimedTask α)} {begun : List (Begun α)}
  {w w' w'' : World gauge Unit}

theorem admits_le (free : Nat) (queued : List (TimedTask α)) : admits free queued ≤ queued.length := by
  induction queued generalizing free with
  | nil => cases free <;> exact Nat.le_refl 0
  | cons task queued ih =>
      cases free with
      | zero => exact Nat.zero_le _
      | succ free => exact Nat.succ_le_succ (ih _)

theorem admits_nil (free : Nat) : admits free ([] : List (TimedTask α)) = 0 := by
  cases free <;> rfl

theorem poll_activity (now number : Nat) (task : TimedTask α) (w : World gauge Unit) :
    (task.activity number).poll silence now w =
      if task.span = 0 then
        (.done task.result, ⟨Gauge.leave number now now (Gauge.enter number w.memory), w.outside⟩)
      else ((Begun.mk now task).left number, ⟨Gauge.enter number w.memory, w.outside⟩) :=
  rfl

/-- What is left of a task that has started goes on, or it ends. -/
theorem poll_left (now number : Nat) (b : Begun α) (w : World gauge Unit) :
    (b.left number).poll silence now w =
      if b.stint.ending ≤ now then
        (.done b.task.result, ⟨Gauge.leave number b.start now w.memory, w.outside⟩)
      else (b.left number, w) :=
  rfl

theorem crewAt_nil : crewAt now number [] queued = .ofList (TimedTask.activities number queued) :=
  rfl

theorem poll_ofList_zero (members : List (Activity gauge (Except Unit α))) :
    (Crew.ofList members).poll silence now 0 w = (.ofList members, w) := by
  induction members with
  | nil => rfl
  | cons member members ih =>
      show (let (rest, w) := (Crew.ofList members).poll silence now 0 w
        (Crew.queued member rest, w)) = _
      rw [ih]
      rfl

theorem poll_running_of_done {member : Activity gauge (Except Unit α)}
    {rest rest' : Crew gauge (Except Unit α)} {value : Except Unit α}
    (hm : member.poll silence now w = (.done value, w'))
    (hr : rest.poll silence now (free + 1) w' = (rest', w'')) :
    (Crew.running member rest).poll silence now free w = (.finished value rest', w'') := by
  unfold Crew.poll
  rw [hm]
  dsimp only
  rw [hr]

theorem poll_running_of_left {member : Activity gauge (Except Unit α)} {number : Nat} {b : Begun α}
    {rest rest' : Crew gauge (Except Unit α)} (hm : member.poll silence now w = (b.left number, w'))
    (hr : rest.poll silence now free w' = (rest', w'')) :
    (Crew.running member rest).poll silence now free w = (.running (b.left number) rest', w'') := by
  unfold Crew.poll
  rw [hm]
  show (let (rest, w) := rest.poll silence now free w'
    (Crew.running (b.left number) rest, w)) = _
  rw [hr]

/-- Of what waits, so many start as there are places for. -/
theorem poll_queued (now free number : Nat) (queued : List (TimedTask α)) (w : World gauge Unit) :
    ∃ w', (Crew.ofList (TimedTask.activities number queued)).poll silence now free w =
        (crewAt now number ((queued.take (admits free queued)).map (.mk now))
          (queued.drop (admits free queued)), w') ∧
      Notes w w' (List.range' number (admits free queued))
        (records now number ((queued.take (admits free queued)).map (.mk now))) := by
  induction queued generalizing free number w with
  | nil =>
      rw [admits_nil]
      exact ⟨w, rfl, .refl w⟩
  | cons task queued ih =>
      cases free with
      | zero => exact ⟨w, poll_ofList_zero _, .refl w⟩
      | succ free =>
          show ∃ w', (Crew.queued (task.activity number)
            (.ofList (TimedTask.activities (number + 1) queued))).poll silence now (free + 1) w = _ ∧ _
          rw [Crew.poll_queued_of_ne_zero (Nat.succ_ne_zero free), Nat.succ_sub_one, admits]
          have began := poll_activity now number task w
          by_cases hspan : task.span = 0
          · rw [if_pos hspan] at began
            obtain ⟨w', hr, hnotes⟩ := ih (free + 1) (number + 1)
              ⟨Gauge.leave number now now (Gauge.enter number w.memory), w.outside⟩
            have ended : (Begun.mk now task).stint.ending = now := by
              simp [Begun.stint, Stint.ending, hspan]
            rw [if_pos hspan]
            simp only [List.take_succ_cons, List.drop_succ_cons, List.map_cons, crewAt, records,
              List.range'_succ, ended, Nat.le_refl, if_true]
            exact ⟨w', poll_running_of_done began hr, hnotes.leave.enter⟩
          · rw [if_neg hspan] at began
            obtain ⟨w', hr, hnotes⟩ := ih free (number + 1) ⟨Gauge.enter number w.memory, w.outside⟩
            have running : ¬ (Begun.mk now task).stint.ending ≤ now := by
              simp only [Begun.stint, Stint.ending]
              omega
            rw [if_neg hspan]
            simp only [List.take_succ_cons, List.drop_succ_cons, List.map_cons, crewAt, records,
              List.range'_succ, running, if_false]
            exact ⟨w', poll_running_of_left (b := ⟨now, task⟩) began hr, hnotes.enter⟩

theorem freed_cons (was now : Nat) (b : Begun α) (begun : List (Begun α)) :
    freed was now (b :: begun) =
      freed was now begun + if was < b.stint.ending ∧ b.stint.ending ≤ now then 1 else 0 := by
  simp [freed, List.countP_cons]

/-- A round: those whose time has come end, and as many others start as there are places then. -/
theorem poll_crewAt {was now free n : Nat} {begun : List (Begun α)} (number : Nat)
    (queued : List (TimedTask α)) (w : World gauge Unit) (hle : was ≤ now)
    (hdue : ∀ b ∈ begun, was < b.stint.ending → now ≤ b.stint.ending)
    (hn : n = admits (free + freed was now begun) queued) :
    ∃ w' ended,
      (crewAt was number begun queued).poll silence now free w =
        (crewAt now number (begun ++ (queued.take n).map (.mk now)) (queued.drop n), w') ∧
      Notes w w' (List.range' (number + begun.length) n) ended ∧
      (records was number begun ++ ended).Perm
        (records now number (begun ++ (queued.take n).map (.mk now))) := by
  induction begun generalizing free number w with
  | nil =>
      subst hn
      obtain ⟨w', hr, hnotes⟩ := poll_queued now free number queued w
      exact ⟨w', _, hr, hnotes, .refl _⟩
  | cons b begun ih =>
      have others := fun b' hb' => hdue b' (List.mem_cons_of_mem b hb')
      rw [freed_cons] at hn
      rw [List.length_cons, Nat.add_comm begun.length, ← Nat.add_assoc]
      by_cases hwas : b.stint.ending ≤ was
      · have hnow : b.stint.ending ≤ now := Nat.le_trans hwas hle
        rw [if_neg fun h => Nat.not_lt_of_le hwas h.1, Nat.add_zero] at hn
        obtain ⟨w', ended, hr, hnotes, hover⟩ := ih (number + 1) w others hn
        simp only [List.cons_append, crewAt, records, hwas, hnow, if_true]
        refine ⟨w', ended, ?_, hnotes, hover.cons _⟩
        unfold Crew.poll
        rw [hr]
      by_cases hnow : b.stint.ending ≤ now
      · -- It ends just now, since nothing has been passed over.
        have same : b.stint.ending = now :=
          Nat.le_antisymm hnow (hdue b List.mem_cons_self (Nat.lt_of_not_le hwas))
        rw [if_pos ⟨Nat.lt_of_not_le hwas, hnow⟩, ← Nat.add_assoc, Nat.add_right_comm] at hn
        obtain ⟨w', ended, hr, hnotes, hover⟩ := ih (number + 1)
          ⟨Gauge.leave number b.start now w.memory, w.outside⟩ others hn
        have ends := poll_left now number b w
        rw [if_pos hnow] at ends
        simp only [List.cons_append, crewAt, records, hwas, hnow, if_true, if_false]
        refine ⟨w', _, poll_running_of_done ends hr, hnotes.leave, ?_⟩
        rw [same]
        exact List.perm_middle.trans (hover.cons _)
      · rw [if_neg fun h => hnow h.2, Nat.add_zero] at hn
        obtain ⟨w', ended, hr, hnotes, hover⟩ := ih (number + 1) w others hn
        have stays := poll_left now number b w
        rw [if_neg hnow] at stays
        simp only [List.cons_append, crewAt, records, hwas, hnow, if_false]
        exact ⟨w', ended, poll_running_of_left stays hr, hnotes, hover⟩

end Poll

section Wake

variable {now due free number : Nat} {queued : List (TimedTask α)} {begun : List (Begun α)}
  {m : Gauge}

theorem busy_crewAt (now number : Nat) (begun : List (Begun α)) (queued : List (TimedTask α)) :
    (crewAt now number begun queued).busy = begun.countP fun b => now < b.stint.ending := by
  induction begun generalizing number with
  | nil => exact Crew.busy_ofList _
  | cons b begun ih =>
      rw [List.countP_cons, ← ih (number + 1)]
      by_cases h : b.stint.ending ≤ now
      · simp [crewAt, h, Crew.busy]
      · simp [crewAt, h, Crew.busy]

theorem results?_crewAt {results : List (Except Unit α)} :
    (crewAt now number begun queued).results? = some results ↔
      queued = [] ∧ (∀ b ∈ begun, b.stint.ending ≤ now) ∧ begun.map (·.task.result) = results := by
  induction begun generalizing number results with
  | nil =>
      cases queued with
      | nil =>
          refine ⟨fun h => ⟨rfl, nofun, Option.some.inj h⟩, ?_⟩
          rintro ⟨-, -, rfl⟩
          rfl
      | cons task queued => exact ⟨nofun, nofun⟩
  | cons b begun ih =>
      by_cases h : b.stint.ending ≤ now
      · rw [crewAt, if_pos h, Crew.results?, Option.map_eq_some_iff]
        constructor
        · rintro ⟨others, hothers, rfl⟩
          obtain ⟨hqueued, hover, rfl⟩ := ih.mp hothers
          exact ⟨hqueued, List.forall_mem_cons.mpr ⟨h, hover⟩, rfl⟩
        · rintro ⟨hqueued, hover, rfl⟩
          exact ⟨_, ih.mpr ⟨hqueued, (List.forall_mem_cons.mp hover).2, rfl⟩, rfl⟩
      · rw [crewAt, if_neg h]
        exact ⟨nofun, fun hover => (h (hover.2.1 b List.mem_cons_self)).elim⟩

theorem wake_ofList_zero (members : List (Activity gauge (Except Unit α))) :
    (Crew.ofList members).wake now m 0 = none := by
  induction members with
  | nil => rfl
  | cons member members ih => exact ih

theorem wake_queue (queued : List (TimedTask α)) :
    (Crew.ofList (TimedTask.activities number queued)).wake now m free =
      if queued = [] ∨ free = 0 then none else some now := by
  by_cases hfree : free = 0
  · rw [if_pos (.inr hfree), hfree]
    exact wake_ofList_zero _
  · cases queued with
    | nil => exact (if_pos (.inl rfl)).symm
    | cons task queued =>
        rw [if_neg (by simp [hfree])]
        exact if_neg hfree

theorem wake_left (b : Begun α) (rest : Crew gauge (Except Unit α)) :
    (Crew.running (b.left number) rest).wake now m free =
      earlier (some (max now b.stint.ending)) (rest.wake now m free) :=
  rfl

theorem ended_of_wake_eq_none (h : (crewAt now number begun queued).wake now m free = none) :
    (∀ b ∈ begun, b.stint.ending ≤ now) ∧ (queued = [] ∨ free = 0) := by
  induction begun generalizing number with
  | nil =>
      rw [crewAt_nil, wake_queue] at h
      exact ⟨nofun, or_iff_not_imp_left.mpr (by simpa using h)⟩
  | cons b begun ih =>
      by_cases hover : b.stint.ending ≤ now
      · rw [crewAt, if_pos hover] at h
        obtain ⟨hothers, hqueued⟩ := ih h
        exact ⟨List.forall_mem_cons.mpr ⟨hover, hothers⟩, hqueued⟩
      · rw [crewAt, if_neg hover, wake_left] at h
        cases (earlier_eq_none.mp h).1

/-- A crew wakes when the first of its members ends, or at once if somebody waits and there is a
place. -/
theorem wake_crewAt (h : (crewAt now number begun queued).wake now m free = some due) :
    now ≤ due ∧ (∀ b ∈ begun, now < b.stint.ending → due ≤ b.stint.ending) ∧
      (queued ≠ [] → free ≠ 0 → due = now) := by
  induction begun generalizing number due with
  | nil =>
      rw [crewAt_nil, wake_queue] at h
      obtain ⟨-, rfl⟩ : _ ∧ now = due := by simpa using h
      exact ⟨Nat.le_refl _, nofun, fun _ _ => rfl⟩
  | cons b begun ih =>
      by_cases hover : b.stint.ending ≤ now
      · rw [crewAt, if_pos hover] at h
        obtain ⟨hle, hdue, hplace⟩ := ih h
        exact ⟨hle, List.forall_mem_cons.mpr ⟨fun hlt => by omega, hdue⟩, hplace⟩
      · rw [crewAt, if_neg hover, wake_left] at h
        cases hrest : (crewAt now (number + 1) begun queued).wake now m free with
        | none =>
            obtain ⟨hothers, hqueued⟩ := ended_of_wake_eq_none hrest
            rw [hrest] at h
            obtain rfl : max now b.stint.ending = due := Option.some.inj h
            refine ⟨by omega, List.forall_mem_cons.mpr ⟨fun _ => by omega, fun b' hb' hlt => ?_⟩,
              fun hq hf => (hqueued.elim hq hf).elim⟩
            exact absurd (hothers b' hb') (Nat.not_le_of_lt hlt)
        | some other =>
            obtain ⟨hle, hdue, hplace⟩ := ih hrest
            rw [hrest] at h
            obtain rfl : min (max now b.stint.ending) other = due := Option.some.inj h
            refine ⟨by omega, List.forall_mem_cons.mpr ⟨fun _ => by omega, fun b' hb' hlt => ?_⟩,
              fun hq hf => ?_⟩
            · exact Nat.le_trans (Nat.min_le_right _ _) (hdue b' hb' hlt)
            · rw [hplace hq hf]
              omega

end Wake

/-! ## Fair rounds -/

section Fair

open Timetable

variable {limit was now free : Nat} {table : Timetable} {queued tasks : List (TimedTask α)}
  {begun : List (Begun α)} {w : World gauge Unit}

theorem fair_admits (hf : Fair limit table) (hs : ∀ s ∈ table, s.start ≤ now)
    (hw : queued ≠ [] → ∀ t < now, table.inFlight t = limit) (hp : free + table.inFlight now = limit) :
    Fair limit (table ++ ((queued.take (admits free queued)).map (.mk now)).map Begun.stint) ∧
      (queued.drop (admits free queued) ≠ [] → ∀ t ≤ now,
        inFlight (table ++ ((queued.take (admits free queued)).map (.mk now)).map Begun.stint) t =
          limit) := by
  induction queued generalizing free table with
  | nil =>
      rw [admits_nil]
      exact ⟨by simpa using hf, fun h => (h rfl).elim⟩
  | cons task queued ih =>
      have waited := hw (List.cons_ne_nil task queued)
      cases free with
      | zero =>
          have full : table.inFlight now = limit := by omega
          refine ⟨by simpa [admits] using hf, fun _ t ht => ?_⟩
          rcases Nat.lt_or_eq_of_le ht with hlt | rfl
          · simpa [admits] using waited t hlt
          · simpa [admits] using full
      | succ free =>
          have ahead : Fair limit (table ++ [(Begun.mk now task).stint]) :=
            .snoc hf hs (by show table.inFlight now < limit; omega) waited
          have started : ∀ s ∈ table ++ [(Begun.mk now task).stint], s.start ≤ now := by
            intro s hm
            rcases List.mem_append.mp hm with hm | hm
            · exact hs s hm
            · rw [List.mem_singleton.mp hm]
              exact Nat.le_refl now
          have still : ∀ t < now,
              inFlight (table ++ [(Begun.mk now task).stint]) t = limit := by
            intro t ht
            rw [inFlight_snoc_of_lt ht]
            exact waited t ht
          have place : (if task.span = 0 then free + 1 else free) +
              inFlight (table ++ [(Begun.mk now task).stint]) now = limit := by
            have taken : (Begun.mk now task).stint.UnderWay now ↔ task.span ≠ 0 := by
              simp [Stint.UnderWay, Stint.ending, Begun.stint, Nat.pos_iff_ne_zero]
            rw [inFlight_snoc]
            simp only [taken]
            split_ifs <;> omega
          rw [admits, List.take_succ_cons, List.drop_succ_cons, List.map_cons, List.map_cons,
            List.append_cons]
          exact ih ahead started (fun _ => still) place

theorem busy_eq_inFlight (hs : ∀ b ∈ begun, b.start ≤ now) (number : Nat)
    (queued : List (TimedTask α)) :
    (crewAt now number begun queued).busy = inFlight (begun.map Begun.stint) now := by
  rw [busy_crewAt, inFlight, List.countP_map]
  refine List.countP_congr fun b hb => ?_
  have started : b.stint.start ≤ now := hs b hb
  simp [Stint.UnderWay, started]

theorem freed_add_inFlight (hs : ∀ b ∈ begun, b.start ≤ was) (hle : was ≤ now) :
    freed was now begun + inFlight (begun.map Begun.stint) now =
      inFlight (begun.map Begun.stint) was := by
  induction begun with
  | nil => rfl
  | cons b begun ih =>
      obtain ⟨started, others⟩ := List.forall_mem_cons.mp hs
      have split := ih others
      have start : b.stint.start ≤ was := started
      have mine : ((if was < b.stint.ending ∧ b.stint.ending ≤ now then 1 else 0) +
          if b.stint.UnderWay now then 1 else 0) = if b.stint.UnderWay was then 1 else 0 := by
        have then_still : b.stint.UnderWay was ↔ was < b.stint.ending := and_iff_right start
        have now_still : b.stint.UnderWay now ↔ now < b.stint.ending :=
          and_iff_right (Nat.le_trans start hle)
        simp only [then_still, now_still]
        split_ifs <;> omega
      rw [freed_cons, List.map_cons, inFlight_cons, inFlight_cons]
      omega

/-- How far a batch has got at an instant, with so many places: those that have started did so in their
turn, and all of this has been noted. -/
structure Round (limit : Nat) (tasks : List (TimedTask α)) (now : Nat) (begun : List (Begun α))
    (queued : List (TimedTask α)) (w : World gauge Unit) : Prop where
  all : begun.map (·.task) ++ queued = tasks
  fair : Fair limit (begun.map Begun.stint)
  started : ∀ b ∈ begun, b.start ≤ now
  waited : queued ≠ [] → ∀ t < now, inFlight (begun.map Begun.stint) t = limit
  noted : w.memory.begun = List.range begun.length
  recorded : w.memory.spans.Perm (records now 0 begun)

namespace Round

/-- A batch gets on by a poll for which nothing is due earlier, and before which no place was free for
those who wait. -/
theorem poll (hr : Round limit tasks was begun queued w) (hle : was ≤ now)
    (hdue : ∀ b ∈ begun, was < b.stint.ending → now ≤ b.stint.ending)
    (hplace : queued ≠ [] → limit - inFlight (begun.map Begun.stint) was ≠ 0 → now = was) :
    ∃ begun' queued' w',
      (crewAt was 0 begun queued).poll silence now (limit - (crewAt was 0 begun queued).busy) w =
        (crewAt now 0 begun' queued', w') ∧ Round limit tasks now begun' queued' w' := by
  have bound := hr.fair.inFlight_le was
  have split := freed_add_inFlight hr.started hle
  rw [busy_eq_inFlight hr.started]
  obtain ⟨w', ended, hpoll, hnotes, hover⟩ := poll_crewAt 0 queued w hle hdue rfl
  have before : ∀ s ∈ begun.map Begun.stint, s.start ≤ was := List.forall_mem_map.mpr hr.started
  have waited : queued ≠ [] → ∀ t < now, inFlight (begun.map Begun.stint) t = limit := by
    intro hq t ht
    by_cases hlt : t < was
    · exact hr.waited hq t hlt
    · -- Since then nothing has ended, and all places were taken.
      have full : inFlight (begun.map Begun.stint) was = limit := by
        by_contra hne
        have := hplace hq (by omega)
        omega
      rw [inFlight_eq_of_quiet before (Nat.le_of_not_lt hlt), full]
      intro s hs hlt
      obtain ⟨b, hb, rfl⟩ := List.mem_map.mp hs
      exact Nat.lt_of_lt_of_le ht (hdue b hb hlt)
  obtain ⟨fair, still⟩ := fair_admits hr.fair (fun s hs => Nat.le_trans (before s hs) hle) waited
    (by omega : limit - inFlight (begun.map Begun.stint) was + freed was now begun + _ = limit)
  rw [← List.map_append] at fair still
  have admitted := admits_le (limit - inFlight (begun.map Begun.stint) was + freed was now begun) queued
  generalize admits (limit - inFlight (begun.map Begun.stint) was + freed was now begun) queued = n
    at fair still admitted hpoll hnotes hover
  refine ⟨_, _, w', hpoll, ?_⟩
  exact {
    all := by
      rw [List.map_append, List.map_map, List.append_assoc,
        show (Begun.task ∘ Begun.mk now : TimedTask α → TimedTask α) = id from rfl, List.map_id,
        List.take_append_drop, hr.all]
    fair := fair
    started := by
      intro b hb
      rcases List.mem_append.mp hb with hb | hb
      · exact Nat.le_trans (hr.started b hb) hle
      · obtain ⟨task, -, rfl⟩ := List.mem_map.mp hb
        exact Nat.le_refl now
    waited := fun hq t ht => still hq t (Nat.le_of_lt ht)
    noted := by
      rw [hnotes.begun, hr.noted, List.length_append, List.length_map, List.length_take,
        Nat.min_eq_left admitted, List.range_eq_range', List.range_eq_range', List.range'_append_1]
    recorded := by
      rw [hnotes.spans]
      exact (hr.recorded.append_right ended).trans hover }

end Round

end Fair

end ChainWatch.Rehearsal
