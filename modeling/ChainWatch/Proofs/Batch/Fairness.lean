import ChainWatch.Proofs.Batch.Rounds

/-!
# Batches are fair

Whatever the tasks of a batch take and however they end, the batch comes to its end, and its timetable
is fair: each task starts once, in the order of the tasks and as soon as there is a place for it. Results
are reported in the order of the tasks. How a task ends has no influence on when any task runs.
-/

namespace ChainWatch.Rehearsal

open Concurrency Timetable

variable {α : Type}

/-! ## From round to round -/

section Proceeding

variable {limit now due : Nat} {tasks : List (TimedTask α)} {w : World gauge Unit}
  {p : Activity gauge (List (Except Unit α))}

/-- What a batch is on the way to its end, and what has become of it in the end. -/
inductive Proceeding (limit : Nat) (tasks : List (TimedTask α)) (now : Nat) :
    Activity gauge (List (Except Unit α)) → World gauge Unit → Prop where
  | underWay {begun : List (Begun α)} {queued : List (TimedTask α)} {w : World gauge Unit}
    (round : Round limit tasks now begun queued w) :
    Proceeding limit tasks now (.join limit (crewAt now 0 begun queued) .done) w
  | complete {begun : List (Begun α)} {w : World gauge Unit} (round : Round limit tasks now begun [] w)
    (ended : ∀ b ∈ begun, b.stint.ending ≤ now) :
    Proceeding limit tasks now (.done (tasks.map (·.result))) w

theorem Round.results_eq {begun : List (Begun α)} (hr : Round limit tasks now begun [] w) :
    begun.map (·.task.result) = tasks.map (·.result) := by
  rw [← hr.all, List.append_nil, List.map_map]
  rfl

/-- A poll for which the batch wakes brings it on. -/
theorem Proceeding.poll (hp : Proceeding limit tasks now p w) (hw : p.wake now w.memory = some due) :
    Proceeding limit tasks due (p.poll silence due w).1 (p.poll silence due w).2 := by
  cases hp with
  | complete => cases hw
  | @underWay begun queued _ round =>
      have woken : now ≤ due ∧ (∀ b ∈ begun, now < b.stint.ending → due ≤ b.stint.ending) ∧
          (queued ≠ [] → limit - inFlight (begun.map Begun.stint) now ≠ 0 → due = now) := by
        rw [← busy_eq_inFlight round.started 0 queued]
        unfold Activity.wake at hw
        split at hw
        · obtain rfl := Option.some.inj hw
          exact ⟨Nat.le_refl _, fun _ _ => Nat.le_of_lt, fun _ _ => rfl⟩
        · exact wake_crewAt hw
      obtain ⟨hle, hdue, hplace⟩ := woken
      obtain ⟨begun', queued', w', hpoll, hround⟩ := round.poll hle hdue hplace
      unfold Activity.poll
      rw [hpoll]
      dsimp only
      split
      · rename_i results hresults
        obtain ⟨rfl, hended, rfl⟩ := results?_crewAt.mp hresults
        rw [hround.results_eq]
        exact .complete hround hended
      · exact .underWay hround

/-- With a place at all, a batch wakes until it has come to its end. -/
theorem Proceeding.ended_of_wake_eq_none (hp : Proceeding limit tasks now p w) (hpos : 0 < limit)
    (hw : p.wake now w.memory = none) :
    p = .done (tasks.map (·.result)) ∧ ∃ begun, Round limit tasks now begun [] w ∧
      ∀ b ∈ begun, b.stint.ending ≤ now := by
  cases hp with
  | complete round ended => exact ⟨rfl, _, round, ended⟩
  | @underWay begun queued _ round =>
      unfold Activity.wake at hw
      split at hw
      · cases hw
      · rename_i hnone
        obtain ⟨hended, hqueued⟩ := Rehearsal.ended_of_wake_eq_none hw
        have idle : (crewAt now 0 begun queued).busy = 0 := by
          rw [busy_crewAt, List.countP_eq_zero]
          intro b hb
          simpa using hended b hb
        have none_left : queued = [] := hqueued.resolve_right (by omega)
        rw [results?_crewAt.mpr ⟨none_left, hended, rfl⟩] at hnone
        cases hnone

/-- A batch comes to its end, with the results of its tasks in their order. -/
theorem exists_round_of_joinBounded (hpos : 0 < limit) (tasks : List (TimedTask α)) :
    let run := (Activity.joinBounded limit (TimedTask.activities 0 tasks)).run silence 0
      ⟨⟨0, 0, [], []⟩, ()⟩
    run.value? = some (tasks.map (·.result)) ∧ ∃ begun,
      Round limit tasks run.time begun [] run.world ∧ ∀ b ∈ begun, b.stint.ending ≤ run.time := by
  have first : Round limit tasks 0 [] tasks ⟨⟨0, 0, [], []⟩, ()⟩ :=
    ⟨rfl, .nil, nofun, fun _ _ => nofun, rfl, .refl _⟩
  obtain ⟨q, hq, hwake, hvalue⟩ := Activity.exists_rest_of_wakes (fun now => Proceeding limit tasks now)
    silence 0 (.underWay first) fun _ _ _ _ => Proceeding.poll
  obtain ⟨rfl, begun, round, ended⟩ := hq.ended_of_wake_eq_none hpos hwake
  exact ⟨hvalue, begun, round, ended⟩

end Proceeding

/-! ## Timetables of batches -/

/-- The run of a batch with so many places went by this timetable and came to this outcome, and all of
it was as it must be. -/
structure Fulfils (limit : Nat) (tasks : List (TimedTask α)) (table : Timetable)
    (outcome : BatchOutcome α) (run : Ending gauge Unit (Option (BatchOutcome α))) : Prop where
  spans_eq : table.map (·.span) = tasks.map (·.span)
  fair : table.Fair limit
  begun_eq : run.world.memory.begun = List.range tasks.length
  ordered : table.Pairwise fun s s' => s.start ≤ s'.start
  /-- Each task has been noted once, with its start and its end. -/
  recorded : run.world.memory.spans.Perm
    (table.mapIdx fun number s => (number, s.start, s.start + s.span))
  bounded : ∀ t, table.inFlight t ≤ limit
  /-- While a task is still to start, no place is free. -/
  busy : ∀ s ∈ table, ∀ t < s.start, table.inFlight t = limit
  value_eq : run.value? = some (some outcome)
  succeeded_eq : outcome.succeeded = tasks.filterMap (·.result.toOption)
  failed_eq : outcome.failed = tasks.countP fun task => !task.result.isOk
  total_eq : outcome.succeeded.length + outcome.failed = tasks.length
  allFailed_iff : outcome.allFailed = true ↔ tasks ≠ [] ∧ ∀ task ∈ tasks, ∃ e, task.result = .error e

theorem records_eq_mapIdx {now number : Nat} {begun : List (Begun α)}
    (h : ∀ b ∈ begun, b.stint.ending ≤ now) :
    records now number begun =
      (begun.map Begun.stint).mapIdx fun i s => (number + i, s.start, s.start + s.span) := by
  induction begun generalizing number with
  | nil => rfl
  | cons b begun ih =>
      obtain ⟨hb, hothers⟩ := List.forall_mem_cons.mp h
      rw [records, if_pos hb, List.map_cons, List.mapIdx_cons, ih hothers]
      simp only [Nat.add_zero, Nat.add_assoc, Nat.add_comm 1]
      rfl

namespace TimedTask

theorem exists_fulfils {limit : Nat} (hpos : 0 < limit) (hmax : limit ≤ Batch.maxLimit)
    (tasks : List (TimedTask α)) :
    ∃ table, Fulfils limit tasks table (.ofResults (tasks.map (·.result))) (runBatch limit tasks) := by
  obtain ⟨hvalue, begun, round, ended⟩ := exists_round_of_joinBounded hpos tasks
  have total := BatchOutcome.total_ofResults (tasks.map (·.result))
  rw [BatchOutcome.total, List.length_map] at total
  have length_eq : begun.length = tasks.length := by
    rw [← round.all, List.append_nil, List.length_map]
  unfold runBatch Batch.run?
  rw [if_neg (Nat.not_lt.mpr hmax), Activity.run_bind_of_value hvalue,
    show (pure (some (.ofResults (tasks.map (·.result)))) : Activity gauge (Option (BatchOutcome α))) =
      .done (some (.ofResults (tasks.map (·.result)))) from rfl, Activity.run_done]
  refine ⟨begun.map Begun.stint, ?_⟩
  exact {
    spans_eq := by
      rw [← round.all, List.append_nil, List.map_map, List.map_map]
      rfl
    fair := round.fair
    begun_eq := length_eq ▸ round.noted
    ordered := round.fair.ordered
    recorded := by
      have recorded := round.recorded
      rw [records_eq_mapIdx ended] at recorded
      simpa using recorded
    bounded := round.fair.inFlight_le
    busy := fun s hs t ht => round.fair.inFlight_eq hs ht
    value_eq := rfl
    succeeded_eq := List.filterMap_map ..
    failed_eq := List.countP_map ..
    total_eq := total
    allFailed_iff := by
      rw [BatchOutcome.allFailed_iff]
      simp }

/-- A batch of timed tasks, with no more places than there can be. It ends; its tasks run by a fair
timetable, with no more of them under way than there are places, and with all places taken while one has
still to start; and the results are in the order of the tasks. All tasks that take as long as these run by
the same timetable, however they end. -/
theorem runBatch_fulfils (requested : Nat) (tasks : List (TimedTask α))
    (hmax : requested ≤ Batch.maxLimit) :
    ∃ table outcome, Fulfils (Batch.limit requested) tasks table outcome
        (runBatch (Batch.limit requested) tasks) ∧
      ∀ tasks' : List (TimedTask α), tasks'.map (·.span) = tasks.map (·.span) →
        ∃ outcome', Fulfils (Batch.limit requested) tasks' table outcome'
          (runBatch (Batch.limit requested) tasks') := by
  have hpos : 0 < Batch.limit requested := Nat.lt_of_lt_of_le Nat.one_pos (Nat.le_max_left 1 requested)
  have hlimit : Batch.limit requested ≤ Batch.maxLimit := Nat.max_le.mpr ⟨by decide, hmax⟩
  obtain ⟨table, fulfils⟩ := exists_fulfils hpos hlimit tasks
  refine ⟨table, _, fulfils, fun tasks' hspans => ?_⟩
  obtain ⟨table', fulfils'⟩ := exists_fulfils hpos hlimit tasks'
  have same : table' = table :=
    fulfils'.fair.unique fulfils.fair (by rw [fulfils'.spans_eq, hspans, fulfils.spans_eq])
  exact ⟨_, same ▸ fulfils'⟩

/-- Four tasks, of which one fails and one takes no time. -/
def mixed : List (TimedTask Nat) := [⟨3, .ok 1⟩, ⟨1, .error ()⟩, ⟨2, .ok 3⟩, ⟨0, .ok 4⟩]

/-- With two places the third task starts when the second one has ended, and the last one, which takes no
time, waits for a place like all others. -/
theorem runBatch_of_mixed : 2 ≤ Batch.maxLimit ∧ ∃ outcome,
    Fulfils 2 mixed [⟨0, 3⟩, ⟨0, 1⟩, ⟨1, 2⟩, ⟨3, 0⟩] outcome (runBatch 2 mixed) := by
  have hmax : 2 ≤ Batch.maxLimit := by decide
  obtain ⟨table, outcome, fulfils, -⟩ := runBatch_fulfils 2 mixed hmax
  have fair : Fair 2 ([] ++ [⟨0, 3⟩] ++ [⟨0, 1⟩] ++ [⟨1, 2⟩] ++ [⟨3, 0⟩]) :=
    .snoc (.snoc (.snoc (.snoc .nil nofun (by decide) nofun) (by decide) (by decide) nofun) (by decide)
      (by decide) (by decide)) (by decide) (by decide) (by decide)
  obtain rfl := fulfils.fair.unique fair (by rw [fulfils.spans_eq]; rfl)
  exact ⟨hmax, outcome, fulfils⟩

end TimedTask

end ChainWatch.Rehearsal
