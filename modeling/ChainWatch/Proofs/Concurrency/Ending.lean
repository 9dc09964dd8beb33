import ChainWatch.Proofs.Concurrency.Footprint

/-!
# Activities that come to an end

An activity that never waits for the memory to change cannot be held up: whatever the handler answers
and however long it takes, its run ends with a value (`Activity.exists_value_of_waitFree`).
-/

namespace ChainWatch.Concurrency

variable {I : Interface} {σ α β γ ε : Type} {allowed : Event I → Prop}

/-- The activity waits for time and for answers only. -/
abbrev Activity.WaitFree (p : Activity I α) : Prop :=
  p.Confined fun event => ∀ m, event ≠ .noticed m

def Activity.value? : Activity I α → Option α
  | .done value => some value
  | _ => none

theorem Activity.run_of_value {h : Handler I σ} {now : Nat} {p : Activity I α} {w : World I σ}
    {value : α} (hv : p.value? = some value) : p.run h now w = ⟨some value, now, w⟩ := by
  cases p with
  | done v =>
      cases hv
      exact run_done h now value w
  | _ => cases hv

/-- A run leaves an activity that has nothing to wake up for, and for which all that every poll
preserves still holds, if it is polled at the instants for which it wakes. -/
theorem Activity.exists_rest_of_wakes (Inv : Nat → Activity I α → World I σ → Prop) (h : Handler I σ)
    (now : Nat) {p : Activity I α} {w : World I σ} (hi : Inv now p w)
    (hs : ∀ now due p w, Inv now p w → p.wake now w.memory = some due →
      Inv due (p.poll h due w).1 (p.poll h due w).2) :
    ∃ q, Inv (p.run h now w).time q (p.run h now w).world ∧
      q.wake (p.run h now w).time (p.run h now w).world.memory = none ∧
      (p.run h now w).value? = q.value? := by
  fun_induction Activity.run h now p w with
  | case1 now p w due hw ih => exact ih (hs now due p w hi hw)
  | case2 now w value hw => exact ⟨.done value, hi, hw, rfl⟩
  | case3 now p w _ hw hdone =>
      refine ⟨p, hi, hw, ?_⟩
      cases p with
      | done value => exact (hdone value hw rfl .rfl).elim
      | _ => rfl

theorem Activity.exists_rest_of_run (Inv : Activity I α → World I σ → Prop) (h : Handler I σ)
    (now : Nat) {p : Activity I α} {w : World I σ} (hi : Inv p w)
    (hs : ∀ due p w, Inv p w → Inv (p.poll h due w).1 (p.poll h due w).2) :
    ∃ q, Inv q (p.run h now w).world ∧
      q.wake (p.run h now w).time (p.run h now w).world.memory = none ∧
      (p.run h now w).value? = q.value? :=
  exists_rest_of_wakes (fun _ => Inv) h now hi fun _ due p w hq _ => hs due p w hq

/-! ## Polling -/

theorem Crew.results?_poll {h : Handler I σ} {now : Nat} : {crew : Crew I β} → {free : Nat} →
    {w : World I σ} → {results : List β} → crew.results? = some results →
    (crew.poll h now free w).1.results? = some results
  | .nil, _, _, _, hr => hr
  | .finished value rest, free, w, _, hr => by
      obtain ⟨values, hv, rfl⟩ := Option.map_eq_some_iff.mp hr
      simp [Crew.poll, Crew.results?, results?_poll hv]

theorem confined_conclude {h : Handler I σ} {now : Nat} {request : I.Request}
    {next : I.Answer request → Activity I α} (hn : ∀ answer, (next answer).Confined allowed)
    (ih : ∀ answer w, ((next answer).poll h now w).1.Confined allowed) (w : World I σ) :
    (h.conclude now request next (fun answer w => (next answer).poll h now w) w).1.Confined
      allowed := by
  unfold Handler.conclude
  split
  · exact ih _ _
  · split
    · exact ih _ _
    · exact hn _

mutual

theorem Activity.confined_poll {α : Type} (h : Handler I σ) (now : Nat) :
    (p : Activity I α) → (w : World I σ) → p.Confined allowed → (p.poll h now w).1.Confined allowed
  | .done _, _, _ => trivial
  | .touch change next, w, hp => by
      unfold Activity.poll
      exact (next now w.memory).confined_poll h now _ (hp now w.memory).2
  | .perform request next, w, hp => by
      unfold Activity.poll
      dsimp only
      split
      · exact confined_conclude (fun answer => (hp.2 answer).2)
          (fun answer w => (next answer).confined_poll h now w (hp.2 answer).2) _
      · exact hp.2
  | .settleAt due request next, w, hp => by
      unfold Activity.poll
      split
      · exact confined_conclude (fun answer => (hp answer).2)
          (fun answer w => (next answer).confined_poll h now w (hp answer).2) _
      · exact hp
  | .pause span next, w, hp => by
      unfold Activity.poll
      split
      · exact next.confined_poll h now w hp
      · exact hp
  | .resumeAt due next, w, hp => by
      unfold Activity.poll
      split
      · exact next.confined_poll h now w hp
      · exact hp
  | .waitUntil ready next, w, hp => by
      unfold Activity.poll
      split
      · exact next.confined_poll h now w hp.2
      · exact hp
  | .join limit crew next, w, hp => by
      obtain ⟨hl, hc, hn⟩ := hp
      unfold Activity.poll
      dsimp only
      split
      · exact (next _).confined_poll h now _ (hn _)
      · rename_i hnone
        refine ⟨fun _ => hl ?_, crew.confined_poll h now _ w hc, hn⟩
        cases hr : crew.results? with
        | none => rfl
        | some results => simp [Crew.results?_poll hr] at hnone
  | .tryPair left right next, w, hp => by
      obtain ⟨hl, hr, hn⟩ := hp
      have hleft := left.confined_poll h now w hl
      unfold Activity.poll
      split
      · exact (next _).confined_poll h now _ (hn _)
      · rename_i left' w' _ heq
        rw [heq] at hleft
        have hright := right.confined_poll h now w' hr
        split
        · exact (next _).confined_poll h now _ (hn _)
        · exact (next _).confined_poll h now _ (hn _)
        · rw [‹right.poll h now w' = _›] at hright
          exact ⟨hleft, hright, hn⟩
termination_by structural p => p

theorem Crew.confined_poll {β : Type} (h : Handler I σ) (now : Nat) :
    (crew : Crew I β) → (free : Nat) → (w : World I σ) → crew.Confined allowed →
      (crew.poll h now free w).1.Confined allowed
  | .nil, _, _, _ => trivial
  | .finished _ rest, free, w, hc => rest.confined_poll h now free w hc
  | .running member rest, free, w, hc => by
      obtain ⟨hm, hr⟩ := hc
      have hmember := member.confined_poll h now w hm
      unfold Crew.poll
      split
      · exact rest.confined_poll h now _ _ hr
      · rename_i heq
        rw [heq] at hmember
        exact ⟨hmember, rest.confined_poll h now _ _ hr⟩
  | .queued member rest, free, w, hc => by
      obtain ⟨hm, hr⟩ := hc
      have hmember := member.confined_poll h now w hm
      unfold Crew.poll
      split
      · exact ⟨hm, rest.confined_poll h now _ _ hr⟩
      · split
        · exact rest.confined_poll h now _ _ hr
        · rename_i heq
          rw [heq] at hmember
          exact ⟨hmember, rest.confined_poll h now _ _ hr⟩
termination_by structural crew => crew

end

/-! ## Waking -/

theorem earlier_eq_none {a b : Option Nat} : earlier a b = none ↔ a = none ∧ b = none := by
  cases a <;> cases b <;> simp [earlier]

mutual

/-- Only a finished activity has nothing to wake up for. -/
theorem Activity.eq_done_of_wake_eq_none {α : Type} (hf : ∀ m, ¬ allowed (.noticed m)) (now : Nat)
    (memory : I.Memory) :
    (p : Activity I α) → p.Confined allowed → p.wake now memory = none → ∃ value, p = .done value
  | .done value, _, _ => ⟨value, rfl⟩
  | .touch _ _, _, hw => by simp [Activity.wake] at hw
  | .perform _ _, _, hw => by simp [Activity.wake] at hw
  | .settleAt _ _ _, _, hw => by simp [Activity.wake] at hw
  | .pause _ _, _, hw => by simp [Activity.wake] at hw
  | .resumeAt _ _, _, hw => by simp [Activity.wake] at hw
  | .waitUntil _ _, hp, _ => (hf memory (hp.1 memory)).elim
  | .join limit crew next, hp, hw => by
      obtain ⟨hl, hc, -⟩ := hp
      unfold Activity.wake at hw
      split at hw
      · cases hw
      · rename_i hnone
        obtain ⟨hb, hr⟩ := crew.results?_of_wake_eq_none hf now memory _ hc hw
        have hpos := hl hnone
        rw [hnone] at hr
        exact absurd (hr (by omega)) (by simp)
  | .tryPair left right next, hp, hw => by
      obtain ⟨hl, hr, -⟩ := hp
      unfold Activity.wake at hw
      split at hw
      · cases hw
      · cases hw
      · cases hw
      · rename_i hle hre hboth
        obtain ⟨hwl, hwr⟩ := earlier_eq_none.mp hw
        obtain ⟨b, rfl⟩ := left.eq_done_of_wake_eq_none hf now memory hl hwl
        obtain ⟨c, rfl⟩ := right.eq_done_of_wake_eq_none hf now memory hr hwr
        cases b with
        | error e => exact absurd rfl (hle e)
        | ok b =>
            cases c with
            | error e => exact absurd rfl (hre e)
            | ok c => exact absurd rfl (hboth b c rfl)
termination_by structural p => p

/-- A crew has nothing to wake up for when nobody runs and nobody can be started. -/
theorem Crew.results?_of_wake_eq_none {β : Type} (hf : ∀ m, ¬ allowed (.noticed m)) (now : Nat)
    (memory : I.Memory) :
    (crew : Crew I β) → (free : Nat) → crew.Confined allowed →
      crew.wake now memory free = none → crew.busy = 0 ∧ (free ≠ 0 → crew.results?.isSome)
  | .nil, _, _, _ => ⟨rfl, fun _ => rfl⟩
  | .finished _ rest, free, hc, hw => by
      have hr := rest.results?_of_wake_eq_none hf now memory free hc hw
      simpa [Crew.busy, Crew.results?] using hr
  | .running member rest, free, hc, hw => by
      simp only [Crew.wake] at hw
      split at hw
      · cases hw
      · rename_i hrunning
        obtain ⟨hwm, -⟩ := earlier_eq_none.mp hw
        obtain ⟨value, rfl⟩ := member.eq_done_of_wake_eq_none hf now memory hc.1 hwm
        exact absurd rfl (hrunning value)
  | .queued _ rest, free, hc, hw => by
      unfold Crew.wake at hw
      split at hw
      · rename_i hfree
        exact ⟨(rest.results?_of_wake_eq_none hf now memory 0 hc.2 hw).1, fun h => absurd hfree h⟩
      · cases hw
termination_by structural crew => crew

end

/-! ## Runs -/

namespace Activity

theorem exists_value_of_waitFree (h : Handler I σ) (now : Nat) (p : Activity I α)
    (w : World I σ) (hp : p.WaitFree) : ∃ value, (p.run h now w).value? = some value := by
  obtain ⟨q, hq, hw, hv⟩ :=
    exists_rest_of_run (fun q _ => q.WaitFree) h now hp fun due q w hq => q.confined_poll h due w hq
  obtain ⟨value, rfl⟩ := q.eq_done_of_wake_eq_none (fun m h => h m rfl) _ _ hq hw
  exact ⟨value, hv⟩

/-- It is enough that an activity never waits from how it finds the memory at its start. -/
theorem exists_value_of_touch (h : Handler I σ) (now : Nat) {change : I.Memory → I.Memory}
    {next : Nat → I.Memory → Activity I α} (w : World I σ) (hp : (next now w.memory).WaitFree) :
    ∃ value, ((Activity.touch change next).run h now w).value? = some value := by
  have hw : (Activity.touch change next).wake now w.memory = some now := rfl
  rw [run_of_wake hw]
  apply exists_value_of_waitFree
  unfold Activity.poll
  exact (next now w.memory).confined_poll h now _ hp

end Activity

end ChainWatch.Concurrency
