import ChainWatch.Proofs.Concurrency.Sequence

/-!
# Waiting for one another

In a crew some members may wait for what another one brings about, any number of times and in any of
their parts. Such a crew still ends, if nobody waits for anything else, nobody undoes it, and the first
member promises it: it is under way to the condition before it waits for anything
(`Activity.exists_value_of_promise`).
-/

namespace ChainWatch.Concurrency

variable {I : Interface} {σ α β γ ε : Type} {C : I.Memory → Prop} {h : Handler I σ} {now : Nat}
  {w : World I σ}

/-! ## Bringing a condition about -/

/-- The event does not undo the condition. -/
def Event.Spares (C : I.Memory → Prop) : Event I → Prop
  | .touched before after => C before → C after
  | _ => True

namespace Activity

variable {p : Activity I α}

theorem exists_trace_of_poll (h : Handler I σ) (now : Nat) (p : Activity I α) (w : World I σ) :
    ∃ trace : Trace I, trace.Leads h w (p.poll h now w).2 ∧
      (∀ later result, (p.poll h now w).1.Runs later result → p.Runs (trace ++ later) result) ∧
        p.Runs trace (p.poll h now w).1.value? := by
  obtain ⟨trace, hl, hr⟩ := p.explains_poll h now w
  exact ⟨trace, hl, hr, by simpa using hr [] _ (runs_value? _)⟩

theorem Confined.spares (hp : p.Confined (Event.Spares C)) (hc : C w.memory) :
    C (p.poll h now w).2.memory := by
  obtain ⟨trace, hl, -, hr⟩ := p.exists_trace_of_poll h now w
  exact hl.1.stable hc fun _ _ hm => hp.runs hr _ hm

theorem Confined.spares_run (hp : p.Confined (Event.Spares C)) (hc : C w.memory) :
    C (p.run h now w).world.memory := by
  obtain ⟨trace, hr, hl⟩ := exists_trace_of_run h now p w
  exact hl.1.stable hc fun _ _ hm => hp.runs hr _ hm

/-- The activity waits for nothing, and when it ends it has brought the condition about. -/
def Provides (C : I.Memory → Prop) (p : Activity I α) : Prop :=
  p.WaitFree ∧ ∀ trace value, p.Runs trace (some value) →
    ∃ before after, .touched before after ∈ trace ∧ C after

theorem Provides.wake_ne_none {m : I.Memory} (hp : p.Provides C) : p.wake now m ≠ none := by
  intro hw
  obtain ⟨value, rfl⟩ := p.eq_done_of_wake_eq_none (fun m hm => hm m rfl) now m hp.1 hw
  obtain ⟨before, after, hm, -⟩ := hp.2 [] value ⟨rfl, .inr rfl⟩
  cases hm

theorem Provides.ne_done {value : α} (hp : p.Provides C) : p ≠ .done value := by
  rintro rfl
  obtain ⟨before, after, hm, -⟩ := hp.2 [] value ⟨rfl, .inr rfl⟩
  cases hm

/-- A poll brings the condition about, or it leaves somebody who will. -/
theorem Provides.poll (h : Handler I σ) (now : Nat) (w : World I σ) (hp : p.Provides C)
    (hs : p.Confined (Event.Spares C)) :
    C (p.poll h now w).2.memory ∨ (p.poll h now w).1.Provides C := by
  obtain ⟨trace, hl, hlater, hr⟩ := p.exists_trace_of_poll h now w
  by_cases hb : ∃ before after, .touched before after ∈ trace ∧ C after
  · obtain ⟨before, after, hm, hc⟩ := hb
    exact .inl (hl.1.reached (fun _ _ hm => hs.runs hr _ hm) hm hc)
  · refine .inr ⟨p.confined_poll h now w hp.1, fun later value hv => ?_⟩
    obtain ⟨before, after, hm, hc⟩ := hp.2 _ _ (hlater later (some value) hv)
    rcases List.mem_append.mp hm with hm | hm
    · exact (hb ⟨before, after, hm, hc⟩).elim
    · exact ⟨before, after, hm, hc⟩

end Activity

/-! ## Waiting for one condition -/

mutual

/-- Every wait of the activity is over when the condition holds; and no crew in it is left without any
place. -/
def Activity.Awaits {α : Type} (C : I.Memory → Prop) : Activity I α → Prop
  | .done _ => True
  | .touch _ next => ∀ now m, (next now m).Awaits C
  | .perform _ next => ∀ answer, (next answer).Awaits C
  | .settleAt _ _ next => ∀ answer, (next answer).Awaits C
  | .pause _ next => next.Awaits C
  | .resumeAt _ next => next.Awaits C
  | .waitUntil ready next => (∀ m, C m → ready m = true) ∧ next.Awaits C
  | .join limit crew next =>
    (crew.results? = none → 0 < limit) ∧ crew.Awaits C ∧ ∀ results, (next results).Awaits C
  | .tryPair left right next => left.Awaits C ∧ right.Awaits C ∧ ∀ outcome, (next outcome).Awaits C
termination_by structural p => p

def Crew.Awaits {β : Type} (C : I.Memory → Prop) : Crew I β → Prop
  | .nil => True
  | .finished _ rest => rest.Awaits C
  | .running member rest => member.Awaits C ∧ rest.Awaits C
  | .queued member rest => member.Awaits C ∧ rest.Awaits C
termination_by structural crew => crew

end

mutual

theorem Activity.awaits_of_waitFree {α : Type} : {p : Activity I α} → p.WaitFree → p.Awaits C
  | .done _, _ => trivial
  | .touch _ _, hp => fun now m => Activity.awaits_of_waitFree (hp now m).2
  | .perform _ _, hp => fun answer => Activity.awaits_of_waitFree (hp.2 answer).2
  | .settleAt _ _ _, hp => fun answer => Activity.awaits_of_waitFree (hp answer).2
  | .pause _ next, hp => Activity.awaits_of_waitFree (p := next) hp
  | .resumeAt _ next, hp => Activity.awaits_of_waitFree (p := next) hp
  | .waitUntil _ _, hp => ⟨fun m _ => (hp.1 m m rfl).elim, Activity.awaits_of_waitFree hp.2⟩
  | .join _ _ _, hp =>
      ⟨hp.1, Crew.awaits_of_waitFree hp.2.1, fun results => Activity.awaits_of_waitFree (hp.2.2 results)⟩
  | .tryPair _ _ _, hp =>
      ⟨Activity.awaits_of_waitFree hp.1, Activity.awaits_of_waitFree hp.2.1,
        fun outcome => Activity.awaits_of_waitFree (hp.2.2 outcome)⟩
termination_by structural p => p

theorem Crew.awaits_of_waitFree {β : Type} : {c : Crew I β} →
    c.Confined (fun event => ∀ m, event ≠ .noticed m) → c.Awaits C
  | .nil, _ => trivial
  | .finished _ rest, hc => Crew.awaits_of_waitFree (c := rest) hc
  | .running _ _, hc => ⟨Activity.awaits_of_waitFree hc.1, Crew.awaits_of_waitFree hc.2⟩
  | .queued _ _, hc => ⟨Activity.awaits_of_waitFree hc.1, Crew.awaits_of_waitFree hc.2⟩
termination_by structural crew => crew

end

namespace Activity

theorem Awaits.bind : {p : Activity I α} → {f : α → Activity I β} → p.Awaits C →
    (∀ value, (f value).Awaits C) → (p >>= f).Awaits C
  | .done value, _, _, hf => hf value
  | .touch _ _, _, hp, hf => fun now m => (hp now m).bind hf
  | .perform _ _, _, hp, hf => fun answer => (hp answer).bind hf
  | .settleAt _ _ _, _, hp, hf => fun answer => (hp answer).bind hf
  | .pause _ next, _, hp, hf => Awaits.bind (p := next) hp hf
  | .resumeAt _ next, _, hp, hf => Awaits.bind (p := next) hp hf
  | .waitUntil _ _, _, hp, hf => ⟨hp.1, hp.2.bind hf⟩
  | .join _ _ _, _, hp, hf => ⟨hp.1, hp.2.1, fun results => (hp.2.2 results).bind hf⟩
  | .tryPair _ _ _, _, hp, hf => ⟨hp.1, hp.2.1, fun outcome => (hp.2.2 outcome).bind hf⟩

theorem awaits_pure (value : α) : (pure value : Activity I α).Awaits C := trivial

theorem awaits_joinBounded {limit : Nat} {members : List (Activity I β)} (hl : 0 < limit)
    (hm : ∀ member ∈ members, member.Awaits C) : (joinBounded limit members).Awaits C := by
  refine ⟨fun _ => hl, ?_, fun _ => trivial⟩
  induction members with
  | nil => trivial
  | cons member members ih =>
      exact ⟨hm member (by simp), ih fun m h => hm m (by simp [h])⟩

theorem awaits_joinAll {members : List (Activity I β)} (hm : ∀ member ∈ members, member.Awaits C) :
    (joinAll members).Awaits C := by
  cases members with
  | nil => exact ⟨nofun, trivial, fun _ => trivial⟩
  | cons member members => exact awaits_joinBounded (by simp) hm

end Activity

/-! ## Polling -/

theorem awaits_conclude {request : I.Request} {next : I.Answer request → Activity I α}
    (hn : ∀ answer, (next answer).Awaits C)
    (ih : ∀ answer w, ((next answer).poll h now w).1.Awaits C) (w : World I σ) :
    (h.conclude now request next (fun answer w => (next answer).poll h now w) w).1.Awaits C := by
  unfold Handler.conclude
  split
  · exact ih _ _
  · split
    · exact ih _ _
    · exact hn _

mutual

theorem Activity.Awaits.poll {α : Type} (h : Handler I σ) (now : Nat) :
    {p : Activity I α} → (w : World I σ) → p.Awaits C → (p.poll h now w).1.Awaits C
  | .done _, _, _ => trivial
  | .touch _ _, w, hp => by
      unfold Activity.poll
      exact (hp now w.memory).poll h now _
  | .perform request next, w, hp => by
      unfold Activity.poll
      dsimp only
      split
      · exact awaits_conclude hp (fun answer w => (hp answer).poll h now w) _
      · exact hp
  | .settleAt due request next, w, hp => by
      unfold Activity.poll
      split
      · exact awaits_conclude hp (fun answer w => (hp answer).poll h now w) _
      · exact hp
  | .pause _ next, w, hp => by
      unfold Activity.poll
      split
      · exact Activity.Awaits.poll h now (p := next) w hp
      · exact hp
  | .resumeAt _ next, w, hp => by
      unfold Activity.poll
      split
      · exact Activity.Awaits.poll h now (p := next) w hp
      · exact hp
  | .waitUntil _ next, w, hp => by
      unfold Activity.poll
      split
      · exact hp.2.poll h now w
      · exact hp
  | .join limit crew next, w, hp => by
      obtain ⟨hl, hc, hn⟩ := hp
      have hcrew := hc.poll h now (limit - crew.busy) w
      unfold Activity.poll
      dsimp only
      split
      · exact (hn _).poll h now _
      · rename_i hnone
        refine ⟨fun _ => hl ?_, hcrew, hn⟩
        cases hr : crew.results? with
        | none => rfl
        | some results => simp [Crew.results?_poll hr] at hnone
  | .tryPair left right next, w, hp => by
      obtain ⟨hl, hr, hn⟩ := hp
      have hleft := hl.poll h now w
      unfold Activity.poll
      split
      · exact (hn _).poll h now _
      · rename_i left' w' _ heq
        rw [heq] at hleft
        have hright := hr.poll h now w'
        split
        · exact (hn _).poll h now _
        · exact (hn _).poll h now _
        · rw [‹right.poll h now w' = _›] at hright
          exact ⟨hleft, hright, hn⟩
termination_by structural p => p

theorem Crew.Awaits.poll {β : Type} (h : Handler I σ) (now : Nat) :
    {c : Crew I β} → (free : Nat) → (w : World I σ) → c.Awaits C →
      (c.poll h now free w).1.Awaits C
  | .nil, _, _, _ => trivial
  | .finished _ rest, free, w, hc => Crew.Awaits.poll h now (c := rest) free w hc
  | .running member rest, free, w, hc => by
      obtain ⟨hm, hr⟩ := hc
      have hmember := hm.poll h now w
      unfold Crew.poll
      split
      · exact hr.poll h now _ _
      · rename_i heq
        rw [heq] at hmember
        exact ⟨hmember, hr.poll h now _ _⟩
  | .queued member rest, free, w, hc => by
      obtain ⟨hm, hr⟩ := hc
      have hmember := hm.poll h now w
      unfold Crew.poll
      split
      · exact ⟨hm, hr.poll h now _ _⟩
      · split
        · exact hr.poll h now _ _
        · rename_i heq
          rw [heq] at hmember
          exact ⟨hmember, hr.poll h now _ _⟩
termination_by structural crew => crew

end

mutual

/-- Where the condition holds only a finished activity has nothing to wake up for. -/
theorem Activity.Awaits.eq_done {α : Type} (now : Nat) {m : I.Memory} (hm : C m) :
    {p : Activity I α} → p.Awaits C → p.wake now m = none → ∃ value, p = .done value
  | .done value, _, _ => ⟨value, rfl⟩
  | .touch _ _, _, hw => by simp [Activity.wake] at hw
  | .perform _ _, _, hw => by simp [Activity.wake] at hw
  | .settleAt _ _ _, _, hw => by simp [Activity.wake] at hw
  | .pause _ _, _, hw => by simp [Activity.wake] at hw
  | .resumeAt _ _, _, hw => by simp [Activity.wake] at hw
  | .waitUntil _ _, hp, hw => by simp [Activity.wake, hp.1 m hm] at hw
  | .join limit crew next, hp, hw => by
      obtain ⟨hl, hc, -⟩ := hp
      unfold Activity.wake at hw
      split at hw
      · cases hw
      · rename_i hnone
        obtain ⟨hb, hr⟩ := hc.results? now hm hw
        have hpos := hl hnone
        rw [hnone] at hr
        exact absurd (hr (by omega)) (by simp)
  | .tryPair left right next, hp, hw => by
      obtain ⟨hl, hr, -⟩ := hp
      unfold Activity.wake at hw
      split at hw
      · cases hw
      · cases hw
      · cases hw
      · rename_i hle hre hboth
        obtain ⟨hwl, hwr⟩ := earlier_eq_none.mp hw
        obtain ⟨b, rfl⟩ := hl.eq_done now hm hwl
        obtain ⟨c, rfl⟩ := hr.eq_done now hm hwr
        cases b with
        | error e => exact absurd rfl (hle e)
        | ok b =>
            cases c with
            | error e => exact absurd rfl (hre e)
            | ok c => exact absurd rfl (hboth b c rfl)
termination_by structural p => p

theorem Crew.Awaits.results? {β : Type} (now : Nat) {m : I.Memory} (hm : C m) :
    {c : Crew I β} → {free : Nat} → c.Awaits C → c.wake now m free = none →
      c.busy = 0 ∧ (free ≠ 0 → c.results?.isSome)
  | .nil, _, _, _ => ⟨rfl, fun _ => rfl⟩
  | .finished _ rest, free, hc, hw => by
      have hr := Crew.Awaits.results? now hm (c := rest) hc hw
      simpa [Crew.busy, Crew.results?] using hr
  | .running member rest, free, hc, hw => by
      simp only [Crew.wake] at hw
      split at hw
      · cases hw
      · rename_i hrunning
        obtain ⟨hwm, -⟩ := earlier_eq_none.mp hw
        obtain ⟨value, rfl⟩ := hc.1.eq_done now hm hwm
        exact absurd rfl (hrunning value)
  | .queued _ rest, free, hc, hw => by
      unfold Crew.wake at hw
      split at hw
      · rename_i hfree
        exact ⟨(hc.2.results? now hm hw).1, fun h => absurd hfree h⟩
      · cases hw
termination_by structural crew => crew

end

/-! ## Promises -/

namespace Activity

/-- The activity begins with a part that brings the condition about without waiting; what follows does
not undo it. -/
def Promises (C : I.Memory → Prop) (p : Activity I α) : Prop :=
  ∃ (γ : Type) (q : Activity I γ) (f : γ → Activity I α), p = q.bind f ∧ q.Provides C ∧
    q.Confined (Event.Spares C) ∧ ∀ value, (f value).Confined (Event.Spares C)

variable {p : Activity I α}

theorem Promises.wake_ne_none {m : I.Memory} (hp : p.Promises C) : p.wake now m ≠ none := by
  obtain ⟨γ, q, f, rfl, hq, -⟩ := hp
  rw [wake_bind f m fun value => hq.ne_done]
  exact hq.wake_ne_none

theorem Promises.ne_done {value : α} (hp : p.Promises C) : p ≠ .done value := by
  obtain ⟨γ, q, f, rfl, hq, -⟩ := hp
  exact bind_ne_done f (fun value => hq.ne_done) value

theorem Promises.poll (h : Handler I σ) (now : Nat) (w : World I σ) (hp : p.Promises C) :
    C (p.poll h now w).2.memory ∨ (p.poll h now w).1.Promises C := by
  obtain ⟨γ, q, f, rfl, hq, hs, hf⟩ := hp
  have hpoll := hq.poll h now w hs
  have hsq := q.confined_poll h now w hs
  rw [poll_bind]
  generalize q.poll h now w = r at hpoll hsq
  obtain ⟨q', w'⟩ := r
  cases q' with
  | done value =>
      rcases hpoll with hc | hq'
      · exact .inl ((hf value).spares hc)
      · exact (hq'.ne_done rfl).elim
  | _ => exact hpoll.imp id fun hq' => ⟨γ, _, f, rfl, hq', hsq, hf⟩

end Activity

namespace Crew

/-- Somebody at work promises the condition. -/
def Promised (C : I.Memory → Prop) : Crew I β → Prop
  | .nil => False
  | .finished _ rest => rest.Promised C
  | .running member rest => member.Promises C ∨ rest.Promised C
  | .queued _ rest => rest.Promised C

theorem spares {crew : Crew I β} (hs : crew.Confined (Event.Spares C)) (free : Nat)
    (hc : C w.memory) : C (crew.poll h now free w).2.memory := by
  obtain ⟨trace, hl, hr⟩ := crew.explains_poll h now free w
  obtain ⟨results, hnil⟩ := (crew.poll h now free w).1.runs_nil
  have hruns := hr [] results hnil
  rw [List.append_nil] at hruns
  exact hl.1.stable hc fun _ _ hm => hs.runs hruns _ hm

theorem Promised.poll : {c : Crew I β} → (free : Nat) → (w : World I σ) →
    c.Confined (Event.Spares C) → c.Promised C →
      C (c.poll h now free w).2.memory ∨ (c.poll h now free w).1.Promised C
  | .finished _ rest, free, w, hs, hp => Promised.poll (c := rest) free w hs hp
  | .running member rest, free, w, hs, hp => by
      unfold Crew.poll
      rcases hp with hp | hp
      · rcases hp.poll h now w with hc | hstill
        · split
          · rename_i heq
            rw [heq] at hc
            exact .inl (spares hs.2 _ hc)
          · rename_i heq
            rw [heq] at hc
            exact .inl (spares hs.2 _ hc)
        · split
          · rename_i heq
            rw [heq] at hstill
            exact (hstill.ne_done rfl).elim
          · rename_i heq
            rw [heq] at hstill
            exact .inr (.inl hstill)
      · split
        · exact Promised.poll (c := rest) _ _ hs.2 hp
        · exact (Promised.poll (c := rest) _ _ hs.2 hp).imp id .inr
  | .queued member rest, free, w, hs, hp => by
      unfold Crew.poll
      split
      · exact Promised.poll (c := rest) _ _ hs.2 hp
      · split
        · exact Promised.poll (c := rest) _ _ hs.2 hp
        · exact (Promised.poll (c := rest) _ _ hs.2 hp).imp id .inr

theorem Promised.wake_ne_none {m : I.Memory} : {c : Crew I β} → {free : Nat} →
    c.Promised C → c.wake now m free ≠ none
  | .finished _ rest, free, hp => Promised.wake_ne_none (c := rest) hp
  | .running member rest, free, hp => by
      unfold Crew.wake
      split
      · exact Option.some_ne_none _
      · intro hw
        obtain ⟨hwm, hwr⟩ := earlier_eq_none.mp hw
        rcases hp with hp | hp
        · exact hp.wake_ne_none hwm
        · exact Promised.wake_ne_none (c := rest) hp hwr
  | .queued member rest, free, hp => by
      unfold Crew.wake
      split
      · exact Promised.wake_ne_none (c := rest) hp
      · exact Option.some_ne_none _

theorem Promised.results? : {c : Crew I β} → c.Promised C → c.results? = none
  | .finished _ rest, hp => by
      simp [Crew.results?, Promised.results? (c := rest) hp]
  | .running _ _, _ => rfl
  | .queued _ _, _ => rfl

theorem busy_ofList (members : List (Activity I β)) : (ofList members).busy = 0 := by
  induction members with
  | nil => rfl
  | cons p members ih => exact ih

/-- The first member of a crew may bring the condition about at once, or it promises it then. -/
theorem promised_of_first {p : Activity I β} {rest : Crew I β} {free : Nat} (hf : free ≠ 0)
    (hs : rest.Confined (Event.Spares C))
    (hp : C (p.poll h now w).2.memory ∨ (p.poll h now w).1.Promises C) :
    C ((Crew.queued p rest).poll h now free w).2.memory ∨
      ((Crew.queued p rest).poll h now free w).1.Promised C := by
  unfold Crew.poll
  rw [if_neg hf]
  rcases hp with hc | hp
  · split
    · rename_i heq
      rw [heq] at hc
      exact .inl (spares hs _ hc)
    · rename_i heq
      rw [heq] at hc
      exact .inl (spares hs _ hc)
  · split
    · rename_i heq
      rw [heq] at hp
      exact (hp.ne_done rfl).elim
    · rename_i heq
      rw [heq] at hp
      exact .inr (.inl hp)

end Crew

/-! ## Runs -/

/-- Everybody waits for the condition only, nobody undoes it, and it holds or somebody promises it. -/
structure Hopeful (C : I.Memory → Prop) (q : Activity I (List β)) (w : World I σ) : Prop where
  awaits : q.Awaits C
  spares : q.Confined (Event.Spares C)
  promised : C w.memory ∨ ∃ limit crew, q = .join limit crew .done ∧ crew.Promised C

theorem hopeful_of_poll {limit : Nat} {crew : Crew I β}
    (ha : (Activity.join limit crew .done).Awaits C)
    (hs : (Activity.join limit crew .done).Confined (Event.Spares C))
    (hp : C (crew.poll h now (limit - crew.busy) w).2.memory ∨
      (crew.poll h now (limit - crew.busy) w).1.Promised C) :
    Hopeful C ((Activity.join limit crew .done).poll h now w).1
      ((Activity.join limit crew .done).poll h now w).2 := by
  refine ⟨ha.poll h now w, (Activity.join limit crew .done).confined_poll h now w hs, ?_⟩
  unfold Activity.poll
  dsimp only
  rcases hp with hc | hp
  · split
    · exact .inl hc
    · exact .inl hc
  · rw [hp.results?]
    exact .inr ⟨limit, _, rfl, hp⟩

theorem Hopeful.poll {q : Activity I (List β)} (hq : Hopeful C q w) :
    Hopeful C (q.poll h now w).1 (q.poll h now w).2 := by
  obtain ⟨ha, hs, hc | ⟨limit, crew, rfl, hp⟩⟩ := hq
  · exact ⟨ha.poll h now w, q.confined_poll h now w hs, .inl (hs.spares hc)⟩
  · exact hopeful_of_poll ha hs (hp.poll _ w hs.2.1)

theorem Hopeful.eq_done {q : Activity I (List β)} (hq : Hopeful C q w)
    (hw : q.wake now w.memory = none) : C w.memory ∧ ∃ values, q = .done values := by
  obtain ⟨ha, -, hc | ⟨limit, crew, rfl, hp⟩⟩ := hq
  · exact ⟨hc, ha.eq_done now hc hw⟩
  · unfold Activity.wake at hw
    rw [hp.results?] at hw
    exact (hp.wake_ne_none hw).elim

namespace Activity

/-- A crew ends if its first member brings the condition about, or promises it when it waits for the
first time; and then the condition holds. -/
theorem exists_value_of_promise (h : Handler I σ) (now : Nat) (w : World I σ)
    {first : Activity I β} {others : List (Activity I β)}
    (ha : ∀ p ∈ first :: others, p.Awaits C ∧ p.Confined (Event.Spares C))
    (hf : C (first.poll h now w).2.memory ∨ (first.poll h now w).1.Promises C) :
    (∃ values, ((joinAll (first :: others)).run h now w).value? = some values) ∧
      C ((joinAll (first :: others)).run h now w).world.memory := by
  have hawaits : (joinAll (first :: others)).Awaits C := awaits_joinAll fun p hp => (ha p hp).1
  have hspares : (joinAll (first :: others)).Confined (Event.Spares C) :=
    confined_joinAll fun p hp => (ha p hp).2
  have hfree : (first :: others).length - (Crew.ofList (first :: others)).busy ≠ 0 := by
    rw [Crew.busy_ofList]
    simp
  have begun : Hopeful C ((joinAll (first :: others)).poll h now w).1
      ((joinAll (first :: others)).poll h now w).2 :=
    hopeful_of_poll hawaits hspares (Crew.promised_of_first hfree hspares.2.1.2 hf)
  rw [← run_poll]
  obtain ⟨q, hq, hw, hv⟩ := exists_rest_of_run (Hopeful C) h now begun fun _ _ _ hq => hq.poll
  obtain ⟨hc, values, rfl⟩ := hq.eq_done hw
  exact ⟨⟨values, hv⟩, hc⟩

/-- So does an activity on its own. -/
theorem exists_value_of_promises (h : Handler I σ) (now : Nat) (w : World I σ) {p : Activity I α}
    (ha : p.Awaits C) (hs : p.Confined (Event.Spares C))
    (hf : C (p.poll h now w).2.memory ∨ (p.poll h now w).1.Promises C) :
    ∃ value, (p.run h now w).value? = some value := by
  rw [← run_poll]
  obtain ⟨q, ⟨haq, -, hpq⟩, hw, hv⟩ := exists_rest_of_run
    (fun q w => q.Awaits C ∧ q.Confined (Event.Spares C) ∧ (C w.memory ∨ q.Promises C)) h now
    ⟨ha.poll h now w, p.confined_poll h now w hs, hf⟩ fun due q w ⟨haq, hsq, hpq⟩ =>
      ⟨haq.poll h due w, q.confined_poll h due w hsq,
        hpq.elim (fun hc => .inl (hsq.spares hc)) (Promises.poll h due w)⟩
  rcases hpq with hc | hp
  · obtain ⟨value, rfl⟩ := haq.eq_done _ hc hw
    exact ⟨value, hv⟩
  · exact (hp.wake_ne_none hw).elim

end Activity

end ChainWatch.Concurrency
