import ChainWatch.Concurrency.Run
import ChainWatch.Proofs.Concurrency.Schedule

/-!
# Runs of sequences

To run a sequence is to run its first part, and then the second part from where that ended
(`Activity.run_bind_of_value`). The parts share an instant where they meet; polling again at an instant
at which nothing is due changes nothing, so it makes no difference whose poll this is.
-/

namespace ChainWatch.Concurrency

variable {I : Interface} {σ α β : Type} {h : Handler I σ} {now : Nat}

/-! ## Polling a sequence -/

/-- Go on with what a poll has left. -/
def continued (h : Handler I σ) (now : Nat) (f : α → Activity I β) :
    Activity I α × World I σ → Activity I β × World I σ
  | (.done value, w) => (f value).poll h now w
  | (q, w) => (q.bind f, w)

theorem continued_conclude {request : I.Request} {next : I.Answer request → Activity I α}
    {f : α → Activity I β}
    (ih : ∀ answer w, ((next answer).bind f).poll h now w =
      continued h now f ((next answer).poll h now w)) (w : World I σ) :
    h.conclude now request (fun answer => (next answer).bind f)
        (fun answer w => ((next answer).bind f).poll h now w) w =
      continued h now f
        (h.conclude now request next (fun answer w => (next answer).poll h now w) w) := by
  unfold Handler.conclude
  split
  · exact ih _ _
  · split
    · exact ih _ _
    · rfl

theorem Activity.poll_bind : (p : Activity I α) → (f : α → Activity I β) → (w : World I σ) →
    (p.bind f).poll h now w = continued h now f (p.poll h now w)
  | .done _, _, _ => rfl
  | .touch change next, f, w => by
      simp only [Activity.bind, Activity.poll]
      exact (next now w.memory).poll_bind f _
  | .perform request next, f, w => by
      simp only [Activity.bind, Activity.poll]
      split
      · exact continued_conclude (fun answer w => (next answer).poll_bind f w) _
      · rfl
  | .settleAt due request next, f, w => by
      simp only [Activity.bind, Activity.poll]
      split
      · exact continued_conclude (fun answer w => (next answer).poll_bind f w) _
      · rfl
  | .pause span next, f, w => by
      simp only [Activity.bind, Activity.poll]
      split
      · exact next.poll_bind f w
      · rfl
  | .resumeAt due next, f, w => by
      simp only [Activity.bind, Activity.poll]
      split
      · exact next.poll_bind f w
      · rfl
  | .waitUntil ready next, f, w => by
      simp only [Activity.bind, Activity.poll]
      split
      · exact next.poll_bind f w
      · rfl
  | .join limit crew next, f, w => by
      simp only [Activity.bind, Activity.poll]
      split
      · exact (next _).poll_bind f _
      · rfl
  | .tryPair left right next, f, w => by
      simp only [Activity.bind, Activity.poll]
      split
      · exact (next _).poll_bind f _
      · split
        · exact (next _).poll_bind f _
        · exact (next _).poll_bind f _
        · rfl

/-! ## Polling when nothing is due -/

theorem earlier_eq_some {a b : Option Nat} {due : Nat} (ha : ∀ t, a = some t → due ≤ t)
    (hb : ∀ t, b = some t → due ≤ t) (h : a = some due ∨ b = some due) :
    earlier a b = some due := by
  cases a with
  | none => simpa [earlier] using h
  | some a =>
      cases b with
      | none => simpa [earlier] using h
      | some b =>
          have hle := ha a rfl
          have hle' := hb b rfl
          simp only [earlier, Option.some.injEq] at h ⊢
          omega

theorem le_of_earlier {a b : Option Nat} {now due : Nat} (ha : ∀ t, a = some t → now ≤ t)
    (hb : ∀ t, b = some t → now ≤ t) (h : earlier a b = some due) : now ≤ due := by
  cases a with
  | none => exact hb due (by simpa [earlier] using h)
  | some a =>
      cases b with
      | none => exact ha due (by simpa [earlier] using h)
      | some b =>
          have hle := ha a rfl
          have hle' := hb b rfl
          simp only [earlier, Option.some.injEq] at h
          omega

mutual

theorem Activity.le_wake {α : Type} (now : Nat) (memory : I.Memory) : (p : Activity I α) →
    ∀ due, p.wake now memory = some due → now ≤ due
  | .done _, _, hw => by simp [Activity.wake] at hw
  | .touch _ _, _, hw => Nat.le_of_eq (Option.some.inj hw)
  | .perform _ _, _, hw => Nat.le_of_eq (Option.some.inj hw)
  | .settleAt _ _ _, _, hw => Option.some.inj hw ▸ Nat.le_max_left _ _
  | .pause _ _, _, hw => Nat.le_of_eq (Option.some.inj hw)
  | .resumeAt _ _, _, hw => Option.some.inj hw ▸ Nat.le_max_left _ _
  | .waitUntil _ _, _, hw => by
      unfold Activity.wake at hw
      split at hw
      · exact Nat.le_of_eq (Option.some.inj hw)
      · cases hw
  | .join limit crew _, due, hw => by
      unfold Activity.wake at hw
      split at hw
      · exact Nat.le_of_eq (Option.some.inj hw)
      · exact crew.le_wake now memory _ due hw
  | .tryPair left right _, due, hw => by
      unfold Activity.wake at hw
      split at hw
      · exact Nat.le_of_eq (Option.some.inj hw)
      · exact Nat.le_of_eq (Option.some.inj hw)
      · exact Nat.le_of_eq (Option.some.inj hw)
      · exact le_of_earlier (left.le_wake now memory) (right.le_wake now memory) hw
termination_by structural p => p

theorem Crew.le_wake {β : Type} (now : Nat) (memory : I.Memory) : (crew : Crew I β) →
    (free : Nat) → ∀ due, crew.wake now memory free = some due → now ≤ due
  | .nil, _, _, hw => by simp [Crew.wake] at hw
  | .finished _ rest, free, due, hw => rest.le_wake now memory free due hw
  | .running member rest, free, due, hw => by
      unfold Crew.wake at hw
      split at hw
      · exact Nat.le_of_eq (Option.some.inj hw)
      · exact le_of_earlier (member.le_wake now memory) (rest.le_wake now memory free) hw
  | .queued _ rest, free, due, hw => by
      unfold Crew.wake at hw
      split at hw
      · exact rest.le_wake now memory 0 due hw
      · exact Nat.le_of_eq (Option.some.inj hw)
termination_by structural crew => crew

end

mutual

/-- A poll at an instant at which nothing is due changes nothing. -/
theorem Activity.poll_eq_self {α : Type} : (p : Activity I α) → (w : World I σ) →
    p.wake now w.memory ≠ some now → p.poll h now w = (p, w)
  | .done _, _, _ => rfl
  | .touch _ _, _, hw => (hw rfl).elim
  | .perform _ _, _, hw => (hw rfl).elim
  | .settleAt due _ _, _, hw => by
      unfold Activity.poll
      split
      · rename_i hle
        exact (hw (congrArg some (Nat.max_eq_left hle))).elim
      · rfl
  | .pause _ _, _, hw => (hw rfl).elim
  | .resumeAt due _, _, hw => by
      unfold Activity.poll
      split
      · rename_i hle
        exact (hw (congrArg some (Nat.max_eq_left hle))).elim
      · rfl
  | .waitUntil ready _, w, hw => by
      unfold Activity.poll
      split
      · rename_i hready
        exact (hw (if_pos hready)).elim
      · rfl
  | .join limit crew next, w, hw => by
      unfold Activity.wake at hw
      split at hw
      · exact (hw rfl).elim
      · rename_i hnone
        unfold Activity.poll
        simp only [crew.poll_eq_self _ w hw, hnone]
  | .tryPair left right next, w, hw => by
      unfold Activity.wake at hw
      split at hw
      · exact (hw rfl).elim
      · exact (hw rfl).elim
      · exact (hw rfl).elim
      · rename_i hle hre hboth
        have early {a b : Option Nat} (ha : ∀ t, a = some t → now ≤ t)
            (hb : ∀ t, b = some t → now ≤ t) (he : earlier a b ≠ some now) :
            a ≠ some now ∧ b ≠ some now :=
          ⟨fun h => he (earlier_eq_some ha hb (.inl h)), fun h => he (earlier_eq_some ha hb (.inr h))⟩
        obtain ⟨hwl, hwr⟩ := early (left.le_wake now w.memory) (right.le_wake now w.memory) hw
        unfold Activity.poll
        rw [left.poll_eq_self w hwl]
        split
        · rename_i heq
          cases heq
          exact (hle _ rfl).elim
        · rename_i heq
          cases heq
          rw [right.poll_eq_self w hwr]
          split
          · rename_i heq _
            exact (hre _ (congrArg Prod.fst heq)).elim
          · rename_i heq _
            exact (hboth _ _ rfl (congrArg Prod.fst heq)).elim
          · rename_i heq _
            obtain ⟨rfl, rfl⟩ := Prod.mk.inj heq
            rfl
termination_by structural p => p

theorem Crew.poll_eq_self {β : Type} : (crew : Crew I β) → (free : Nat) → (w : World I σ) →
    crew.wake now w.memory free ≠ some now → crew.poll h now free w = (crew, w)
  | .nil, _, _, _ => rfl
  | .finished _ rest, free, w, hw => by
      simp only [Crew.poll, rest.poll_eq_self free w hw]
  | .running member rest, free, w, hw => by
      unfold Crew.wake at hw
      split at hw
      · exact (hw rfl).elim
      · rename_i hrunning
        have hwm : member.wake now w.memory ≠ some now := fun hm =>
          hw (earlier_eq_some (member.le_wake now w.memory) (rest.le_wake now w.memory free) (.inl hm))
        have hwr : rest.wake now w.memory free ≠ some now := fun hr =>
          hw (earlier_eq_some (member.le_wake now w.memory) (rest.le_wake now w.memory free) (.inr hr))
        unfold Crew.poll
        rw [member.poll_eq_self w hwm]
        split
        · rename_i heq
          cases heq
          exact (hrunning _ rfl).elim
        · rename_i heq
          cases heq
          rw [rest.poll_eq_self free w hwr]
  | .queued member rest, free, w, hw => by
      unfold Crew.wake at hw
      split at hw
      · rename_i hfree
        unfold Crew.poll
        rw [if_pos hfree, rest.poll_eq_self 0 w hw]
      · exact (hw rfl).elim
termination_by structural crew => crew

end

/-! ## Answers -/

def Settlement.delay {A : Type} : Settlement A → Nat
  | .now _ => 0
  | .later span _ => span

namespace Handler

/-- What a request is answered that is sent in the outside state `s`. -/
def answer (h : Handler I σ) (r : I.Request) (s : σ) : I.Answer r :=
  (h.settle r (h.submit r s).2).1.answer

/-- How long the answer takes: the request travels, and then the answer may be held back. -/
def lag (h : Handler I σ) (r : I.Request) (s : σ) : Nat :=
  (h.submit r s).1 + (h.settle r (h.submit r s).2).1.delay

/-- What becomes of the outside meanwhile. -/
def after (h : Handler I σ) (r : I.Request) (s : σ) : σ :=
  (h.settle r (h.submit r s).2).2

end Handler

/-! ## Runs -/

namespace Activity

/-- A run may as well begin with a poll. -/
theorem run_poll (h : Handler I σ) (now : Nat) (p : Activity I α) (w : World I σ) :
    (p.poll h now w).1.run h now (p.poll h now w).2 = p.run h now w := by
  by_cases hw : p.wake now w.memory = some now
  · rw [run_of_wake hw]
  · rw [p.poll_eq_self w hw]

theorem run_of_not_done {p : Activity I α} {w : World I σ} (hw : p.wake now w.memory = none)
    (hd : ∀ value, p ≠ .done value) : p.run h now w = ⟨none, now, w⟩ := by
  rw [run]
  split
  · rename_i heq
    rw [hw] at heq
    cases heq
  · split
    · exact (hd _ rfl).elim
    · rfl

theorem wake_bind {p : Activity I α} (f : α → Activity I β) (m : I.Memory)
    (hd : ∀ value, p ≠ .done value) : (p.bind f).wake now m = p.wake now m := by
  cases p with
  | done value => exact (hd value rfl).elim
  | tryPair left right next =>
      unfold Activity.bind Activity.wake
      rfl
  | _ => rfl

theorem bind_ne_done {p : Activity I α} (f : α → Activity I β) (hd : ∀ value, p ≠ .done value)
    (value : β) : p.bind f ≠ .done value := by
  cases p with
  | done value => exact (hd value rfl).elim
  | _ => nofun

/-- The second part of a sequence starts when and where the first one ended. -/
theorem run_bind_of_value {p : Activity I α} {f : α → Activity I β} {w : World I σ} {value : α}
    (hv : (p.run h now w).value? = some value) :
    (p >>= f).run h now w = (f value).run h (p.run h now w).time (p.run h now w).world := by
  show (p.bind f).run h now w = _
  fun_induction run h now p w with
  | case1 now p w due hw ih =>
      have hd : ∀ v, p ≠ .done v := by
        rintro v rfl
        cases hw
      rw [run_of_wake ((wake_bind f w.memory hd).trans hw), poll_bind, ← ih hv]
      cases hq : p.poll h due w with
      | mk q w' =>
          cases q with
          | done v => exact (run_poll h due (f v) w').trans rfl
          | _ => rfl
  | case2 now w v hw =>
      obtain rfl := Option.some.inj hv
      rfl
  | case3 => cases hv

theorem exists_value_of_bind {p : Activity I α} {f : α → Activity I β} {w : World I σ} {value : β}
    (hv : ((p >>= f).run h now w).value? = some value) :
    ∃ v, (p.run h now w).value? = some v := by
  rw [show p >>= f = p.bind f from rfl] at hv
  fun_induction run h now p w with
  | case1 now p w due hw ih =>
      have hd : ∀ v, p ≠ .done v := by
        rintro v rfl
        cases hw
      rw [run_of_wake ((wake_bind f w.memory hd).trans hw), poll_bind] at hv
      cases hq : p.poll h due w with
      | mk q w' =>
          rw [hq] at hv ih
          cases q with
          | done v => exact ⟨v, congrArg Ending.value? (run_done h due v w')⟩
          | _ => exact ih hv
  | case2 now w v hw => exact ⟨v, rfl⟩
  | case3 now p w _ hw hdone =>
      have hd : ∀ v, p ≠ .done v := by
        rintro v rfl
        exact hdone v hw rfl .rfl
      rw [run_of_not_done ((wake_bind f w.memory hd).trans hw) (bind_ne_done f hd)] at hv
      cases hv

theorem run_touch (h : Handler I σ) (now : Nat) (change : I.Memory → I.Memory)
    (next : Nat → I.Memory → Activity I α) (w : World I σ) :
    (touch change next).run h now w =
      (next now w.memory).run h now ⟨change w.memory, w.outside⟩ := by
  rw [← run_poll h now (next now w.memory)]
  exact run_of_wake rfl

theorem run_resumeAt (h : Handler I σ) (now due : Nat) (value : α) (w : World I σ) :
    (resumeAt due (.done value)).run h now w = ⟨some value, max now due, w⟩ := by
  rw [run_of_wake rfl]
  unfold poll
  rw [if_pos (Nat.le_max_right now due)]
  exact run_done ..

theorem run_conclude (h : Handler I σ) (now : Nat) (r : I.Request) (w : World I σ) :
    let left := h.conclude now r .done (fun answer w => (done answer).poll h now w) w
    left.1.run h now left.2 = ⟨some (h.settle r w.outside).1.answer,
      now + (h.settle r w.outside).1.delay, ⟨w.memory, (h.settle r w.outside).2⟩⟩ := by
  unfold Handler.conclude
  rcases h.settle r w.outside with ⟨⟨answer⟩ | ⟨span, answer⟩, outside⟩
  · exact run_done ..
  · dsimp only [Settlement.delay]
    split
    · rename_i hspan
      rw [hspan]
      exact run_done ..
    · rw [run_resumeAt, Nat.max_eq_right (Nat.le_add_right now span)]
      rfl

theorem run_request (h : Handler I σ) (now : Nat) (r : I.Request) (w : World I σ) :
    (request r).run h now w =
      ⟨some (h.answer r w.outside), now + h.lag r w.outside, ⟨w.memory, h.after r w.outside⟩⟩ := by
  have begun : (request r).run h now w = _ := run_of_wake rfl
  have assoc : now + h.lag r w.outside = now + (h.submit r w.outside).1 +
      (h.settle r (h.submit r w.outside).2).1.delay := (Nat.add_assoc ..).symm
  rw [begun, assoc]
  unfold request poll
  dsimp only
  split
  · rename_i hspan
    rw [hspan]
    exact run_conclude h now r ⟨w.memory, _⟩
  · rw [run_of_wake rfl, Nat.max_eq_right (Nat.le_add_right now _)]
    unfold poll
    rw [if_pos (Nat.le_refl _)]
    exact run_conclude h _ r ⟨w.memory, _⟩

theorem run_sleep (h : Handler I σ) (now span : Nat) (w : World I σ) :
    (sleep span).run h now w = ⟨some (), now + span, w⟩ := by
  have begun : (sleep span).run h now w = _ := run_of_wake rfl
  rw [begun]
  unfold sleep poll
  split
  · rename_i hspan
    rw [hspan]
    exact run_done ..
  · rw [run_resumeAt, Nat.max_eq_right (Nat.le_add_right now span)]

end Activity

end ChainWatch.Concurrency
