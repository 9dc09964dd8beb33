import ChainWatch.Concurrency.Poll

/-!
# Progress

`Step q p` says that `q` is what may remain of `p` after one move. The relation is well-founded
(`Activity.acc_step`), and polling an activity at an instant at which it is due to wake makes at least
one move (`Activity.poll_progress`), so polling again and again comes to an end.
-/

namespace ChainWatch.Concurrency

variable {I : Interface} {σ : Type}

mutual

/-- One move of an activity; the remaining activity comes first. -/
inductive Step : {α : Type} → Activity I α → Activity I α → Prop where
  | touch {α} {change} {next : Nat → I.Memory → Activity I α} (now memory) :
      Step (next now memory) (.touch change next)
  | submit {α} {request} {next : I.Answer request → Activity I α} (due) :
      Step (.settleAt due request next) (.perform request next)
  | hold {α} {due request} {next : I.Answer request → Activity I α} (answer later) :
      Step (.resumeAt later (next answer)) (.settleAt due request next)
  | settle {α} {due request} {next : I.Answer request → Activity I α} (answer) :
      Step (next answer) (.settleAt due request next)
  | pause {α} {span} {next : Activity I α} (due) : Step (.resumeAt due next) (.pause span next)
  | resume {α} {due} {next : Activity I α} : Step next (.resumeAt due next)
  | wait {α} {ready} {next : Activity I α} : Step next (.waitUntil ready next)
  | crew {α β} {limit} {crew crew' : Crew I β} {next : List β → Activity I α} :
      CrewStep crew' crew → Step (.join limit crew' next) (.join limit crew next)
  | joined {α β} {limit} {crew : Crew I β} {next : List β → Activity I α} (results) :
      Step (next results) (.join limit crew next)
  | left {α β γ ε} {p p' : Activity I (Except ε β)} {q : Activity I (Except ε γ)}
      {next : Except ε (β × γ) → Activity I α} :
      Step p' p → Step (.tryPair p' q next) (.tryPair p q next)
  | right {α β γ ε} {p : Activity I (Except ε β)} {q q' : Activity I (Except ε γ)}
      {next : Except ε (β × γ) → Activity I α} :
      Step q' q → Step (.tryPair p q' next) (.tryPair p q next)
  | paired {α β γ ε} {p : Activity I (Except ε β)} {q : Activity I (Except ε γ)}
      {next : Except ε (β × γ) → Activity I α} (result) :
      Step (next result) (.tryPair p q next)

inductive CrewStep : {β : Type} → Crew I β → Crew I β → Prop where
  | start {β} {p : Activity I β} {rest} : CrewStep (.running p rest) (.queued p rest)
  | member {β} {p p' : Activity I β} {rest} :
      Step p' p → CrewStep (.running p' rest) (.running p rest)
  | finish {β} {value : β} {rest} : CrewStep (.finished value rest) (.running (.done value) rest)
  | finished {β} {value : β} {rest rest'} :
      CrewStep rest' rest → CrewStep (.finished value rest') (.finished value rest)
  | running {β} {p : Activity I β} {rest rest'} :
      CrewStep rest' rest → CrewStep (.running p rest') (.running p rest)
  | queued {β} {p : Activity I β} {rest rest'} :
      CrewStep rest' rest → CrewStep (.queued p rest') (.queued p rest)

end

section WellFounded

variable {α β γ ε : Type}

theorem acc_resumeAt {next : Activity I α} (h : Acc Step next) (due : Nat) :
    Acc Step (Activity.resumeAt due next) :=
  .intro _ fun _ step => by cases step with | resume => exact h

theorem acc_settleAt {request : I.Request} {next : I.Answer request → Activity I α}
    (h : ∀ answer, Acc Step (next answer)) (due : Nat) :
    Acc Step (Activity.settleAt due request next) :=
  .intro _ fun _ step => by
    cases step with
    | hold answer later => exact acc_resumeAt (h answer) later
    | settle answer => exact h answer

theorem acc_join {limit : Nat} {crew : Crew I β} {next : List β → Activity I α}
    (hc : Acc CrewStep crew) (h : ∀ results, Acc Step (next results)) :
    Acc Step (Activity.join limit crew next) := by
  induction hc with
  | intro crew _ ih =>
    refine .intro _ fun _ step => ?_
    cases step with
    | crew move => exact ih _ move
    | joined results => exact h results

theorem acc_tryPair {p : Activity I (Except ε β)} {q : Activity I (Except ε γ)}
    {next : Except ε (β × γ) → Activity I α} (hp : Acc Step p) (hq : Acc Step q)
    (h : ∀ result, Acc Step (next result)) : Acc Step (Activity.tryPair p q next) := by
  induction hp generalizing q with
  | intro p hp ihp =>
    induction hq with
    | intro q hq ihq =>
      refine .intro _ fun _ step => ?_
      cases step with
      | left move => exact ihp _ move (.intro q hq)
      | right move => exact ihq _ move
      | paired result => exact h result

theorem acc_finished {value : β} {rest : Crew I β} (h : Acc CrewStep rest) :
    Acc CrewStep (Crew.finished value rest) := by
  induction h with
  | intro rest _ ih =>
    refine .intro _ fun _ step => ?_
    cases step with
    | finished move => exact ih _ move

theorem acc_running {p : Activity I β} {rest : Crew I β} (hp : Acc Step p)
    (h : Acc CrewStep rest) : Acc CrewStep (Crew.running p rest) := by
  induction hp generalizing rest with
  | intro p hp ihp =>
    induction h with
    | intro rest hr ihr =>
      refine .intro _ fun _ step => ?_
      cases step with
      | member move => exact ihp _ move (.intro rest hr)
      | finish => exact acc_finished (.intro rest hr)
      | running move => exact ihr _ move

theorem acc_queued {p : Activity I β} {rest : Crew I β} (hp : Acc Step p)
    (h : Acc CrewStep rest) : Acc CrewStep (Crew.queued p rest) := by
  induction h with
  | intro rest hr ih =>
    refine .intro _ fun _ step => ?_
    cases step with
    | start => exact acc_running hp (.intro rest hr)
    | queued move => exact ih _ move

mutual

/-- No activity moves forever. -/
theorem Activity.acc_step {α : Type} : (p : Activity I α) → Acc Step p
  | .done _ => .intro _ fun _ step => nomatch step
  | .touch _ next => .intro _ fun _ step => by
      cases step with | touch now memory => exact (next now memory).acc_step
  | .perform _ next => .intro _ fun _ step => by
      cases step with | submit due => exact acc_settleAt (fun answer => (next answer).acc_step) due
  | .settleAt due _ next => acc_settleAt (fun answer => (next answer).acc_step) due
  | .pause _ next => .intro _ fun _ step => by
      cases step with | pause due => exact acc_resumeAt next.acc_step due
  | .resumeAt due next => acc_resumeAt next.acc_step due
  | .waitUntil _ next => .intro _ fun _ step => by cases step with | wait => exact next.acc_step
  | .join _ crew next => acc_join crew.acc_step fun results => (next results).acc_step
  | .tryPair left right next =>
      acc_tryPair left.acc_step right.acc_step fun result => (next result).acc_step

theorem Crew.acc_step {β : Type} : (crew : Crew I β) → Acc CrewStep crew
  | .nil => .intro _ fun _ step => nomatch step
  | .finished _ rest => acc_finished rest.acc_step
  | .running member rest => acc_running member.acc_step rest.acc_step
  | .queued member rest => acc_queued member.acc_step rest.acc_step

end

end WellFounded

section Progress

variable {α β γ ε : Type} {h : Handler I σ} {now : Nat}

/-- Polling left everything as it was, or made at least one move. -/
def Advances (p : Activity I α) (w : World I σ) (r : Activity I α × World I σ) : Prop :=
  r = (p, w) ∨ Relation.TransGen Step r.1 p

def CrewAdvances (crew : Crew I β) (w : World I σ) (r : Crew I β × World I σ) : Prop :=
  r = (crew, w) ∨ Relation.TransGen CrewStep r.1 crew

theorem Advances.after_step {p q : Activity I α} {w : World I σ}
    {r : Activity I α × World I σ} (hr : Advances p w r) (step : Step p q) :
    Relation.TransGen Step r.1 q := by
  rcases hr with rfl | hr
  · exact .single step
  · exact hr.tail step

theorem transGen_lift {A B : Type 1} {r : A → A → Prop} {s : B → B → Prop} {f : A → B}
    (lift : ∀ {a b}, r a b → s (f a) (f b)) {a b : A} (hab : Relation.TransGen r a b) :
    Relation.TransGen s (f a) (f b) := by
  induction hab with
  | single step => exact .single (lift step)
  | tail _ step ih => exact ih.tail (lift step)

theorem conclude_moves {request : I.Request} {next : I.Answer request → Activity I α}
    (ih : ∀ answer w, Advances (next answer) w ((next answer).poll h now w)) (due : Nat)
    (w : World I σ) :
    Relation.TransGen Step
      (h.conclude now request next (fun answer w => (next answer).poll h now w) w).1
      (.settleAt due request next) := by
  unfold Handler.conclude
  split
  · exact (ih _ _).after_step (.settle _)
  · split
    · exact (ih _ _).after_step (.settle _)
    · exact .single (.hold _ _)

theorem crew_moved {limit : Nat} {crew crew' : Crew I β} {next : List β → Activity I α}
    {w w' : World I σ} (hc : CrewAdvances crew w (crew', w'))
    (ih : ∀ results w, Advances (next results) w ((next results).poll h now w)) :
    Advances (.join limit crew next) w
      (match crew'.results? with
        | some results => (next results).poll h now w'
        | none => (.join limit crew' next, w')) := by
  have lift : ∀ {c d : Crew I β}, CrewStep c d →
      Step (Activity.join limit c next) (.join limit d next) := Step.crew
  split
  · rcases hc with hc | hc
    · cases hc
      exact .inr ((ih _ _).after_step (.joined _))
    · exact .inr (((ih _ _).after_step (.joined _)).trans
        (transGen_lift (f := (Activity.join limit · next)) lift hc))
  · rcases hc with hc | hc
    · cases hc
      exact .inl rfl
    · exact .inr (transGen_lift (f := (Activity.join limit · next)) lift hc)

theorem pair_left {p p' : Activity I (Except ε β)} {q : Activity I (Except ε γ)}
    {next : Except ε (β × γ) → Activity I α} (hp : Relation.TransGen Step p' p) :
    Relation.TransGen Step (.tryPair p' q next) (.tryPair p q next) :=
  transGen_lift (f := (Activity.tryPair · q next)) .left hp

theorem pair_right {p : Activity I (Except ε β)} {q q' : Activity I (Except ε γ)}
    {next : Except ε (β × γ) → Activity I α} (hq : Relation.TransGen Step q' q) :
    Relation.TransGen Step (.tryPair p q' next) (.tryPair p q next) :=
  transGen_lift (f := (Activity.tryPair p · next)) .right hq

theorem pair_moved {p p' : Activity I (Except ε β)} {q q' : Activity I (Except ε γ)}
    {next : Except ε (β × γ) → Activity I α} {w w' w'' : World I σ}
    (hp : Advances p w (p', w')) (hq : Advances q w' (q', w'')) :
    Advances (.tryPair p q next) w (.tryPair p' q' next, w'') := by
  rcases hp with hp | hp <;> rcases hq with hq | hq
  · cases hp; cases hq; exact .inl rfl
  · cases hp; exact .inr (pair_right hq)
  · cases hq; exact .inr (pair_left hp)
  · exact .inr ((pair_right hq).trans (pair_left hp))

theorem pair_done {p p' : Activity I (Except ε β)} {q q' : Activity I (Except ε γ)}
    {next : Except ε (β × γ) → Activity I α} {w w' w'' : World I σ}
    (hp : Advances p w (p', w')) (hq : Advances q w' (q', w''))
    (ih : ∀ result w, Advances (next result) w ((next result).poll h now w)) (result)
    (v : World I σ) :
    Relation.TransGen Step ((next result).poll h now v).1 (.tryPair p q next) := by
  have last : Relation.TransGen Step ((next result).poll h now v).1 (.tryPair p' q' next) :=
    (ih result v).after_step (.paired result)
  rcases (pair_moved hp hq : Advances (.tryPair p q next) w (.tryPair p' q' next, w'')) with hm | hm
  · cases hm; exact last
  · exact last.trans hm

mutual

theorem Activity.poll_advances {α : Type} (h : Handler I σ) (now : Nat) :
    (p : Activity I α) → (w : World I σ) → Advances p w (p.poll h now w)
  | .done _, _ => .inl rfl
  | .touch change next, w => by
      unfold Activity.poll
      exact .inr (((next now w.memory).poll_advances h now _).after_step (.touch _ _))
  | .perform request next, w => by
      unfold Activity.poll
      split
      split
      · exact .inr ((conclude_moves (fun a w => (next a).poll_advances h now w) now _).trans
          (.single (.submit now)))
      · exact .inr (.single (.submit _))
  | .settleAt due request next, w => by
      unfold Activity.poll
      split
      · exact .inr (conclude_moves (fun a w => (next a).poll_advances h now w) due _)
      · exact .inl rfl
  | .pause span next, w => by
      unfold Activity.poll
      split
      · exact .inr ((((next.poll_advances h now w)).after_step .resume).trans
          (.single (.pause now)))
      · exact .inr (.single (.pause _))
  | .resumeAt due next, w => by
      unfold Activity.poll
      split
      · exact .inr ((next.poll_advances h now w).after_step .resume)
      · exact .inl rfl
  | .waitUntil ready next, w => by
      unfold Activity.poll
      split
      · exact .inr ((next.poll_advances h now w).after_step .wait)
      · exact .inl rfl
  | .join limit crew next, w => by
      unfold Activity.poll
      exact crew_moved (crew.poll_advances h now (limit - crew.busy) w)
        fun results w => (next results).poll_advances h now w
  | .tryPair left right next, w => by
      have ih := fun result w => (next result).poll_advances h now w
      have hl := left.poll_advances h now w
      unfold Activity.poll
      split
      · rename_i e w' heq
        rw [heq] at hl
        exact .inr (pair_done (q := right) hl (.inl rfl : Advances right w' (right, w')) ih _ _)
      · rename_i left' w' _ heq
        rw [heq] at hl
        have hr := right.poll_advances h now w'
        split
        · rw [‹Activity.poll h now right w' = _›] at hr
          exact .inr (pair_done hl hr ih _ _)
        · rw [‹Activity.poll h now right w' = _›] at hr
          exact .inr (pair_done hl hr ih _ _)
        · rw [‹Activity.poll h now right w' = _›] at hr
          exact pair_moved hl hr
termination_by structural p => p

theorem Crew.poll_advances {β : Type} (h : Handler I σ) (now : Nat) :
    (crew : Crew I β) → (free : Nat) → (w : World I σ) →
      CrewAdvances crew w (crew.poll h now free w)
  | .nil, _, _ => .inl rfl
  | .finished value rest, free, w => by
      unfold Crew.poll
      rcases rest.poll_advances h now free w with hr | hr
      · rw [hr]; exact .inl rfl
      · exact .inr (transGen_lift (f := Crew.finished value) .finished hr)
  | .running member rest, free, w => by
      have hm := member.poll_advances h now w
      unfold Crew.poll
      split
      · rename_i value w' heq
        rw [heq] at hm
        have hr := rest.poll_advances h now (free + 1) w'
        have done : Relation.TransGen CrewStep (Crew.finished value rest) (.running member rest) := by
          rcases hm with hm | hm
          · cases hm; exact .single .finish
          · exact .trans (.single .finish) (transGen_lift (f := (Crew.running · rest)) .member hm)
        rcases hr with hr | hr
        · rw [hr]; exact .inr done
        · exact .inr ((transGen_lift (f := Crew.finished value) .finished hr).trans done)
      · rename_i member' w' _ heq
        rw [heq] at hm
        have hr := rest.poll_advances h now free w'
        rcases hm with hm | hm <;> rcases hr with hr | hr
        · cases hm; rw [hr]; exact .inl rfl
        · cases hm; exact .inr (transGen_lift (f := Crew.running member) .running hr)
        · rw [hr]; exact .inr (transGen_lift (f := (Crew.running · rest)) .member hm)
        · exact .inr ((transGen_lift (f := Crew.running member') .running hr).trans
            (transGen_lift (f := (Crew.running · rest)) .member hm))
  | .queued member rest, free, w => by
      unfold Crew.poll
      split
      · rcases rest.poll_advances h now 0 w with hr | hr
        · rw [hr]; exact .inl rfl
        · exact .inr (transGen_lift (f := Crew.queued member) .queued hr)
      · have hm := member.poll_advances h now w
        have start : Relation.TransGen CrewStep (Crew.running member rest) (.queued member rest) :=
          .single .start
        split
        · rename_i value w' heq
          rw [heq] at hm
          have done : Relation.TransGen CrewStep (Crew.finished value rest) (.queued member rest) := by
            rcases hm with hm | hm
            · cases hm; exact .trans (.single .finish) start
            · exact .trans (.single .finish)
                (.trans (transGen_lift (f := (Crew.running · rest)) .member hm) start)
          rcases rest.poll_advances h now free w' with hr | hr
          · rw [hr]; exact .inr done
          · exact .inr ((transGen_lift (f := Crew.finished value) .finished hr).trans done)
        · rename_i member' w' _ heq
          rw [heq] at hm
          have begun : Relation.TransGen CrewStep (Crew.running member' rest) (.queued member rest) := by
            rcases hm with hm | hm
            · cases hm; exact start
            · exact .trans (transGen_lift (f := (Crew.running · rest)) .member hm) start
          rcases rest.poll_advances h now (free - 1) w' with hr | hr
          · rw [hr]; exact .inr begun
          · exact .inr ((transGen_lift (f := Crew.running member') .running hr).trans begun)
termination_by structural crew => crew

end

theorem eq_or_eq_of_earlier {a b : Option Nat} {due : Nat} (h : earlier a b = some due) :
    a = some due ∨ b = some due := by
  cases a with
  | none => exact .inr (by simpa [earlier] using h)
  | some a =>
    cases b with
    | none => exact .inl (by simpa [earlier] using h)
    | some b =>
      simp only [earlier, Option.some.injEq] at h
      rcases Nat.le_total a b with hab | hab
      · exact .inl (by rw [Nat.min_eq_left hab] at h; rw [h])
      · exact .inr (by rw [Nat.min_eq_right hab] at h; rw [h])

theorem Advances.moved {p : Activity I α} {w : World I σ} {r : Activity I α × World I σ}
    (hr : Advances p w r) (hne : r ≠ (p, w)) : Relation.TransGen Step r.1 p :=
  hr.resolve_left hne

theorem pair_moved_of_either {p p' : Activity I (Except ε β)} {q q' : Activity I (Except ε γ)}
    {next : Except ε (β × γ) → Activity I α} {w w' w'' : World I σ}
    (hp : Advances p w (p', w')) (hq : Advances q w' (q', w''))
    (either : Relation.TransGen Step p' p ∨ Relation.TransGen Step q' q) :
    Relation.TransGen Step (.tryPair p' q' next) (.tryPair p q next) := by
  rcases either with hp' | hq'
  · rcases hq with hq | hq
    · cases hq; exact pair_left hp'
    · exact (pair_right hq).trans (pair_left hp')
  · rcases hp with hp | hp
    · cases hp; exact pair_right hq'
    · exact (pair_right hq').trans (pair_left hp)

/-- A pair moves when one of its halves does, and when both have ended. -/
theorem tryPair_progress (h : Handler I σ) (now : Nat) {p : Activity I (Except ε β)}
    {q : Activity I (Except ε γ)} {next : Except ε (β × γ) → Activity I α} {w : World I σ}
    (either : Relation.TransGen Step (p.poll h now w).1 p ∨
      Relation.TransGen Step (q.poll h now (p.poll h now w).2).1 q ∨
      (∃ e, p = .done (.error e)) ∨ (∃ e, q = .done (.error e)) ∨
      ∃ b c, p = .done (.ok b) ∧ q = .done (.ok c)) :
    Relation.TransGen Step ((Activity.tryPair p q next).poll h now w).1 (.tryPair p q next) := by
  have ih := fun result w => (next result).poll_advances h now w
  have hl := p.poll_advances h now w
  unfold Activity.poll
  split
  · rename_i e w' heq
    rw [heq] at hl
    exact pair_done (q := q) hl (.inl rfl : Advances q w' (q, w')) ih _ _
  · rename_i left' w' hleft heq
    rw [heq] at hl either
    have hr := q.poll_advances h now w'
    split
    · rw [‹Activity.poll h now q w' = _›] at hr
      exact pair_done hl hr ih _ _
    · rw [‹Activity.poll h now q w' = _›] at hr
      exact pair_done hl hr ih _ _
    · rename_i hright hboth heq'
      rw [heq'] at hr either
      rcases either with hp | hq | ⟨e, rfl⟩ | ⟨e, rfl⟩ | ⟨b, c, rfl, rfl⟩
      · exact pair_moved_of_either hl hr (.inl hp)
      · exact pair_moved_of_either hl hr (.inr hq)
      · unfold Activity.poll at heq
        cases heq
        exact absurd rfl (hleft e)
      · unfold Activity.poll at heq'
        cases heq'
        exact absurd rfl (hright e)
      · unfold Activity.poll at heq heq'
        cases heq
        cases heq'
        exact absurd rfl (hboth b c rfl)

theorem join_progress (h : Handler I σ) (now : Nat) {limit : Nat} {crew : Crew I β}
    {next : List β → Activity I α} {w : World I σ}
    (either : crew.results?.isSome ∨
      Relation.TransGen CrewStep (crew.poll h now (limit - crew.busy) w).1 crew) :
    Relation.TransGen Step ((Activity.join limit crew next).poll h now w).1
      (.join limit crew next) := by
  have ih := fun results w => (next results).poll_advances h now w
  have hc := crew.poll_advances h now (limit - crew.busy) w
  unfold Activity.poll
  rcases hpoll : crew.poll h now (limit - crew.busy) w with ⟨crew', w'⟩
  rw [hpoll] at hc either
  have moved : crew'.results? = none → Relation.TransGen CrewStep crew' crew := by
    intro hnone
    rcases either with hs | hm
    · rcases hc with hc | hc
      · cases hc
        rw [hnone] at hs
        cases hs
      · exact hc
    · exact hm
  dsimp only
  split
  · rename_i results _
    have last : Relation.TransGen Step _ (.join limit crew' next) :=
      (ih results w').after_step (.joined results)
    rcases hc with hc | hc
    · cases hc
      exact last
    · exact last.trans (transGen_lift (f := (Activity.join limit · next)) .crew hc)
  · rename_i hnone
    exact transGen_lift (f := (Activity.join limit · next)) .crew (moved hnone)

mutual

/-- An activity that is due to wake makes at least one move when it is polled. -/
theorem Activity.poll_progress {α : Type} (h : Handler I σ) (now time : Nat) :
    (p : Activity I α) → (w : World I σ) → {due : Nat} → p.wake now w.memory = some due →
      due ≤ time → Relation.TransGen Step (p.poll h time w).1 p
  | .done _, _, _, hw, _ => by simp [Activity.wake] at hw
  | .touch change next, w, _, _, _ => by
      unfold Activity.poll
      exact ((next time w.memory).poll_advances h time _).after_step (.touch _ _)
  | .perform request next, w, _, _, _ => by
      unfold Activity.poll
      split
      split
      · exact (conclude_moves (fun a w => (next a).poll_advances h time w) time _).trans
          (.single (.submit time))
      · exact .single (.submit _)
  | .settleAt due request next, w, _, hw, ht => by
      simp only [Activity.wake, Option.some.injEq] at hw
      unfold Activity.poll
      rw [if_pos (by omega)]
      exact conclude_moves (fun a w => (next a).poll_advances h time w) due _
  | .pause span next, w, _, _, _ => by
      unfold Activity.poll
      split
      · exact ((next.poll_advances h time w).after_step .resume).trans (.single (.pause time))
      · exact .single (.pause _)
  | .resumeAt due next, w, _, hw, ht => by
      simp only [Activity.wake, Option.some.injEq] at hw
      unfold Activity.poll
      rw [if_pos (by omega)]
      exact (next.poll_advances h time w).after_step .resume
  | .waitUntil ready next, w, _, hw, _ => by
      unfold Activity.wake at hw
      unfold Activity.poll
      split
      · exact (next.poll_advances h time w).after_step .wait
      · rename_i hready
        simp [hready] at hw
  | .join limit crew next, w, _, hw, ht => by
      apply join_progress
      unfold Activity.wake at hw
      split at hw
      · rename_i heq
        exact .inl (by simp [heq])
      · exact .inr (crew.poll_progress h now time w hw ht)
  | .tryPair left right next, w, _, hw, ht => by
      apply tryPair_progress
      unfold Activity.wake at hw
      split at hw
      · exact .inr (.inr (.inl ⟨_, rfl⟩))
      · exact .inr (.inr (.inr (.inl ⟨_, rfl⟩)))
      · exact .inr (.inr (.inr (.inr ⟨_, _, rfl, rfl⟩)))
      · rcases eq_or_eq_of_earlier hw with hw | hw
        · exact .inl (left.poll_progress h now time w hw ht)
        · rcases left.poll_advances h time w with hl | hl
          · exact .inr (.inl (by rw [hl]; exact right.poll_progress h now time w hw ht))
          · exact .inl hl
termination_by structural p => p

theorem Crew.poll_progress {β : Type} (h : Handler I σ) (now time : Nat) :
    (crew : Crew I β) → {free : Nat} → (w : World I σ) → {due : Nat} →
      crew.wake now w.memory free = some due → due ≤ time →
      Relation.TransGen CrewStep (crew.poll h time free w).1 crew
  | .nil, _, _, _, hw, _ => by simp [Crew.wake] at hw
  | .finished value rest, free, w, _, hw, ht => by
      unfold Crew.wake at hw
      unfold Crew.poll
      exact transGen_lift (f := Crew.finished value) .finished
        (rest.poll_progress h now time w hw ht)
  | .running member rest, free, w, due, hw, ht => by
      have hm := member.poll_advances h time w
      unfold Crew.poll
      split
      · rename_i value w' heq
        rw [heq] at hm
        have done : Relation.TransGen CrewStep (Crew.finished value rest) (.running member rest) := by
          rcases hm with hm | hm
          · cases hm; exact .single .finish
          · exact .trans (.single .finish) (transGen_lift (f := (Crew.running · rest)) .member hm)
        rcases rest.poll_advances h time (free + 1) w' with hr | hr
        · rw [hr]; exact done
        · exact (transGen_lift (f := Crew.finished value) .finished hr).trans done
      · rename_i member' w' hrunning heq
        have hr := rest.poll_advances h time free w'
        have either : Relation.TransGen Step member' member ∨
            Relation.TransGen CrewStep (rest.poll h time free w').1 rest := by
          simp only [Crew.wake] at hw
          split at hw
          · unfold Activity.poll at heq
            cases heq
            exact absurd rfl (hrunning _)
          · rcases eq_or_eq_of_earlier hw with hw | hw
            · have := member.poll_progress h now time w hw ht
              rw [heq] at this
              exact .inl this
            · rw [heq] at hm
              rcases hm with hm | hm
              · cases hm
                exact .inr (rest.poll_progress h now time w hw ht)
              · exact .inl hm
        rw [heq] at hm
        rcases either with hm' | hr'
        · rcases hr with hr | hr
          · rw [hr]
            exact transGen_lift (f := (Crew.running · rest)) .member hm'
          · exact (transGen_lift (f := Crew.running member') .running hr).trans
              (transGen_lift (f := (Crew.running · rest)) .member hm')
        · rcases hm with hm | hm
          · cases hm
            exact transGen_lift (f := Crew.running member) .running hr'
          · exact (transGen_lift (f := Crew.running member') .running hr').trans
              (transGen_lift (f := (Crew.running · rest)) .member hm)
  | .queued member rest, free, w, _, hw, ht => by
      unfold Crew.wake at hw
      split at hw
      · rename_i hfree
        subst hfree
        unfold Crew.poll
        rw [if_pos rfl]
        exact transGen_lift (f := Crew.queued member) .queued
          (rest.poll_progress h now time w hw ht)
      · rename_i hfree
        have hm := member.poll_advances h time w
        have start : Relation.TransGen CrewStep (Crew.running member rest) (.queued member rest) :=
          .single .start
        have begun : ∀ {member' w'}, member.poll h time w = (member', w') →
            Relation.TransGen CrewStep (Crew.running member' rest) (.queued member rest) := by
          intro member' w' heq
          rw [heq] at hm
          rcases hm with hm | hm
          · cases hm; exact start
          · exact .trans (transGen_lift (f := (Crew.running · rest)) .member hm) start
        unfold Crew.poll
        rw [if_neg hfree]
        split
        · rename_i value w' heq
          have done := (Relation.TransGen.single .finish).trans (begun heq)
          rcases rest.poll_advances h time free w' with hr | hr
          · rw [hr]; exact done
          · exact (transGen_lift (f := Crew.finished value) .finished hr).trans done
        · rename_i member' w' _ heq
          rcases rest.poll_advances h time (free - 1) w' with hr | hr
          · rw [hr]; exact begun heq
          · exact (transGen_lift (f := Crew.running member') .running hr).trans (begun heq)
termination_by structural crew => crew

end

end Progress

end ChainWatch.Concurrency
