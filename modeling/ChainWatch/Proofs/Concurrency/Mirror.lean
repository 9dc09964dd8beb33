import ChainWatch.Proofs.Concurrency.Schedule
import ChainWatch.Proofs.Concurrency.Sequence

/-!
# Runs that mirror each other

What an activity does depends on what its requests are answered and after which spans, not on what the
clock shows. `Activity.run_mirror` compares two runs of an activity: by clocks one of which is ahead of
the other, and over outsides one of which holds the other one and more. One run is the image of the
other, as long as the outsides treat alike the requests that the activity makes.

An activity that never looks at the clock is `Timeless`, with a rule for each way of composing.
-/

namespace ChainWatch.Concurrency

variable {I : Interface} {σ σ' α β γ ε : Type}

/-! ## Clocks that are ahead -/

mutual

/-- The activity as it is by a clock that is ahead by so much. -/
def Activity.shift {α : Type} (ahead : Nat) : Activity I α → Activity I α
  | .done value => .done value
  | .touch change next => .touch change fun now m => (next (now - ahead) m).shift ahead
  | .perform request next => .perform request fun answer => (next answer).shift ahead
  | .settleAt due request next =>
    .settleAt (due + ahead) request fun answer => (next answer).shift ahead
  | .pause span next => .pause span (next.shift ahead)
  | .resumeAt due next => .resumeAt (due + ahead) (next.shift ahead)
  | .waitUntil ready next => .waitUntil ready (next.shift ahead)
  | .join limit crew next => .join limit (crew.shift ahead) fun results => (next results).shift ahead
  | .tryPair left right next =>
    .tryPair (left.shift ahead) (right.shift ahead) fun outcome => (next outcome).shift ahead
termination_by structural p => p

def Crew.shift {β : Type} (ahead : Nat) : Crew I β → Crew I β
  | .nil => .nil
  | .finished value rest => .finished value (rest.shift ahead)
  | .running member rest => .running (member.shift ahead) (rest.shift ahead)
  | .queued member rest => .queued (member.shift ahead) (rest.shift ahead)
termination_by structural crew => crew

end

@[simp] theorem Crew.busy_shift : (crew : Crew I β) → (ahead : Nat) →
    (crew.shift ahead).busy = crew.busy
  | .nil, _ => rfl
  | .finished _ rest, ahead => rest.busy_shift ahead
  | .running _ rest, ahead => congrArg (· + 1) (rest.busy_shift ahead)
  | .queued _ rest, ahead => rest.busy_shift ahead

@[simp] theorem Crew.results?_shift : (crew : Crew I β) → (ahead : Nat) →
    (crew.shift ahead).results? = crew.results?
  | .nil, _ => rfl
  | .finished value rest, ahead => congrArg (Option.map (value :: ·)) (rest.results?_shift ahead)
  | .running _ _, _ => rfl
  | .queued _ _, _ => rfl

variable {ahead : Nat}

theorem earlier_map_add (a b : Option Nat) :
    earlier (a.map (· + ahead)) (b.map (· + ahead)) = (earlier a b).map (· + ahead) := by
  cases a <;> cases b <;> simp [earlier, Nat.add_min_add_right]

@[simp] theorem Activity.value?_shift (p : Activity I α) : (p.shift ahead).value? = p.value? := by
  cases p <;> rfl

theorem Activity.wake_tryPair {left : Activity I (Except ε β)} {right : Activity I (Except ε γ)}
    {next : Except ε (β × γ) → Activity I α} {now : Nat} {m : I.Memory} :
    (tryPair left right next).wake now m =
      match left.value?, right.value? with
      | some (.error _), _ => some now
      | _, some (.error _) => some now
      | some (.ok _), some (.ok _) => some now
      | _, _ => earlier (left.wake now m) (right.wake now m) := by
  cases left with
  | done v =>
    cases v with
    | error e => rfl
    | ok b =>
      cases right with
      | done v => cases v <;> rfl
      | _ => rfl
  | _ =>
    cases right with
      | done v => cases v <;> rfl
      | _ => rfl

mutual

theorem Activity.wake_shift {α : Type} (now : Nat) (m : I.Memory) : (p : Activity I α) →
    (p.shift ahead).wake (now + ahead) m = (p.wake now m).map (· + ahead)
  | .done _ => rfl
  | .touch _ _ => rfl
  | .perform _ _ => rfl
  | .settleAt _ _ _ => congrArg some (Nat.add_max_add_right ..)
  | .pause _ _ => rfl
  | .resumeAt _ _ => congrArg some (Nat.add_max_add_right ..)
  | .waitUntil ready _ => by
      unfold Activity.shift Activity.wake
      split <;> rfl
  | .join limit crew _ => by
      unfold Activity.shift Activity.wake
      rw [crew.results?_shift, crew.busy_shift]
      split
      · rfl
      · exact crew.wake_shift now m _
  | .tryPair left right _ => by
      unfold Activity.shift
      rw [Activity.wake_tryPair, Activity.wake_tryPair, Activity.value?_shift,
        Activity.value?_shift, left.wake_shift now m,
        right.wake_shift now m, earlier_map_add]
      split <;> rfl
termination_by structural p => p

theorem Crew.wake_shift {β : Type} (now : Nat) (m : I.Memory) : (crew : Crew I β) → (free : Nat) →
    (crew.shift ahead).wake (now + ahead) m free = (crew.wake now m free).map (· + ahead)
  | .nil, _ => rfl
  | .finished _ rest, free => rest.wake_shift now m free
  | .running member rest, free => by
      have ih : earlier ((member.shift ahead).wake (now + ahead) m)
          ((rest.shift ahead).wake (now + ahead) m free) =
          (earlier (member.wake now m) (rest.wake now m free)).map (· + ahead) := by
        rw [member.wake_shift now m, rest.wake_shift now m free, earlier_map_add]
      cases member with
      | done value => rfl
      | _ => exact ih
  | .queued _ rest, free => by
      unfold Crew.shift Crew.wake
      split
      · exact rest.wake_shift now m 0
      · rfl
termination_by structural crew => crew

end

/-! ## Outsides that hold more -/

/-- The same memory, over another outside. -/
def World.map (f : σ → σ') (w : World I σ) : World I σ' := ⟨w.memory, f w.outside⟩

/-- The event makes no other requests. -/
def Event.Sends (asks : I.Request → Prop) : Event I → Prop
  | .sent r => asks r
  | .answered r _ => asks r
  | .touched _ _ => True
  | .noticed _ => True

/-- The second handler treats such requests as the first one does, in an outside that holds the other
one. -/
structure Handler.Mirrors (h : Handler I σ) (h' : Handler I σ') (asks : I.Request → Prop)
    (f : σ → σ') : Prop where
  submit : ∀ r s, asks r → h'.submit r (f s) = ((h.submit r s).1, f (h.submit r s).2)
  settle : ∀ r s, asks r → h'.settle r (f s) = ((h.settle r s).1, f (h.settle r s).2)

theorem Handler.Mirrors.refl (h : Handler I σ) (asks : I.Request → Prop) : h.Mirrors h asks id :=
  ⟨fun _ _ _ => rfl, fun _ _ _ => rfl⟩

theorem Handler.Mirrors.mono {h : Handler I σ} {h' : Handler I σ'} {f : σ → σ'}
    {asks wider : I.Request → Prop} (hm : h.Mirrors h' wider f) (hw : ∀ r, asks r → wider r) :
    h.Mirrors h' asks f :=
  ⟨fun r s hr => hm.submit r s (hw r hr), fun r s hr => hm.settle r s (hw r hr)⟩

/-- What a poll has left, by another clock and over another outside. -/
def mirrored (ahead : Nat) (f : σ → σ') (r : Activity I α × World I σ) :
    Activity I α × World I σ' :=
  (r.1.shift ahead, r.2.map f)

variable {h : Handler I σ} {h' : Handler I σ'} {asks : I.Request → Prop} {f : σ → σ'} {now : Nat}

theorem conclude_mirror (hm : h.Mirrors h' asks f) {request : I.Request} (hr : asks request)
    {next : I.Answer request → Activity I α}
    (ih : ∀ answer w, ((next answer).shift ahead).poll h' (now + ahead) (w.map f) =
      mirrored ahead f ((next answer).poll h now w)) (w : World I σ) :
    h'.conclude (now + ahead) request (fun answer => (next answer).shift ahead)
        (fun answer w => ((next answer).shift ahead).poll h' (now + ahead) w) (w.map f) =
      mirrored ahead f
        (h.conclude now request next (fun answer w => (next answer).poll h now w) w) := by
  unfold Handler.conclude
  rw [show (w.map f).outside = f w.outside from rfl, hm.settle request w.outside hr]
  rcases h.settle request w.outside with ⟨⟨answer⟩ | ⟨span, answer⟩, outside⟩
  · exact ih answer ⟨w.memory, outside⟩
  · dsimp only
    split
    · exact ih answer ⟨w.memory, outside⟩
    · rw [Nat.add_right_comm]
      rfl

theorem Activity.poll_tryPair {left : Activity I (Except ε β)} {right : Activity I (Except ε γ)}
    {next : Except ε (β × γ) → Activity I α} {now : Nat} {h : Handler I σ} {w : World I σ} :
    (tryPair left right next).poll h now w =
      let l := left.poll h now w
      let r := right.poll h now l.2
      match l.1.value?, r.1.value? with
      | some (.error e), _ => (next (.error e)).poll h now l.2
      | _, some (.error e) => (next (.error e)).poll h now r.2
      | some (.ok b), some (.ok c) => (next (.ok (b, c))).poll h now r.2
      | _, _ => (.tryPair l.1 r.1 next, r.2) := by
  rw [Activity.poll]
  rcases left.poll h now w with ⟨left', w'⟩
  cases left' with
  | done v =>
    cases v with
    | error e => rfl
    | ok b =>
      dsimp only
      rcases right.poll h now w' with ⟨right', w''⟩
      cases right' with
      | done v => cases v <;> rfl
      | _ => rfl
  | _ =>
    dsimp only
    rcases right.poll h now w' with ⟨right', w''⟩
    cases right' with
    | done v => cases v <;> rfl
    | _ => rfl

mutual

theorem Activity.poll_mirror {α : Type} (hm : h.Mirrors h' asks f) : (p : Activity I α) →
    (w : World I σ) → p.Confined (Event.Sends asks) →
      (p.shift ahead).poll h' (now + ahead) (w.map f) = mirrored ahead f (p.poll h now w)
  | .done _, _, _ => rfl
  | .touch change next, w, hp => by
      have ih := (next now w.memory).poll_mirror hm ⟨change w.memory, w.outside⟩
        (hp now w.memory).2
      unfold Activity.shift Activity.poll
      dsimp only
      rw [Nat.add_sub_cancel]
      exact ih
  | .perform request next, w, hp => by
      unfold Activity.shift Activity.poll
      rw [show (w.map f).outside = f w.outside from rfl, hm.submit request w.outside hp.1]
      dsimp only
      split
      · exact conclude_mirror hm hp.1
          (fun answer w => (next answer).poll_mirror hm w (hp.2 answer).2) ⟨w.memory, _⟩
      · rw [Nat.add_right_comm]
        rfl
  | .settleAt due request next, w, hp => by
      have hr : asks request := (hp (h.settle request w.outside).1.answer).1
      unfold Activity.shift Activity.poll
      simp only [Nat.add_le_add_iff_right]
      split
      · exact conclude_mirror hm hr
          (fun answer w => (next answer).poll_mirror hm w (hp answer).2) w
      · rfl
  | .pause span next, w, hp => by
      unfold Activity.shift Activity.poll
      split
      · exact next.poll_mirror hm w hp
      · rw [Nat.add_right_comm]
        rfl
  | .resumeAt due next, w, hp => by
      unfold Activity.shift Activity.poll
      simp only [Nat.add_le_add_iff_right]
      split
      · exact next.poll_mirror hm w hp
      · rfl
  | .waitUntil ready next, w, hp => by
      unfold Activity.shift Activity.poll
      rw [show (w.map f).memory = w.memory from rfl]
      split
      · exact next.poll_mirror hm w hp.2
      · rfl
  | .join limit crew next, w, hp => by
      unfold Activity.shift Activity.poll
      rw [crew.busy_shift, crew.poll_mirror hm _ w hp.2.1]
      dsimp only
      rw [Crew.results?_shift]
      split
      · exact (next _).poll_mirror hm _ (hp.2.2 _)
      · rfl
  | .tryPair left right next, w, hp => by
      unfold Activity.shift
      rw [Activity.poll_tryPair, Activity.poll_tryPair, left.poll_mirror hm w hp.1]
      dsimp only [mirrored]
      rw [right.poll_mirror hm _ hp.2.1]
      dsimp only [mirrored]
      rw [Activity.value?_shift, Activity.value?_shift]
      split
      · exact (next _).poll_mirror hm _ (hp.2.2 _)
      · exact (next _).poll_mirror hm _ (hp.2.2 _)
      · exact (next _).poll_mirror hm _ (hp.2.2 _)
      · rfl
termination_by structural p => p

theorem Crew.poll_mirror {β : Type} (hm : h.Mirrors h' asks f) : (crew : Crew I β) →
    (free : Nat) → (w : World I σ) → crew.Confined (Event.Sends asks) →
      (crew.shift ahead).poll h' (now + ahead) free (w.map f) =
        ((crew.poll h now free w).1.shift ahead, (crew.poll h now free w).2.map f)
  | .nil, _, _, _ => rfl
  | .finished value rest, free, w, hc => by
      unfold Crew.shift Crew.poll
      rw [rest.poll_mirror hm free w hc]
  | .running member rest, free, w, hc => by
      have ih := fun free w => rest.poll_mirror hm free w hc.2
      unfold Crew.shift Crew.poll
      rw [member.poll_mirror hm w hc.1]
      rcases member.poll h now w with ⟨left, w'⟩
      cases left with
      | done value => exact congrArg (Prod.map (Crew.finished value) id) (ih (free + 1) w')
      | _ => exact congrArg (Prod.map (Crew.running _) id) (ih free w')
  | .queued member rest, free, w, hc => by
      have ih := fun free w => rest.poll_mirror hm free w hc.2
      unfold Crew.shift Crew.poll
      split
      · rw [ih 0 w]
      · rw [member.poll_mirror hm w hc.1]
        rcases member.poll h now w with ⟨left, w'⟩
        cases left with
        | done value => exact congrArg (Prod.map (Crew.finished value) id) (ih free w')
        | _ => exact congrArg (Prod.map (Crew.running _) id) (ih (free - 1) w')
termination_by structural crew => crew

end

/-! ## Runs -/

/-- How a run ended, by another clock and over another outside. -/
def Ending.map (ahead : Nat) (f : σ → σ') (e : Ending I σ α) : Ending I σ' α :=
  ⟨e.value?, e.time + ahead, e.world.map f⟩

/-- Run by another clock and over another outside an activity comes to the same value. -/
theorem Activity.run_mirror (hm : h.Mirrors h' asks f) {p : Activity I α} {w : World I σ}
    (hp : p.Confined (Event.Sends asks)) :
    (p.shift ahead).run h' (now + ahead) (w.map f) = (p.run h now w).map ahead f := by
  fun_induction run h now p w with
  | case1 now p w due hw ih =>
      have hw' : (p.shift ahead).wake (now + ahead) (w.map f).memory = some (due + ahead) := by
        rw [show (w.map f).memory = w.memory from rfl, p.wake_shift now w.memory, hw]
        rfl
      rw [run_of_wake hw', p.poll_mirror hm w hp]
      exact ih (p.confined_poll h due w hp)
  | case2 now w v hw => exact run_done ..
  | case3 now p w hw _ hd =>
      refine run_of_not_done ?_ fun value heq => ?_
      · rw [show (w.map f).memory = w.memory from rfl, p.wake_shift now w.memory, hw]
        rfl
      · cases p with
        | done v => exact hd v hw rfl HEq.rfl
        | _ => cases heq

/-! ## Activities that do not look at the clock -/

mutual

/-- The activity never looks at the clock, nothing of it is under way, and it makes such requests only.
No crew in it is left without any place. -/
def Activity.Timeless {α : Type} (asks : I.Request → Prop) : Activity I α → Prop
  | .done _ => True
  | .touch _ next =>
    (∀ now now' m, next now m = next now' m) ∧ ∀ now m, (next now m).Timeless asks
  | .perform request next => asks request ∧ ∀ answer, (next answer).Timeless asks
  | .settleAt _ _ _ => False
  | .pause _ next => next.Timeless asks
  | .resumeAt _ _ => False
  | .waitUntil _ next => next.Timeless asks
  | .join limit crew next =>
    (crew.results? = none → 0 < limit) ∧ crew.Timeless asks ∧
      ∀ results, (next results).Timeless asks
  | .tryPair left right next =>
    left.Timeless asks ∧ right.Timeless asks ∧ ∀ outcome, (next outcome).Timeless asks
termination_by structural p => p

def Crew.Timeless {β : Type} (asks : I.Request → Prop) : Crew I β → Prop
  | .nil => True
  | .finished _ rest => rest.Timeless asks
  | .running member rest => member.Timeless asks ∧ rest.Timeless asks
  | .queued member rest => member.Timeless asks ∧ rest.Timeless asks
termination_by structural crew => crew

end

mutual

theorem Activity.Timeless.shift_eq {α : Type} : {p : Activity I α} → p.Timeless asks →
    p.shift ahead = p
  | .done _, _ => rfl
  | .touch change next, hp => by
      refine congrArg (Activity.touch change) (funext fun now => funext fun m => ?_)
      rw [(hp.2 (now - ahead) m).shift_eq]
      exact hp.1 _ _ m
  | .perform request _, hp =>
      congrArg (Activity.perform request) (funext fun answer => (hp.2 answer).shift_eq)
  | .pause span next, hp =>
      congrArg (Activity.pause span) (Activity.Timeless.shift_eq (p := next) hp)
  | .waitUntil ready next, hp =>
      congrArg (Activity.waitUntil ready) (Activity.Timeless.shift_eq (p := next) hp)
  | .join limit _ _, hp =>
      congr (congrArg (Activity.join limit) hp.2.1.shift_eq)
        (funext fun results => (hp.2.2 results).shift_eq)
  | .tryPair _ _ _, hp =>
      congr (congr (congrArg Activity.tryPair hp.1.shift_eq) hp.2.1.shift_eq)
        (funext fun outcome => (hp.2.2 outcome).shift_eq)
termination_by structural p => p

theorem Crew.Timeless.shift_eq {β : Type} : {crew : Crew I β} → crew.Timeless asks →
    crew.shift ahead = crew
  | .nil, _ => rfl
  | .finished value rest, hc =>
      congrArg (Crew.finished value)
        (show rest.shift ahead = rest from Crew.Timeless.shift_eq hc)
  | .running _ _, hc => congrArg₂ Crew.running hc.1.shift_eq hc.2.shift_eq
  | .queued _ _, hc => congrArg₂ Crew.queued hc.1.shift_eq hc.2.shift_eq
termination_by structural crew => crew

end

mutual

theorem Activity.Timeless.confined {α : Type} : {p : Activity I α} → p.Timeless asks →
    p.Confined (Event.Sends asks)
  | .done _, _ => trivial
  | .touch _ _, hp => fun now m => ⟨trivial, (hp.2 now m).confined⟩
  | .perform _ _, hp => ⟨hp.1, fun answer => ⟨hp.1, (hp.2 answer).confined⟩⟩
  | .pause _ next, hp => Activity.Timeless.confined (p := next) hp
  | .waitUntil _ next, hp => ⟨fun _ => trivial, Activity.Timeless.confined (p := next) hp⟩
  | .join _ _ _, hp => ⟨hp.1, hp.2.1.confined, fun results => (hp.2.2 results).confined⟩
  | .tryPair _ _ _, hp => ⟨hp.1.confined, hp.2.1.confined, fun outcome => (hp.2.2 outcome).confined⟩
termination_by structural p => p

theorem Crew.Timeless.confined {β : Type} : {crew : Crew I β} → crew.Timeless asks →
    crew.Confined (Event.Sends asks)
  | .nil, _ => trivial
  | .finished _ rest, hc => show rest.Confined _ from Crew.Timeless.confined hc
  | .running _ _, hc => ⟨hc.1.confined, hc.2.confined⟩
  | .queued _ _, hc => ⟨hc.1.confined, hc.2.confined⟩
termination_by structural crew => crew

end

namespace Activity

/-- When it starts makes no difference to what such an activity does. -/
theorem Timeless.run_eq (hm : h.Mirrors h' asks f) {p : Activity I α} (hp : p.Timeless asks)
    (now : Nat) (w : World I σ) : p.run h' now (w.map f) = (p.run h 0 w).map now f := by
  have hrun : (p.shift now).run h' (0 + now) (w.map f) = (p.run h 0 w).map now f :=
    run_mirror hm hp.confined
  rwa [hp.shift_eq, Nat.zero_add] at hrun

theorem timeless_pure (value : α) : (pure value : Activity I α).Timeless asks := trivial

theorem Timeless.bind : {p : Activity I α} → {g : α → Activity I β} → p.Timeless asks →
    (∀ value, (g value).Timeless asks) → (p >>= g).Timeless asks
  | .done value, _, _, hg => hg value
  | .touch _ _, g, hp, hg =>
      ⟨fun now now' m => congrArg (·.bind g) (hp.1 now now' m), fun now m => (hp.2 now m).bind hg⟩
  | .perform _ _, _, hp, hg => ⟨hp.1, fun answer => (hp.2 answer).bind hg⟩
  | .pause _ next, _, hp, hg => Timeless.bind (p := next) hp hg
  | .waitUntil _ next, _, hp, hg => Timeless.bind (p := next) hp hg
  | .join _ _ _, _, hp, hg => ⟨hp.1, hp.2.1, fun results => (hp.2.2 results).bind hg⟩
  | .tryPair _ _ _, _, hp, hg => ⟨hp.1, hp.2.1, fun outcome => (hp.2.2 outcome).bind hg⟩

theorem timeless_modify (change : I.Memory → I.Memory) : (modify change).Timeless asks :=
  ⟨fun _ _ _ => rfl, fun _ _ => trivial⟩

theorem timeless_memory : (memory : Activity I I.Memory).Timeless asks :=
  ⟨fun _ _ _ => rfl, fun _ _ => trivial⟩

theorem timeless_request {r : I.Request} (hr : asks r) : (request r).Timeless asks :=
  ⟨hr, fun _ => trivial⟩

theorem timeless_sleep (span : Nat) : (sleep span : Activity I Unit).Timeless asks := trivial

theorem timeless_await (ready : I.Memory → Bool) : (await ready).Timeless asks := trivial

theorem timeless_joinBounded {limit : Nat} {members : List (Activity I β)}
    (hl : members ≠ [] → 0 < limit) (hm : ∀ member ∈ members, member.Timeless asks) :
    (joinBounded limit members).Timeless asks := by
  refine ⟨fun hn => hl ?_, ?_, fun _ => trivial⟩
  · rintro rfl
    cases hn
  · clear hl
    induction members with
    | nil => trivial
    | cons member members ih =>
        exact ⟨hm member (by simp), ih fun m h => hm m (by simp [h])⟩

theorem timeless_joinAll {members : List (Activity I β)}
    (hm : ∀ member ∈ members, member.Timeless asks) : (joinAll members).Timeless asks :=
  timeless_joinBounded List.length_pos_of_ne_nil hm

theorem timeless_tryBoth {p : Activity I (Except ε β)} {q : Activity I (Except ε γ)}
    (hp : p.Timeless asks) (hq : q.Timeless asks) : (tryBoth p q).Timeless asks :=
  ⟨hp, hq, fun _ => trivial⟩

theorem timeless_both {p : Activity I β} {q : Activity I γ} (hp : p.Timeless asks)
    (hq : q.Timeless asks) : (both p q).Timeless asks := by
  refine ⟨hp.bind fun _ => timeless_pure _, hq.bind fun _ => timeless_pure _, fun outcome => ?_⟩
  cases outcome with
  | error e => exact e.elim
  | ok values => trivial

end Activity

/-! ### Activities that may fail -/

open Activity

variable {x : ExceptT ε (Activity I) α} {g : α → ExceptT ε (Activity I) β}

theorem timeless_exceptT_pure (value : α) :
    (pure value : ExceptT ε (Activity I) α).run.Timeless asks :=
  timeless_pure _

theorem timeless_throw (e : ε) : (throw e : ExceptT ε (Activity I) α).run.Timeless asks :=
  timeless_pure _

theorem timeless_exceptT_bind (hx : x.run.Timeless asks)
    (hg : ∀ value, (g value).run.Timeless asks) : (x >>= g).run.Timeless asks := by
  rw [ExceptT.run_bind]
  refine hx.bind fun outcome => ?_
  cases outcome with
  | error e => exact timeless_pure _
  | ok value => exact hg value

theorem timeless_lift {p : Activity I α} (hp : p.Timeless asks) :
    (liftM p : ExceptT ε (Activity I) α).run.Timeless asks :=
  hp.bind fun _ => timeless_pure _

end ChainWatch.Concurrency
