import ChainWatch.Fleet.Quorum
import ChainWatch.Proofs.Concurrency.Mirror

/-!
# What endpoints do

An endpoint sends requests about its own node only and sets no flag but its own
(`Endpoint.Acts`). What its operations come to is read off their traces; the health flag ends up as the
last answer has set it.
-/

namespace ChainWatch

open Concurrency

/-- The request is about the node at this place, or about its container. -/
def Request.About (position : Nat) : Request → Prop
  | .chain p _ => p = position
  | .container p _ => p = position
  | _ => False

theorem Request.About.unique {p q : Nat} {r : Request} (hp : r.About p) (hq : r.About q) : p = q := by
  cases r with
  | chain | container => exact hp.symm.trans hq
  | _ => exact hp.elim

namespace Endpoint

variable {e : Endpoint} {trace : Trace system} {asks : Request → Prop}

/-! ## Footprints -/

/-- What an endpoint does by itself, when it sends such requests only. -/
inductive Acts (e : Endpoint) (asks : Request → Prop) : Event system → Prop where
  | sent {r : Request} (h : asks r) : Acts e asks (.sent r)
  | answered {r : Request} (h : asks r) (answer : r.Answer) : Acts e asks (.answered r answer)
  | found (m : State) : Acts e asks (.touched m m)
  | marked (m : State) (healthy : Bool) : Acts e asks (.touched m (m.mark e.position healthy))

theorem Acts.mono {e : Endpoint} {wider : Request → Prop} {event : Event system}
    (h : e.Acts asks event) (hw : ∀ r, asks r → wider r) : e.Acts wider event := by
  cases h with
  | sent h => exact .sent (hw _ h)
  | answered h answer => exact .answered (hw _ h) answer
  | found m => exact .found m
  | marked m healthy => exact .marked m healthy

/-- Whatever the mark of an endpoint leaves alone, the endpoint keeps. -/
theorem keeps_of_acts {X : Type} {view : State → X} (ha : ∀ event ∈ trace, e.Acts asks event)
    (hv : ∀ m healthy, view (State.mark e.position healthy m) = view m) : trace.Keeps view := by
  intro before after hm
  cases ha _ hm with
  | found => rfl
  | marked _ healthy => exact hv before healthy

/-- The job consists of such requests, of looking at the memory and of marking the endpoint, one after
the other or two side by side. -/
inductive Uses (e : Endpoint) (asks : Request → Prop) : {α : Type} → Job α → Prop where
  | pure {α : Type} (value : α) : Uses e asks (Pure.pure value)
  | memory : Uses e asks Activity.memory
  | mark (healthy : Bool) : Uses e asks (e.mark healthy)
  | request {r : Request} (h : asks r) : Uses e asks (Activity.request (I := system) r)
  | sleep (span : Nat) : Uses e asks (Activity.sleep span)
  | bind {α β : Type} {p : Job α} {f : α → Job β} (hp : Uses e asks p)
    (hf : ∀ value, Uses e asks (f value)) : Uses e asks (p >>= f)
  | tryBoth {β γ ε : Type} {p : Job (Except ε β)} {q : Job (Except ε γ)} (hp : Uses e asks p)
    (hq : Uses e asks q) : Uses e asks (Activity.tryBoth p q)
  | both {β γ : Type} {p : Job β} {q : Job γ} (hp : Uses e asks p) (hq : Uses e asks q) :
    Uses e asks (Activity.both p q)

theorem Uses.confined {α : Type} {p : Job α} (h : e.Uses asks p) : p.Confined (e.Acts asks) := by
  induction h with
  | pure value => exact Activity.confined_pure value
  | memory => exact Activity.confined_memory .found
  | mark healthy => exact Activity.confined_modify fun m => .marked m healthy
  | request h => exact Activity.confined_request (.sent h) fun answer => .answered h answer
  | sleep span => exact Activity.confined_sleep span
  | bind _ _ hp hf => exact hp.bind hf
  | tryBoth _ _ hp hq => exact Activity.confined_tryBoth hp hq
  | both _ _ hp hq => exact Activity.confined_both hp hq

theorem Uses.timeless {α : Type} {p : Job α} (h : e.Uses asks p) : p.Timeless asks := by
  induction h with
  | pure value => exact Activity.timeless_pure value
  | memory => exact Activity.timeless_memory
  | mark healthy => exact Activity.timeless_modify _
  | request h => exact Activity.timeless_request h
  | sleep span => exact Activity.timeless_sleep span
  | bind _ _ hp hf => exact hp.bind hf
  | tryBoth _ _ hp hq => exact Activity.timeless_tryBoth hp hq
  | both _ _ hp hq => exact Activity.timeless_both hp hq

section Faults

variable {α β ε : Type} {x : ExceptT ε Job α}

theorem uses_throw (fault : ε) : e.Uses asks (throw fault : ExceptT ε Job α).run :=
  .pure _

theorem uses_exceptT_pure (value : α) : e.Uses asks (pure value : ExceptT ε Job α).run :=
  .pure _

theorem uses_exceptT_bind {f : α → ExceptT ε Job β} (hx : e.Uses asks x.run)
    (hf : ∀ value, e.Uses asks (f value).run) : e.Uses asks (x >>= f).run := by
  rw [ExceptT.run_bind]
  refine hx.bind fun outcome => ?_
  cases outcome with
  | error fault => exact .pure _
  | ok value => exact hf value

theorem uses_tryCatch {handle : ε → ExceptT ε Job α} (hx : e.Uses asks x.run)
    (hh : ∀ fault, e.Uses asks (handle fault).run) : e.Uses asks (tryCatch x handle).run := by
  refine hx.bind fun outcome => ?_
  cases outcome with
  | error fault => exact hh fault
  | ok value => exact .pure _

theorem uses_lift {p : Job α} (hp : e.Uses asks p) :
    e.Uses asks (liftM p : ExceptT ε Job α).run :=
  hp.bind fun _ => .pure _

end Faults

theorem uses_ask {r : ChainRequest} (h : asks (.chain e.position r)) : e.Uses asks (e.ask r).run :=
  .bind (.request h) fun answer => .bind (.mark answer.isOk) fun _ => .pure answer

theorem uses_engine {r : ContainerRequest} (h : asks (.container e.position r)) :
    e.Uses asks (e.engine r).run :=
  .bind (.request h) fun _ => .pure _

theorem uses_answersWithin (h : asks (.chain e.position .blockNumber)) (attempts : Nat) :
    e.Uses asks (e.answersWithin attempts) := by
  induction attempts with
  | zero => exact .pure false
  | succ attempts ih =>
      refine .bind (uses_ask h) fun answer => ?_
      cases answer with
      | ok height => exact .pure true
      | error fault =>
          dsimp only
          split
          · exact .pure false
          · exact .bind (.sleep _) fun _ => ih

theorem uses_awaitReady (h : asks (.chain e.position .blockNumber)) :
    e.Uses asks e.awaitReady.run := by
  refine uses_exceptT_bind (uses_lift (uses_answersWithin h _)) fun ready => ?_
  cases ready with
  | true => exact uses_exceptT_pure ()
  | false => exact uses_throw _

theorem uses_ensureContainer (h : ∀ r, asks (.container e.position r)) (c : Container) :
    e.Uses asks (e.ensureContainer c).run := by
  refine uses_exceptT_bind (uses_engine (h _)) fun present => ?_
  cases present with
  | false => exact uses_engine (h _)
  | true =>
      refine uses_exceptT_bind (uses_engine (h _)) fun fitting => ?_
      cases fitting with
      | true => exact uses_exceptT_pure ()
      | false => exact uses_exceptT_bind (uses_engine (h _)) fun _ => uses_engine (h _)

theorem uses_start (hc : ∀ r, asks (.container e.position r))
    (hb : asks (.chain e.position .blockNumber)) : e.Uses asks e.start.run := by
  unfold start
  split
  · exact uses_exceptT_pure ()
  · refine uses_exceptT_bind (uses_tryCatch (uses_ensureContainer hc _) ?_) fun _ => uses_awaitReady hb
    intro fault
    exact uses_exceptT_bind (uses_lift (.mark false)) fun _ => uses_throw fault

theorem uses_stop (hc : ∀ r, asks (.container e.position r)) : e.Uses asks e.stop.run := by
  unfold stop
  split
  · exact uses_exceptT_pure ()
  · exact uses_exceptT_bind (uses_engine (hc _)) fun _ => uses_lift (.mark false)

theorem uses_reset {source : String} (hr : asks (.chain e.position (.reset source)))
    (hb : asks (.chain e.position .blockNumber)) : e.Uses asks (e.reset source).run := by
  unfold reset
  split
  · exact uses_exceptT_pure ()
  · exact uses_exceptT_bind (.request hr) fun _ => uses_awaitReady hb

theorem uses_recover (hc : ∀ r, asks (.container e.position r))
    (hb : asks (.chain e.position .blockNumber)) : e.Uses asks e.recover.run := by
  have marked : e.Uses asks (liftM (e.mark true) : NodeJob Unit).run := uses_lift (.mark true)
  refine uses_exceptT_bind (uses_lift .memory) fun state => ?_
  dsimp only
  split
  · exact uses_exceptT_pure ()
  · split
    · exact uses_exceptT_bind (uses_stop hc) fun _ =>
        uses_exceptT_bind (uses_start hc hb) fun _ => marked
    · exact uses_exceptT_bind (uses_lift (.sleep _)) fun _ =>
        uses_exceptT_bind (uses_ask hb) fun _ => marked

theorem uses_callView {address : Address} {contract : Abi.Contract} {method : String}
    {inputs : List Abi.Value} (h : ∀ data, asks (.chain e.position (.call address data))) :
    e.Uses asks (e.callView address contract method inputs).run := by
  unfold callView
  split
  · exact uses_throw _
  · split
    · exact uses_throw _
    · refine uses_exceptT_bind (uses_ask (h _)) fun answer => ?_
      split
      · exact uses_throw _
      · exact uses_exceptT_pure _

theorem uses_proxyInfo {address : Address}
    (h : ∀ slot, asks (.chain e.position (.storage address slot))) :
    e.Uses asks (e.proxyInfo address).run :=
  uses_exceptT_bind (.tryBoth (uses_ask (h _)) (uses_ask (h _))) fun _ => uses_exceptT_pure _

theorem confined_mark (e : Endpoint) (healthy : Bool) : (e.mark healthy).Confined (e.Acts asks) :=
  (Uses.mark healthy).confined

theorem confined_ask {r : ChainRequest} (h : asks (.chain e.position r)) :
    (e.ask r).run.Confined (e.Acts asks) :=
  (uses_ask h).confined

theorem confined_engine {r : ContainerRequest} (h : asks (.container e.position r)) :
    (e.engine r).run.Confined (e.Acts asks) :=
  (uses_engine h).confined

theorem confined_awaitReady (h : asks (.chain e.position .blockNumber)) :
    e.awaitReady.run.Confined (e.Acts asks) :=
  (uses_awaitReady h).confined

theorem confined_start (hc : ∀ r, asks (.container e.position r))
    (hb : asks (.chain e.position .blockNumber)) : e.start.run.Confined (e.Acts asks) :=
  (uses_start hc hb).confined

theorem confined_stop (hc : ∀ r, asks (.container e.position r)) :
    e.stop.run.Confined (e.Acts asks) :=
  (uses_stop hc).confined

theorem confined_reset {source : String} (hr : asks (.chain e.position (.reset source)))
    (hb : asks (.chain e.position .blockNumber)) : (e.reset source).run.Confined (e.Acts asks) :=
  (uses_reset hr hb).confined

theorem confined_recover (hc : ∀ r, asks (.container e.position r))
    (hb : asks (.chain e.position .blockNumber)) : e.recover.run.Confined (e.Acts asks) :=
  (uses_recover hc hb).confined

theorem confined_callView {address : Address} {contract : Abi.Contract} {method : String}
    {inputs : List Abi.Value} (h : ∀ data, asks (.chain e.position (.call address data))) :
    (e.callView address contract method inputs).run.Confined (e.Acts asks) :=
  (uses_callView h).confined

theorem confined_proxyInfo {address : Address}
    (h : ∀ slot, asks (.chain e.position (.storage address slot))) :
    (e.proxyInfo address).run.Confined (e.Acts asks) :=
  (uses_proxyInfo h).confined

/-! ## Outcomes -/

theorem runs_ask_some {r : ChainRequest} {answer : Except NodeFault r.Value} :
    (e.ask r).run.Runs trace (some answer) ↔
      ∃ m, trace = [.sent (.chain e.position r), .answered (.chain e.position r) answer,
        .touched m (State.mark e.position answer.isOk m)] := by
  rw [show (e.ask r).run = (do
    let answer ← Activity.request (I := system) (.chain e.position r)
    e.mark answer.isOk
    return answer) from rfl]
  constructor
  · intro h
    obtain ⟨a, early, late, hs, hl, rfl⟩ := Activity.runs_bind_some.mp h
    obtain ⟨⟨⟩, marked, last, hm, hp, rfl⟩ := Activity.runs_bind_some.mp hl
    obtain ⟨rfl, rfl⟩ := Activity.runs_pure_some.mp hp
    obtain ⟨m, rfl⟩ := Activity.runs_modify_some.mp hm
    rw [Activity.runs_request_some.mp hs]
    exact ⟨m, rfl⟩
  · rintro ⟨m, rfl⟩
    refine Activity.runs_bind_some.mpr
      ⟨answer, _, [.touched m _], Activity.runs_request_some.mpr rfl, ?_, rfl⟩
    exact Activity.runs_bind_some.mpr ⟨(), _, [], Activity.runs_modify_some.mpr ⟨m, rfl⟩,
      Activity.runs_pure_some.mpr ⟨rfl, rfl⟩, rfl⟩

theorem runs_engine_some {r : ContainerRequest} {outcome : Except NodeFault r.Value} :
    (e.engine r).run.Runs trace (some outcome) ↔ ∃ answer,
      trace = [.sent (.container e.position r), .answered (.container e.position r) answer] ∧
        outcome = answer.mapError lifecycle := by
  rw [show (e.engine r).run = (do
    let answer ← Activity.request (I := system) (.container e.position r)
    return answer.mapError lifecycle) from rfl]
  constructor
  · intro h
    obtain ⟨answer, early, late, hs, hp, rfl⟩ := Activity.runs_bind_some.mp h
    obtain ⟨rfl, rfl⟩ := Activity.runs_pure_some.mp hp
    rw [Activity.runs_request_some.mp hs]
    exact ⟨answer, rfl, rfl⟩
  · rintro ⟨answer, rfl, rfl⟩
    exact Activity.runs_bind_some.mpr ⟨answer, _, [], Activity.runs_request_some.mpr rfl,
      Activity.runs_pure_some.mpr ⟨rfl, rfl⟩, rfl⟩

/-- The health flag of an endpoint, as a view of the memory. -/
def flag (e : Endpoint) (m : State) : Bool := m.isHealthy e.position

@[simp] theorem flag_mark (e : Endpoint) (m : State) (healthy : Bool) :
    e.flag (m.mark e.position healthy) = healthy := by
  simp [flag]

theorem flag_mark_of_ne {e e' : Endpoint} (h : e.position ≠ e'.position) (m : State)
    (healthy : Bool) : e.flag (m.mark e'.position healthy) = e.flag m := by
  simp [flag, h]

theorem flag_of_ask {r : ChainRequest} {answer : Except NodeFault r.Value} {x y : Bool}
    (hr : (e.ask r).run.Runs trace (some answer)) (hf : trace.Follows e.flag x y) :
    y = answer.isOk := by
  obtain ⟨m, rfl⟩ := runs_ask_some.mp hr
  have hy : y = e.flag (State.mark e.position answer.isOk m) := hf.2
  rw [hy, flag_mark]

theorem flag_of_answersWithin {attempts : Nat} {ready x y : Bool} (hpos : 0 < attempts)
    (hr : (e.answersWithin attempts).Runs trace (some ready)) (hf : trace.Follows e.flag x y) :
    y = ready := by
  induction attempts generalizing trace x with
  | zero => omega
  | succ attempts ih =>
      obtain ⟨answer, early, late, ha, hl, rfl⟩ := Activity.runs_bind_some.mp hr
      obtain ⟨z, he, hf⟩ := Trace.follows_append.mp hf
      have hz : z = answer.isOk := flag_of_ask ha he
      cases answer with
      | ok height =>
          obtain ⟨rfl, rfl⟩ := Activity.runs_pure_some.mp hl
          rw [show y = z from hf, hz]
          rfl
      | error fault =>
          dsimp only at hl
          split at hl
          · obtain ⟨rfl, rfl⟩ := Activity.runs_pure_some.mp hl
            rw [show y = z from hf, hz]
            rfl
          · rename_i hmore
            obtain ⟨⟨⟩, pause, later, hp, hl, rfl⟩ := Activity.runs_bind_some.mp hl
            obtain rfl : pause = [] := Activity.runs_sleep_some.mp hp
            exact ih (by omega) hl hf

theorem runs_awaitReady_some {outcome : Except NodeFault Unit} :
    e.awaitReady.run.Runs trace (some outcome) ↔
      ∃ ready, (e.answersWithin (max 1 e.settings.readinessAttempts)).Runs trace (some ready) ∧
        outcome = if ready then .ok () else .error (.notReady (max 1 e.settings.readinessAttempts)) := by
  have ended {t : Trace system} {ready : Bool} :
      (if ready then pure () else throw (.notReady (max 1 e.settings.readinessAttempts)) :
        NodeJob Unit).run.Runs t (some outcome) ↔ t = [] ∧
          outcome = if ready then .ok () else .error (.notReady (max 1 e.settings.readinessAttempts)) := by
    cases ready <;> simp
  unfold awaitReady
  dsimp only
  rw [runs_exceptT_bind_some]
  constructor
  · rintro (⟨fault, hr, -⟩ | ⟨ready, early, late, hr, hl, rfl⟩)
    · obtain ⟨v, -, ⟨⟩⟩ := runs_lift_some.mp hr
    · obtain ⟨v, hr, heq⟩ := runs_lift_some.mp hr
      cases heq
      obtain ⟨rfl, rfl⟩ := ended.mp hl
      exact ⟨ready, by simpa using hr, rfl⟩
  · rintro ⟨ready, hr, rfl⟩
    exact .inr ⟨ready, trace, [], runs_lift_some.mpr ⟨ready, hr, rfl⟩, ended.mpr ⟨rfl, rfl⟩,
      by simp⟩

theorem flag_of_awaitReady {outcome : Except NodeFault Unit} {x y : Bool}
    (hr : e.awaitReady.run.Runs trace (some outcome)) (hf : trace.Follows e.flag x y) :
    y = outcome.isOk := by
  obtain ⟨ready, ha, rfl⟩ := runs_awaitReady_some.mp hr
  rw [flag_of_answersWithin (by omega) ha hf]
  cases ready <;> rfl

/-- A reset is refused at once, or the node takes the source and is waited for. -/
theorem runs_reset_some {c : Container} (hm : e.role = .managed c) {source : String}
    {outcome : Except NodeFault Unit} :
    (e.reset source).run.Runs trace (some outcome) ↔
      (∃ fault, trace = [.sent (.chain e.position (.reset source)),
          .answered (.chain e.position (.reset source)) (.error fault)] ∧ outcome = .error fault) ∨
        ∃ waiting, e.awaitReady.run.Runs waiting (some outcome) ∧
          trace = .sent (.chain e.position (.reset source)) ::
            .answered (.chain e.position (.reset source)) (.ok ()) :: waiting := by
  unfold reset
  rw [hm, runs_exceptT_bind_some]
  constructor
  · rintro (⟨fault, hs, rfl⟩ | ⟨⟨⟩, early, waiting, hs, hw, rfl⟩)
    · exact .inl ⟨fault, Activity.runs_request_some.mp hs, rfl⟩
    · rw [Activity.runs_request_some.mp hs]
      exact .inr ⟨waiting, hw, rfl⟩
  · rintro (⟨fault, rfl, rfl⟩ | ⟨waiting, hw, rfl⟩)
    · exact .inl ⟨fault, Activity.runs_request_some.mpr rfl, rfl⟩
    · exact .inr ⟨(), _, waiting, Activity.runs_request_some.mpr rfl, hw, rfl⟩

/-- The node did not take the source when it was told to follow it. -/
def Refuses (e : Endpoint) (source : String) (trace : Trace system) : Prop :=
  ∃ fault, .answered (.chain e.position (.reset source)) (.error fault) ∈ trace

theorem not_refuses_of_awaitReady {source : String} {outcome : Except NodeFault Unit}
    (hr : e.awaitReady.run.Runs trace (some outcome)) : ¬ e.Refuses source trace := by
  rintro ⟨fault, hm⟩
  have hc : e.awaitReady.run.Confined (e.Acts (· = .chain e.position .blockNumber)) :=
    confined_awaitReady rfl
  cases hc.runs hr _ hm with
  | answered h => cases h

/-- A refusal leaves the flag alone. Otherwise the flag tells how the reset has ended. -/
theorem flag_of_reset {c : Container} (hm : e.role = .managed c) {source : String}
    {outcome : Except NodeFault Unit} {x y : Bool}
    (hr : (e.reset source).run.Runs trace (some outcome)) (hf : trace.Follows e.flag x y) :
    (e.Refuses source trace → outcome.isOk = false ∧ y = x) ∧
      (¬ e.Refuses source trace → y = outcome.isOk) := by
  rcases (runs_reset_some hm).mp hr with ⟨fault, rfl, rfl⟩ | ⟨waiting, hw, rfl⟩
  · refine ⟨fun _ => ⟨rfl, hf⟩, fun hn => (hn ⟨fault, by simp⟩).elim⟩
  · have taken : ¬ e.Refuses source (.sent (.chain e.position (.reset source)) ::
        .answered (.chain e.position (.reset source)) (.ok ()) :: waiting) := by
      rintro ⟨fault, hm⟩
      have hwaiting : e.Refuses source waiting := ⟨fault, by simpa using hm⟩
      exact not_refuses_of_awaitReady hw hwaiting
    exact ⟨fun h => (taken h).elim, fun _ => flag_of_awaitReady hw hf⟩

/-- However the start of a managed endpoint ends, the flag tells it. -/
theorem flag_of_start {c : Container} (hm : e.role = .managed c) {outcome : Except NodeFault Unit}
    {x y : Bool} (hr : e.start.run.Runs trace (some outcome)) (hf : trace.Follows e.flag x y) :
    y = outcome.isOk := by
  unfold start at hr
  rw [hm] at hr
  rcases runs_exceptT_bind_some.mp hr with ⟨fault, hc, rfl⟩ | ⟨⟨⟩, early, late, -, hw, rfl⟩
  · obtain ⟨v, -, ⟨⟩⟩ | ⟨fault', early, late, -, hh, rfl⟩ := runs_tryCatch_some.mp hc
    obtain ⟨z, -, hf⟩ := Trace.follows_append.mp hf
    rcases runs_exceptT_bind_some.mp hh with ⟨_, hk, -⟩ | ⟨⟨⟩, marking, last, hk, ht, rfl⟩
    · obtain ⟨v, -, ⟨⟩⟩ := runs_lift_some.mp hk
    · obtain ⟨u, hmark, -⟩ := runs_lift_some.mp hk
      obtain ⟨m, rfl⟩ := Activity.runs_modify_some.mp hmark
      obtain ⟨rfl, -⟩ := runs_throw_some.mp ht
      have hy : y = e.flag (State.mark e.position false m) := hf.2
      rw [hy, flag_mark]
      rfl
  · obtain ⟨z, -, hf⟩ := Trace.follows_append.mp hf
    exact flag_of_awaitReady hw hf

end Endpoint

end ChainWatch
