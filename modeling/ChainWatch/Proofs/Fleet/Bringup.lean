import ChainWatch.Proofs.Concurrency.Alone
import ChainWatch.Proofs.Fleet.Endpoint
import ChainWatch.Rehearsal.Stage
import Mathlib.Data.List.Chain

/-!
# Bringing an endpoint up

The start of a managed endpoint reconciles its container first: it asks the container engine how things
are and changes only what is not as wanted (`Endpoint.Reconciles`). When the engine has not failed, it
polls the node until that answers, a limited number of times (`Endpoint.Polls`). Here is said which
requests a start sends when it runs alone, at which instants, and what comes of it.
-/

namespace ChainWatch

open Concurrency

/-- One request for the height. -/
structure Poll where
  sentAt : Nat
  height : Except NodeFault Nat
  answeredAt : Nat

/-- What the container engine answered when it did not do what it was asked. -/
def Concurrency.Exchange.engineFault? : Exchange system → Option ContainerFault
  | ⟨.container _ _, _, .error fault, _⟩ => some fault
  | _ => none

theorem Concurrency.Exchange.engineFault?_eq_some {position sentAt answeredAt : Nat}
    {r : ContainerRequest} {answer : Except ContainerFault r.Value} {fault : ContainerFault} :
    Exchange.engineFault? ⟨.container position r, sentAt, answer, answeredAt⟩ = some fault ↔
      answer = .error fault := by
  cases answer <;> simp [engineFault?]

/-- The bindings are there and they are those that the container is to have. -/
def Container.Fits (c : Container) (bindings : Option (List PortBinding)) : Prop :=
  ∃ ports, bindings = some ports ∧ PortBinding.toSet ports = PortBinding.toSet c.ports

namespace Endpoint

variable {σ : Type} {h : Handler system σ} {e : Endpoint} {c : Container} {now : Nat}
  {w : World system σ}

def poll (e : Endpoint) (x : Poll) : Exchange system :=
  ⟨.chain e.position .blockNumber, x.sentAt, x.height, x.answeredAt⟩

/-! ## Single questions -/

theorem alone_engine {r : ContainerRequest} {answer : Except ContainerFault r.Value}
    (ha : h.answer (.container e.position r) w.outside = answer) :
    (e.engine r).run.Alone h now w
      [⟨.container e.position r, now, answer, now + h.lag (.container e.position r) w.outside⟩]
      ⟨some (answer.mapError lifecycle), now + h.lag (.container e.position r) w.outside,
        ⟨w.memory, h.after (.container e.position r) w.outside⟩⟩ := by
  subst ha
  exact (Activity.alone_request ..).bind (Activity.alone_pure ..)

/-- The container engine does what it is asked, and the rest follows. -/
theorem alone_engine_bind {α : Type} {r : ContainerRequest} {value : r.Value}
    {f : r.Value → NodeJob α} {log : List (Exchange system)}
    {ending : Ending system σ (Except NodeFault α)}
    (ha : h.answer (.container e.position r) w.outside = .ok value)
    (hf : (f value).run.Alone h (now + h.lag (.container e.position r) w.outside)
      ⟨w.memory, h.after (.container e.position r) w.outside⟩ log ending) :
    (e.engine r >>= f).run.Alone h now w
      (⟨.container e.position r, now, .ok value, now + h.lag (.container e.position r) w.outside⟩ :: log)
      ending :=
  Activity.alone_exceptT_bind (alone_engine ha) hf

theorem alone_engine_bind_error {α : Type} {r : ContainerRequest} {fault : ContainerFault}
    {f : r.Value → NodeJob α} (ha : h.answer (.container e.position r) w.outside = .error fault) :
    (e.engine r >>= f).run.Alone h now w
      [⟨.container e.position r, now, .error fault, now + h.lag (.container e.position r) w.outside⟩]
      ⟨some (.error (lifecycle fault)), now + h.lag (.container e.position r) w.outside,
        ⟨w.memory, h.after (.container e.position r) w.outside⟩⟩ :=
  Activity.alone_exceptT_bind_error (alone_engine ha)

theorem alone_ask {r : ChainRequest} {answer : Except NodeFault r.Value}
    (ha : h.answer (.chain e.position r) w.outside = answer) :
    (e.ask r).run.Alone h now w
      [⟨.chain e.position r, now, answer, now + h.lag (.chain e.position r) w.outside⟩]
      ⟨some answer, now + h.lag (.chain e.position r) w.outside,
        ⟨w.memory.mark e.position answer.isOk, h.after (.chain e.position r) w.outside⟩⟩ := by
  subst ha
  exact (Activity.alone_request ..).bind ((Activity.alone_modify ..).bind (Activity.alone_pure ..))

/-! ## Polling -/

/-- From the instant `begun` on the node was asked for the height until it answered, `limit` times at
most and with an interval between two requests; at the instant `ended` this was over. -/
structure Polls (e : Endpoint) (limit begun : Nat) (polls : List Poll) (ready : Bool) (ended : Nat) :
    Prop where
  begins : polls.head?.map (·.sentAt) = some begun
  spaced : polls.IsChain fun x y => y.sentAt = x.answeredAt + e.settings.readinessInterval
  ends : polls.getLast?.map (·.answeredAt) = some ended
  /-- Only the last request may have been answered. -/
  unanswered : ∀ x ∈ polls.dropLast, x.height.isOk = false
  ready_iff : ready = true ↔ ∃ x ∈ polls, x.height.isOk = true
  bounded : polls.length ≤ limit
  exhausted : ready = false → polls.length = limit

theorem polls_answered (limit sentAt height answeredAt : Nat) :
    e.Polls (limit + 1) sentAt [⟨sentAt, .ok height, answeredAt⟩] true answeredAt where
  begins := rfl
  spaced := .singleton _
  ends := rfl
  unanswered := by simp
  ready_iff := by simp [Except.isOk, Except.toBool]
  bounded := by simp
  exhausted := nofun

theorem polls_last (sentAt : Nat) (fault : NodeFault) (answeredAt : Nat) :
    e.Polls 1 sentAt [⟨sentAt, .error fault, answeredAt⟩] false answeredAt where
  begins := rfl
  spaced := .singleton _
  ends := rfl
  unanswered := by simp
  ready_iff := by simp [Except.isOk, Except.toBool]
  bounded := by simp
  exhausted _ := rfl

theorem Polls.cons {limit ended : Nat} {polls : List Poll} {ready : Bool} (x : Poll)
    (hx : x.height.isOk = false)
    (hp : e.Polls limit (x.answeredAt + e.settings.readinessInterval) polls ready ended) :
    e.Polls (limit + 1) x.sentAt (x :: polls) ready ended := by
  have hne : polls ≠ [] := by
    rintro rfl
    have hb := hp.begins
    simp at hb
  refine ⟨rfl, ?_, ?_, ?_, ?_, ?_, ?_⟩
  · refine List.isChain_cons.mpr ⟨fun y hy => ?_, hp.spaced⟩
    have hb := hp.begins
    rw [hy] at hb
    exact Option.some.inj hb
  · rw [List.getLast?_cons_of_ne_nil hne]
    exact hp.ends
  · rw [List.dropLast_cons_of_ne_nil hne]
    simpa [hx] using hp.unanswered
  · simpa [hx] using hp.ready_iff
  · simpa using hp.bounded
  · simpa using hp.exhausted

theorem exists_alone_answersWithin (h : Handler system σ) (e : Endpoint) (limit now : Nat)
    (w : World system σ) : ∃ polls ready later w',
      (e.answersWithin (limit + 1)).Alone h now w (polls.map e.poll) ⟨some ready, later, w'⟩ ∧
        e.Polls (limit + 1) now polls ready later := by
  cases ha : h.answer (.chain e.position .blockNumber) w.outside with
  | ok height =>
      exact ⟨[⟨now, .ok height, _⟩], true, _, _, (alone_ask ha).bind (Activity.alone_pure ..),
        polls_answered ..⟩
  | error fault =>
      cases limit with
      | zero =>
          exact ⟨[⟨now, .error fault, _⟩], false, _, _, (alone_ask ha).bind (Activity.alone_pure ..),
            polls_last ..⟩
      | succ limit =>
          let x : Poll := ⟨now, .error fault, now + h.lag (.chain e.position .blockNumber) w.outside⟩
          obtain ⟨polls, ready, later, w', hp, hpolls⟩ := exists_alone_answersWithin h e limit
            (x.answeredAt + e.settings.readinessInterval) _
          refine ⟨x :: polls, ready, later, w', ?_, hpolls.cons x rfl⟩
          exact (alone_ask ha).bind ((Activity.alone_sleep ..).bind hp)

/-! ## Reconciling -/

/-- The request to the container engine that is about the container of the endpoint. -/
abbrev engineRequest (e : Endpoint) (r : ContainerRequest) : Request :=
  .container e.position r

/-- What the container engine was asked in order to bring the container up, and what came of it. -/
structure Reconciles (e : Endpoint) (c : Container) (log : List (Exchange system))
    (verdict : Except ContainerFault Unit) : Prop where
  /-- There are four requests, and each of them is sent once at most and in this order. -/
  ordered : (log.map (·.request)).Sublist
    ([.presence c.name, .portsMatch c.name c.ports, .stop c.name, .start c].map e.engineRequest)
  asked : Exchange.Sent log (e.engineRequest (.presence c.name))
  checked_iff : Exchange.Sent log (e.engineRequest (.portsMatch c.name c.ports)) ↔
    Exchange.Got log (e.engineRequest (.presence c.name)) (.ok true)
  stopped_iff : Exchange.Sent log (e.engineRequest (.stop c.name)) ↔
    Exchange.Got log (e.engineRequest (.portsMatch c.name c.ports)) (.ok false)
  started_iff : Exchange.Sent log (e.engineRequest (.start c)) ↔
    Exchange.Got log (e.engineRequest (.presence c.name)) (.ok false) ∨
      Exchange.Got log (e.engineRequest (.stop c.name)) (.ok ())
  /-- The first fault is the verdict, and nothing is asked after it. -/
  failed_iff : ∀ fault, (∃ x ∈ log, x.engineFault? = some fault) ↔ verdict = .error fault
  halted : ∀ x ∈ log.dropLast, x.engineFault? = none

/-- The six ways in which a container is brought up, or not. -/
inductive Reconciling (e : Endpoint) (c : Container) :
    List (Exchange system) → Except ContainerFault Unit → Prop where
  | unknown {s t : Nat} {fault : ContainerFault} :
      Reconciling e c [⟨.container e.position (.presence c.name), s, .error fault, t⟩] (.error fault)
  | absent {s t s' t' : Nat} {answer : Except ContainerFault Unit} :
      Reconciling e c [⟨.container e.position (.presence c.name), s, .ok false, t⟩,
        ⟨.container e.position (.start c), s', answer, t'⟩] answer
  | unchecked {s t s' t' : Nat} {fault : ContainerFault} :
      Reconciling e c [⟨.container e.position (.presence c.name), s, .ok true, t⟩,
        ⟨.container e.position (.portsMatch c.name c.ports), s', .error fault, t'⟩] (.error fault)
  | fitting {s t s' t' : Nat} :
      Reconciling e c [⟨.container e.position (.presence c.name), s, .ok true, t⟩,
        ⟨.container e.position (.portsMatch c.name c.ports), s', .ok true, t'⟩] (.ok ())
  | unstopped {s t s' t' s'' t'' : Nat} {fault : ContainerFault} :
      Reconciling e c [⟨.container e.position (.presence c.name), s, .ok true, t⟩,
        ⟨.container e.position (.portsMatch c.name c.ports), s', .ok false, t'⟩,
        ⟨.container e.position (.stop c.name), s'', .error fault, t''⟩] (.error fault)
  | replaced {s t s' t' s'' t'' u v : Nat} {answer : Except ContainerFault Unit} :
      Reconciling e c [⟨.container e.position (.presence c.name), s, .ok true, t⟩,
        ⟨.container e.position (.portsMatch c.name c.ports), s', .ok false, t'⟩,
        ⟨.container e.position (.stop c.name), s'', .ok (), t''⟩,
        ⟨.container e.position (.start c), u, answer, v⟩] answer

theorem Reconciling.reconciles {log : List (Exchange system)} {verdict : Except ContainerFault Unit}
    (hr : e.Reconciling c log verdict) : e.Reconciles c log verdict := by
  cases hr <;> constructor <;> simp [Exchange.Sent, Exchange.Got, Exchange.engineFault?]
  all_goals exact fun _ => Exchange.engineFault?_eq_some

theorem exists_alone_ensureContainer (h : Handler system σ) (e : Endpoint) (c : Container) (now : Nat)
    (w : World system σ) : ∃ log verdict later outside,
      (e.ensureContainer c).run.Alone h now w log
        ⟨some (verdict.mapError lifecycle), later, ⟨w.memory, outside⟩⟩ ∧
      e.Reconciling c log verdict ∧ log.getLast?.map (·.answeredAt) = some later := by
  cases hpresence : h.answer (.container e.position (.presence c.name)) w.outside with
  | error fault =>
      exact ⟨_, .error fault, _, _, alone_engine_bind_error hpresence, .unknown, rfl⟩
  | ok present =>
  cases present with
  | false =>
      exact ⟨_, _, _, _, alone_engine_bind hpresence (alone_engine rfl), .absent, rfl⟩
  | true =>
  let checked := h.after (.container e.position (.presence c.name)) w.outside
  cases hports : h.answer (.container e.position (.portsMatch c.name c.ports)) checked with
  | error fault =>
      exact ⟨_, .error fault, _, _,
        alone_engine_bind hpresence (alone_engine_bind_error hports), .unchecked, rfl⟩
  | ok fitting =>
  cases fitting with
  | true =>
      exact ⟨_, .ok (), _, _,
        alone_engine_bind hpresence (alone_engine_bind hports (Activity.alone_pure ..)), .fitting, rfl⟩
  | false =>
  let stopped := h.after (.container e.position (.portsMatch c.name c.ports)) checked
  cases hstop : h.answer (.container e.position (.stop c.name)) stopped with
  | error fault =>
      exact ⟨_, .error fault, _, _, alone_engine_bind hpresence
        (alone_engine_bind hports (alone_engine_bind_error hstop)), .unstopped, rfl⟩
  | ok done =>
      exact ⟨_, _, _, _, alone_engine_bind hpresence
        (alone_engine_bind hports (alone_engine_bind hstop (alone_engine rfl))), .replaced, rfl⟩

/-! ## Starting -/

theorem exists_alone_awaitReady (h : Handler system σ) (e : Endpoint) (now : Nat)
    (w : World system σ) : ∃ polls ready later w',
      e.awaitReady.run.Alone h now w (polls.map e.poll) ⟨some (if ready then .ok () else
        .error (.notReady (max 1 e.settings.readinessAttempts))), later, w'⟩ ∧
      e.Polls (max 1 e.settings.readinessAttempts) now polls ready later := by
  obtain ⟨limit, hlimit⟩ : ∃ limit, max 1 e.settings.readinessAttempts = limit + 1 :=
    ⟨max 1 e.settings.readinessAttempts - 1, by omega⟩
  obtain ⟨polls, ready, later, w', hp, hpolls⟩ := exists_alone_answersWithin h e limit now w
  refine ⟨polls, ready, later, w', ?_, hlimit ▸ hpolls⟩
  unfold awaitReady
  dsimp only
  rw [hlimit, ← List.append_nil (polls.map e.poll)]
  apply Activity.alone_exceptT_bind (Activity.alone_lift hp)
  cases ready with
  | true => exact Activity.alone_pure ..
  | false => exact Activity.alone_pure ..

/-- What the polls and the outcome of a start are, given what came of the reconciliation. -/
structure BringsUp (e : Endpoint) (reconciling : List (Exchange system))
    (verdict : Except ContainerFault Unit) (polls : List Poll) (outcome : Except NodeFault Unit)
    (later : Nat) : Prop where
  failed : ∀ fault, verdict = .error fault → polls = [] ∧ outcome = .error (lifecycle fault)
  polled : verdict = .ok () → ∃ begun ready,
    reconciling.getLast?.map (·.answeredAt) = some begun ∧
      e.Polls (max 1 e.settings.readinessAttempts) begun polls ready later ∧
      outcome = if ready then .ok () else .error (.notReady (max 1 e.settings.readinessAttempts))

theorem exists_alone_start (hm : e.role = .managed c) (h : Handler system σ) (now : Nat)
    (w : World system σ) : ∃ reconciling verdict polls outcome later w',
      e.start.run.Alone h now w (reconciling ++ polls.map e.poll) ⟨some outcome, later, w'⟩ ∧
        e.Reconciling c reconciling verdict ∧
        e.BringsUp reconciling verdict polls outcome later := by
  obtain ⟨reconciling, verdict, begun, outside, hc, hr, hlast⟩ :=
    exists_alone_ensureContainer h e c now w
  unfold start
  rw [hm]
  dsimp only
  cases verdict with
  | error fault =>
      refine ⟨reconciling, .error fault, [], .error (lifecycle fault), begun,
        ⟨w.memory.mark e.position false, outside⟩, ?_, hr, ?_⟩
      · apply Activity.alone_exceptT_bind_error
        apply Activity.alone_tryCatch_error hc
        exact Activity.alone_exceptT_bind (Activity.alone_lift (Activity.alone_modify ..))
          (Activity.alone_pure ..)
      · exact ⟨fun fault' hf => by cases hf; exact ⟨rfl, rfl⟩, nofun⟩
  | ok done =>
      obtain ⟨polls, ready, later, w', hp, hpolls⟩ :=
        exists_alone_awaitReady h e begun ⟨w.memory, outside⟩
      refine ⟨reconciling, .ok done, polls, _, later, w',
        Activity.alone_exceptT_bind (Activity.alone_tryCatch_ok hc) hp, hr, nofun, ?_⟩
      intro _
      exact ⟨begun, ready, hlast, hpolls, rfl⟩

/-- When an endpoint has been started, its flag tells how the start has ended. -/
theorem flag_of_alone_start (hm : e.role = .managed c) {log : List (Exchange system)}
    {outcome : Except NodeFault Unit} {later : Nat} {w' : World system σ}
    (hs : e.start.run.Alone h now w log ⟨some outcome, later, w'⟩) :
    e.flag w'.memory = outcome.isOk := by
  obtain ⟨trace, hr, hl, -⟩ := hs.exists_trace
  exact flag_of_start hm hr (hl.1.through e.flag)

/-! ## Faithful engines -/

/-- The container engine says how things are, and a start that it reports as done is done. In the
outside state `s` the container has the bindings `bindings s`, or it does not exist. What a stop leaves
need not be said, since a start follows. -/
structure Faithful (h : Handler system σ) (e : Endpoint) (c : Container)
    (bindings : σ → Option (List PortBinding)) : Prop where
  presence {s : σ} {present : Bool}
    (ha : h.answer (e.engineRequest (.presence c.name)) s = .ok present) :
    present = (bindings s).isSome
  ports {s : σ} {fitting : Bool} (hs : (bindings s).isSome)
    (ha : h.answer (e.engineRequest (.portsMatch c.name c.ports)) s = .ok fitting) :
    fitting = true ↔ c.Fits (bindings s)
  started {s : σ} (ha : h.answer (e.engineRequest (.start c)) s = .ok ()) :
    c.Fits (bindings (h.after (e.engineRequest (.start c)) s))
  /-- To ask changes nothing. -/
  presence_kept (s : σ) : bindings (h.after (e.engineRequest (.presence c.name)) s) = bindings s
  ports_kept (s : σ) :
    bindings (h.after (e.engineRequest (.portsMatch c.name c.ports)) s) = bindings s
  polls_kept (s : σ) : bindings (h.after (.chain e.position .blockNumber) s) = bindings s

variable {bindings : σ → Option (List PortBinding)} {log : List (Exchange system)}
  {verdict : Except ContainerFault Unit} {s s' : σ}

/-- When the container was brought up, it has the right bindings. -/
theorem Faithful.fits_of_reconciling (hf : Faithful h e c bindings)
    (hr : e.Reconciling c log (.ok ())) (hs : (Exchange.trace log).Served h s s') :
    c.Fits (bindings s') := by
  cases hr with
  | absent =>
      obtain ⟨-, hstart, rfl⟩ := hs
      exact hf.started hstart
  | fitting =>
      obtain ⟨hpresence, hports, rfl⟩ := hs
      have present := (hf.presence hpresence).symm
      rw [← hf.presence_kept] at present
      have fits := (hf.ports present hports).mp rfl
      rwa [← hf.ports_kept] at fits
  | replaced =>
      obtain ⟨-, -, -, hstart, rfl⟩ := hs
      exact hf.started hstart

theorem Faithful.not_sent_of_fits (hf : Faithful h e c bindings) (hr : e.Reconciling c log verdict)
    (hs : (Exchange.trace log).Served h s s') (fits : c.Fits (bindings s)) :
    ¬ Exchange.Sent log (e.engineRequest (.stop c.name)) ∧
      ¬ Exchange.Sent log (e.engineRequest (.start c)) := by
  have present {answer : Bool} (ha : h.answer (e.engineRequest (.presence c.name)) s = .ok answer) :
      answer = true := by
    obtain ⟨ports, hports, -⟩ := fits
    rw [hf.presence ha, hports]
    rfl
  have fitting {answer : Bool} (ha : h.answer (e.engineRequest (.portsMatch c.name c.ports))
      (h.after (e.engineRequest (.presence c.name)) s) = .ok answer) : answer = true := by
    obtain ⟨ports, hports, -⟩ := id fits
    rw [hf.ports (by rw [hf.presence_kept, hports]; rfl) ha, hf.presence_kept]
    exact fits
  cases hr with
  | unknown => simp [Exchange.Sent]
  | absent => cases present hs.1
  | unchecked => simp [Exchange.Sent]
  | fitting => simp [Exchange.Sent]
  | unstopped => cases fitting hs.2.1
  | replaced => cases fitting hs.2.1

theorem Faithful.polls_keep (hf : Faithful h e c bindings) {polls : List Poll}
    (hs : (Exchange.trace (polls.map e.poll)).Served h s s') : bindings s' = bindings s := by
  induction polls generalizing s with
  | nil =>
      obtain rfl : s' = s := hs
      rfl
  | cons x polls ih => rw [ih hs.2, ← hf.polls_kept s]; rfl

/-- Where the reconciliation of a start ended and its polls began. -/
theorem exists_stages_of_start (hm : e.role = .managed c)
    {ending : Ending system σ (Except NodeFault Unit)}
    (hs : e.start.run.Alone h now w log ending) :
    ∃ reconciling verdict outcome s, ∃ polls : List Poll, log = reconciling ++ polls.map e.poll ∧
      e.Reconciling c reconciling verdict ∧
      ending.value? = some outcome ∧ (outcome = .ok () → verdict = .ok ()) ∧
      (Exchange.trace reconciling).Served h w.outside s ∧
      (Exchange.trace (polls.map e.poll)).Served h s ending.world.outside := by
  obtain ⟨reconciling, verdict, polls, outcome, later, w', halone, hr, hb⟩ :=
    exists_alone_start hm h now w
  obtain ⟨rfl, rfl⟩ := halone.unique hs
  have served := halone.served
  rw [Exchange.trace, List.flatMap_append, Trace.served_append] at served
  obtain ⟨s, hearly, hlate⟩ := served
  refine ⟨reconciling, verdict, outcome, s, polls, rfl, hr, rfl, ?_, hearly, hlate⟩
  rintro rfl
  cases verdict with
  | ok done => rfl
  | error fault => cases (hb.failed fault rfl).2

theorem not_sent_append_polls {r : ContainerRequest} {polls : List Poll}
    (hr : ¬ Exchange.Sent log (e.engineRequest r)) :
    ¬ Exchange.Sent (log ++ polls.map e.poll) (e.engineRequest r) := by
  rintro ⟨x, hx, hxr⟩
  rcases List.mem_append.mp hx with hx | hx
  · exact hr ⟨x, hx, hxr⟩
  · obtain ⟨y, -, rfl⟩ := List.mem_map.mp hx
    cases hxr

/-- A start that went well leaves the container with the right bindings, and so a second one neither
stops nor starts it. -/
theorem Faithful.start_again (hf : Faithful h e c bindings) (hm : e.role = .managed c) {later : Nat}
    {w' : World system σ} (hs : e.start.run.Alone h now w log ⟨some (.ok ()), later, w'⟩) :
    c.Fits (bindings w'.outside) ∧
      ∀ again log' ending, e.start.run.Alone h again w' log' ending →
        ¬ Exchange.Sent log' (e.engineRequest (.stop c.name)) ∧
          ¬ Exchange.Sent log' (e.engineRequest (.start c)) := by
  have fits : c.Fits (bindings w'.outside) := by
    obtain ⟨reconciling, verdict, outcome, s, polls, -, hr, ho, hv, hearly, hlate⟩ :=
      exists_stages_of_start hm hs
    cases ho
    rw [hv rfl] at hr
    have hfits := hf.fits_of_reconciling hr hearly
    rwa [← hf.polls_keep hlate] at hfits
  refine ⟨fits, fun again log' ending hagain => ?_⟩
  obtain ⟨reconciling, verdict, outcome, s, polls, rfl, hr, -, -, hearly, -⟩ :=
    exists_stages_of_start hm hagain
  obtain ⟨hstop, hstart⟩ := hf.not_sent_of_fits hr hearly fits
  exact ⟨not_sent_append_polls hstop, not_sent_append_polls hstart⟩

/-- The start of a managed endpoint ends, whatever the container engine and the node do. It asks the
engine for what is missing, and when the engine has done all of it, it polls the node; the outcome and
the flag tell whether the node has answered. With a faithful engine there is nothing left to change for
a second start. -/
theorem start_reconciles_and_polls (e : Endpoint) (c : Container) (hm : e.role = .managed c)
    (h : Handler system σ) (now : Nat) (w : World system σ) :
    ∃ reconciling verdict polls outcome later w',
      e.start.run.Alone h now w (reconciling ++ polls.map e.poll) ⟨some outcome, later, w'⟩ ∧
      e.start.run.run h now w = ⟨some outcome, later, w'⟩ ∧
      e.Reconciles c reconciling verdict ∧ e.BringsUp reconciling verdict polls outcome later ∧
      e.flag w'.memory = outcome.isOk ∧
      ∀ bindings : σ → Option (List PortBinding), Faithful h e c bindings → outcome = .ok () →
        c.Fits (bindings w'.outside) ∧
          ∀ again log' ending, e.start.run.Alone h again w' log' ending →
            ¬ Exchange.Sent log' (e.engineRequest (.stop c.name)) ∧
              ¬ Exchange.Sent log' (e.engineRequest (.start c)) := by
  obtain ⟨reconciling, verdict, polls, outcome, later, w', halone, hr, hb⟩ :=
    exists_alone_start hm h now w
  refine ⟨reconciling, verdict, polls, outcome, later, w', halone, halone.run_eq, hr.reconciles, hb,
    flag_of_alone_start hm halone, ?_⟩
  rintro bindings hf rfl
  exact hf.start_again hm halone

open Rehearsal

/-- A container with one published port. -/
def kept : Container :=
  ⟨"keeper", "image", [⟨18545, 8545⟩], []⟩

/-- A managed endpoint that is polled twice at most. -/
def keeper : Endpoint :=
  ⟨0, "keeper", .managed kept, ⟨2, 5, 0⟩⟩

/-- The container of the endpoint exists, but it has other bindings; and the node will fail one read. -/
def misbound : World system Stage :=
  ⟨⟨[0], "", .complete, .empty⟩,
    ⟨[{ Node.fresh with present := true, portsMatch := false, deaf := 1 }], [], false, .absent⟩⟩

/-- The bindings of the container of the first node. -/
def stageBindings (stage : Stage) : Option (List PortBinding) :=
  stage.nodes[0]?.bind fun node =>
    if node.present then some (if node.portsMatch then kept.ports else []) else none

theorem faithful_stage : Faithful Stage.handler keeper kept stageBindings := by
  have mismatched : PortBinding.toSet [] ≠ PortBinding.toSet kept.ports := by decide
  constructor
  all_goals
    rintro ⟨nodes, signals, fails, queue⟩
    cases nodes with
    | nil =>
        simp [Handler.answer, Handler.after, Settlement.answer, Stage.handler, Stage.submit,
          Stage.settle, Stage.atNode, stageBindings, keeper]
    | cons node nodes =>
        simp [Handler.answer, Handler.after, Settlement.answer, Stage.handler, Stage.submit,
          Stage.settle, Stage.atNode, Node.manage, Node.obey, Node.engineFault?, Node.submit,
          Node.decide, stageBindings, keeper, Container.Fits]
        grind

/-- The container is replaced, the second poll succeeds an interval after the first one, and a second
start leaves the container alone. -/
theorem start_reconciles_and_polls_keeper : ∃ w',
    keeper.start.run.Alone Stage.handler 0 misbound
      [⟨keeper.engineRequest (.presence "keeper"), 0, .ok true, 0⟩,
        ⟨keeper.engineRequest (.portsMatch "keeper" kept.ports), 0, .ok false, 0⟩,
        ⟨keeper.engineRequest (.stop "keeper"), 0, .ok (), 0⟩,
        ⟨keeper.engineRequest (.start kept), 0, .ok (), 0⟩,
        keeper.poll ⟨0, .error (.transport "not listening yet"), 0⟩, keeper.poll ⟨5, .ok 0, 5⟩]
      ⟨some (.ok ()), 5, w'⟩ ∧
    keeper.flag w'.memory = true ∧ kept.Fits (stageBindings w'.outside) ∧
    ∀ again log ending, keeper.start.run.Alone Stage.handler again w' log ending →
      ¬ Exchange.Sent log (keeper.engineRequest (.stop "keeper")) ∧
        ¬ Exchange.Sent log (keeper.engineRequest (.start kept)) := by
  obtain ⟨_, _, _, outcome, later, w', halone, -, -, -, hflag, hagain⟩ :=
    start_reconciles_and_polls keeper kept rfl Stage.handler 0 misbound
  have ran : ∃ final, keeper.start.run.Alone Stage.handler 0 misbound _ ⟨some (.ok ()), 5, final⟩ :=
    ⟨_, .perform (.perform (.perform (.perform (.perform (.touch
      (.pause (.perform (.touch (.done ..)))))))))⟩
  obtain ⟨final, hran⟩ := ran
  obtain ⟨hlog, hending⟩ := halone.unique hran
  cases hending
  exact ⟨w', hran, hflag, hagain stageBindings faithful_stage rfl⟩

end Endpoint

end ChainWatch
