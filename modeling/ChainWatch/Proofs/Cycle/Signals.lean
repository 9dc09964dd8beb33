import ChainWatch.Proofs.Cycle.Delivery

/-!
# Signals and those who take them

Whoever takes the signals, and whatever becomes of them: a sequence of cycles does the same as if it told
nobody anything. Two calculi describe this side by side, for work that sends no signals (`Comes`) and for
work that may send some to any sink whatever (`Tells`). What a cycle tells is read off what its health
pass found and left.
-/

namespace ChainWatch

open Concurrency

/-! ## Sinks -/

/-- The signal that a request delivers. -/
def Request.signal? : Request → Option Signal
  | .deliver signal => some signal
  | _ => none

theorem Request.IsService.signal?_eq_none {r : Request} (h : r.IsService) : r.signal? = none := by
  cases r with
  | deliver => exact h.elim
  | _ => rfl

/-- What a sink is asked. -/
abbrev signalling : Interface where
  Memory := Unit
  Request := Signal
  Answer _ := Except SignalFault Unit

/-- An outside that takes no signals, a sink beside it, and the signals that the sink was offered. -/
structure Observed (σ τ : Type) where
  outside : σ
  sink : τ
  offered : List Signal

/-- An outside, and what it was asked. -/
structure Recorded (σ : Type) where
  outside : σ
  requests : List Request

section Sinks

variable {σ τ : Type}

/-- Signals go to the sink, and all other requests to the outside. -/
def Concurrency.Handler.observed (h : Handler system σ) (sink : Handler signalling τ) :
    Handler system (Observed σ τ) where
  submit
    | .deliver signal, s =>
      let (span, t) := sink.submit signal s.sink
      (span, { s with sink := t, offered := s.offered ++ [signal] })
    | r, s =>
      let (span, outside) := h.submit r s.outside
      (span, { s with outside })
  settle
    | .deliver signal, s =>
      let (answer, t) := sink.settle signal s.sink
      (answer, { s with sink := t })
    | r, s =>
      let (answer, outside) := h.settle r s.outside
      (answer, { s with outside })

/-- The outside keeps a record of what it is asked. -/
def Concurrency.Handler.recorded (h : Handler system σ) : Handler system (Recorded σ) where
  submit r s :=
    let (span, outside) := h.submit r s.outside
    (span, ⟨outside, s.requests ++ [r]⟩)
  settle r s :=
    let (answer, outside) := h.settle r s.outside
    (answer, { s with outside })

/-- The world with a sink beside it that was offered these signals. -/
def Concurrency.World.beside (w : World system σ) (t : τ) (offered : List Signal) :
    World system (Observed σ τ) :=
  w.map fun s => ⟨s, t, offered⟩

theorem mirrors_observed (h : Handler system σ) (sink : Handler signalling τ) (t : τ)
    (offered : List Signal) :
    h.Mirrors (h.observed sink) (fun r => r.signal? = none) fun s => ⟨s, t, offered⟩ where
  submit r s hr := by
    cases r with
    | deliver signal => cases hr
    | _ => rfl
  settle r s hr := by
    cases r with
    | deliver signal => cases hr
    | _ => rfl

end Sinks

/-- The signal without the time that it reports. -/
def Signal.untimed : Signal → Signal
  | .cycleCompleted _ => .cycleCompleted 0
  | signal => signal

/-! ## Two calculi -/

section Calculi

variable {σ α β : Type} {h : Handler system σ} {p : Job α} {f : α → Job β} {w w' w'' : World system σ}
  {asks : Request → Prop}

/-- Whenever the job begins in this world, it comes to the value and leaves the world so. -/
def Comes (h : Handler system σ) (p : Job α) (w : World system σ) (value : α)
    (w' : World system σ) : Prop :=
  ∀ now, ∃ due, p.run h now w = ⟨some value, due, w'⟩

theorem comes_pure (value : α) : Comes h (pure value) w value w := fun now =>
  ⟨now, Activity.run_done h now value w⟩

theorem comes_memory : Comes h Activity.memory w w.memory w := fun now =>
  ⟨now, (Activity.run_touch ..).trans (Activity.run_done ..)⟩

theorem Comes.bind {value : α} {value' : β} (hp : Comes h p w value w')
    (hf : Comes h (f value) w' value' w'') : Comes h (p >>= f) w value' w'' := by
  intro now
  obtain ⟨due, hrun⟩ := hp now
  rw [Activity.run_bind_of_value (congrArg Ending.value? hrun), hrun]
  exact hf due

theorem comes_of_timeless {value : α} (hp : p.Timeless asks)
    (hv : (p.run h 0 w).value? = some value) : Comes h p w value (p.run h 0 w).world := by
  intro now
  have hrun : p.run h now w = (p.run h 0 w).map now id := hp.run_eq (.refl h asks) now w
  rw [hrun, Ending.map, hv]
  exact ⟨_, rfl⟩

/-- Whenever the job begins in this world, and whatever sink is beside it: it comes to such a value,
leaves the world so, and has offered these signals to the sink, up to the times they report. -/
def Tells (h : Handler system σ) (p : Job α) (w : World system σ) (P : α → Prop)
    (w' : World system σ) (said : List Signal) : Prop :=
  ∀ ⦃τ : Type⦄ (sink : Handler signalling τ) (now : Nat) (t : τ) (earlier : List Signal),
    ∃ value due t' offered, P value ∧ offered.map Signal.untimed = said ∧
      p.run (h.observed sink) now (w.beside t earlier) =
        ⟨some value, due, w'.beside t' (earlier ++ offered)⟩

variable {P : α → Prop} {Q : β → Prop} {said said' : List Signal}

theorem tells_pure {value : α} (hv : P value) : Tells h (pure value) w P w [] := by
  intro τ sink now t earlier
  refine ⟨value, now, t, [], hv, rfl, ?_⟩
  rw [List.append_nil]
  exact Activity.run_done ..

/-- What the clock shows depends on what the sink has taken so far. -/
theorem tells_clock : Tells h Activity.clock w (fun _ => True) w [] := by
  intro τ sink now t earlier
  refine ⟨now, now, t, [], trivial, rfl, ?_⟩
  rw [List.append_nil]
  exact (Activity.run_touch ..).trans (Activity.run_done ..)

theorem Tells.bind (hp : Tells h p w P w' said)
    (hf : ∀ value, P value → Tells h (f value) w' Q w'' said') :
    Tells h (p >>= f) w Q w'' (said ++ said') := by
  intro τ sink now t earlier
  obtain ⟨value, due, t', offered, hv, rfl, hrun⟩ := hp sink now t earlier
  obtain ⟨value', due', t'', offered', hv', rfl, hrun'⟩ :=
    hf value hv sink due t' (earlier ++ offered)
  refine ⟨value', due', t'', offered ++ offered', hv', List.map_append, ?_⟩
  rw [Activity.run_bind_of_value (congrArg Ending.value? hrun), hrun, ← List.append_assoc]
  exact hrun'

theorem Tells.after (hp : Tells h p w P w' [])
    (hf : ∀ value, P value → Tells h (f value) w' Q w'' said) : Tells h (p >>= f) w Q w'' said :=
  hp.bind hf

theorem Tells.value {g : α → β} (hp : Tells h p w P w' said) (hg : ∀ value, P value → Q (g value)) :
    Tells h (p >>= fun value => pure (g value)) w Q w' said := by
  rw [← List.append_nil said]
  exact hp.bind fun value hv => tells_pure (hg value hv)

/-- Work that sends no signals does what it does without a sink. -/
theorem tells_of_timeless {value : α} (hp : p.Timeless asks) (ha : ∀ r, asks r → r.signal? = none)
    (hv : (p.run h 0 w).value? = some value) :
    Tells h p w (· = value) (p.run h 0 w).world [] := by
  intro τ sink now t earlier
  have hrun : p.run (h.observed sink) now (w.beside t earlier) = _ :=
    hp.run_eq ((mirrors_observed h sink t earlier).mono ha) now w
  refine ⟨value, (p.run h 0 w).time + now, t, [], rfl, rfl, ?_⟩
  rw [hrun, Ending.map, hv, List.append_nil]
  rfl

theorem exists_comes (he : Ends p) (hp : p.Timeless asks) (ha : ∀ r, asks r → r.signal? = none)
    (hs : w.memory.start ≠ .running) :
    ∃ value w', Comes h p w value w' ∧ Tells h p w (· = value) w' [] ∧
      w'.memory.start ≠ .running := by
  obtain ⟨⟨value, hv⟩, hs'⟩ := he h 0 w hs
  exact ⟨value, _, comes_of_timeless hp hv, tells_of_timeless hp ha hv, hs'⟩

namespace Cycle

theorem tells_emit (signal : Signal) :
    Tells h (emit signal) w (fun _ => True) w [signal.untimed] := by
  intro τ sink now t earlier
  have hrun := Activity.run_request (h.observed sink) now (.deliver signal) (w.beside t earlier)
  have hemit : (emit signal).run (h.observed sink) now (w.beside t earlier) = _ :=
    Activity.run_bind_of_value (congrArg Ending.value? hrun)
  rw [hemit, hrun]
  exact ⟨(), _, _, [signal], trivial, rfl, Activity.run_done ..⟩

theorem tells_start {fleet : Fleet} {outcome : Except NoneRecovered HealthReport}
    (checked : Tells h fleet.recoverAll w (· = outcome) w' []) :
    Tells h (start fleet) w (fun _ => True) w' (.heartbeat .start :: Cycle.alarm outcome) := by
  refine tells_clock.after fun started _ => (tells_emit (.heartbeat .start)).bind fun _ _ =>
    checked.after fun found hfound => ?_
  subst hfound
  cases found with
  | ok report => exact tells_pure trivial
  | error fault => exact (tells_emit (.criticalFailure fault.message)).value fun _ _ => trivial

theorem tells_finish (started : Nat) : Tells h (finish started) w (fun _ => True) w
    [.cycleCompleted 0, .heartbeat .finish] :=
  tells_clock.after fun now _ => (tells_emit (.cycleCompleted (now - started))).bind fun _ _ =>
    tells_emit (.heartbeat .finish)

theorem timeless_submit (txs : List OutboundTransaction) :
    (submit txs).Timeless fun r : Request => ∃ tx, r = .enqueue tx := by
  induction txs with
  | nil => exact Activity.timeless_pure []
  | cons tx txs ih =>
      have asks : (Activity.request (I := system) (.enqueue tx)).Timeless
          fun r : Request => ∃ tx, r = .enqueue tx := Activity.timeless_request ⟨tx, rfl⟩
      exact asks.bind fun _ => ih.bind fun _ => Activity.timeless_pure _

end Cycle

end Calculi

/-! ## Cycles without signals -/

namespace Cycle

/-- A cycle as it went: the memory that its health pass found and the one that it left, and the report
on its rules. -/
structure Record where
  before : State
  after : State
  report : CycleReport

/-- A cycle that tells nobody anything. -/
def untold (fleet : Fleet) (engine : RuleEngine) : Job Record := do
  let before ← Activity.memory (I := system)
  let _ ← fleet.recoverAll
  let after ← Activity.memory (I := system)
  let report ← engine.evaluateAndCollect.2
  let _ ← submit report.transactions
  return ⟨before, after, report⟩

namespace Record

/-- The health pass found endpoints that were down, and brought none of them back. -/
def Lost (fleet : Fleet) (r : Record) : Prop :=
  fleet.down r.before ≠ [] ∧ ∀ e ∈ fleet.down r.before, r.after.isHealthy e.position = false

instance (fleet : Fleet) (r : Record) : Decidable (r.Lost fleet) :=
  inferInstanceAs (Decidable (_ ∧ _))

/-- The signals of the cycle, without times. -/
def signals (fleet : Fleet) (r : Record) : List Signal :=
  .heartbeat .start ::
    (if r.Lost fleet then
      [.criticalFailure (NoneRecovered.mk ((fleet.down r.before).map (·.name))).message]
    else []) ++ [.cycleCompleted 0, .heartbeat .finish]

end Record

/-- A health pass calls for an alarm exactly if somebody was down and nobody was brought back. -/
theorem Record.signals_eq {σ : Type} {h : Handler system σ} {w w' : World system σ} {fleet : Fleet}
    {outcome : Except NoneRecovered HealthReport} (hc : Comes h fleet.recoverAll w outcome w')
    (report : CycleReport) :
    (Record.mk w.memory w'.memory report).signals fleet =
      .heartbeat .start :: alarm outcome ++ [.cycleCompleted 0, .heartbeat .finish] := by
  obtain ⟨due, hrun⟩ := hc 0
  obtain ⟨trace, hr, hl⟩ := Activity.exists_trace_of_run h 0 fleet.recoverAll w
  rw [hrun] at hr hl
  obtain ⟨own, came, -, hback, -, rfl⟩ := Fleet.exists_tries_of_recoverAll hr hl.1
  have lost : (Record.mk w.memory w'.memory report).Lost fleet ↔
      fleet.down w.memory ≠ [] ∧ ∀ e ∈ fleet.down w.memory, (came e).isOk = false :=
    and_congr_right fun _ => forall₂_congr fun e he => by rw [← hback e he]
  rw [Record.signals, HealthReport.ofAttempts_map _ fun e => (came e).isOk]
  simp only [lost]
  split <;> rfl

end Cycle

/-! ## Sequences of cycles -/

namespace Config

/-- Run cycles one after the other, each with the rules of its own configuration. -/
def runCycles (context : RuleContext) : List Config → Job (List CycleReport)
  | [] => return []
  | config :: rest => do
    let report ← config.runCycle context
    let others ← runCycles context rest
    return report :: others

/-- The same cycles, when they tell nobody anything. -/
def untoldCycles (context : RuleContext) : List Config → Job (List Cycle.Record)
  | [] => return []
  | config :: rest => do
    let record ← Cycle.untold context.fleet (config.engineIn context)
    let others ← untoldCycles context rest
    return record :: others

section Sequences

variable {σ : Type} (context : RuleContext) (h : Handler system σ)

/-- A cycle does what it does without signals, and tells how its health pass went. -/
theorem exists_record (config : Config) (w : World system σ) (hs : w.memory.start ≠ .running) :
    ∃ r w', Comes h (Cycle.untold context.fleet (config.engineIn context)) w r w' ∧
      Tells h (config.runCycle context) w (· = r.report) w' (r.signals context.fleet) ∧
      w'.memory.start ≠ .running := by
  have suits := config.suits_engineIn context
  have serves (r : Request) : r.IsService → r.signal? = none := Request.IsService.signal?_eq_none
  have enqueues (r : Request) : (∃ tx, r = .enqueue tx) → r.signal? = none := by
    rintro ⟨tx, rfl⟩
    rfl
  -- The parts that do the work, each run from the world that the one before it has left.
  obtain ⟨outcome, w₁, checks, checked, hs₁⟩ := exists_comes (h := h) (ends_recoverAll context.fleet)
    context.fleet.timeless_recoverAll serves hs
  obtain ⟨report, w₂, evaluates, evaluated, hs₂⟩ := exists_comes (h := h) (ends_evaluateAll suits)
    (Rule.uses_evaluateAll suits).timeless serves hs₁
  obtain ⟨verdicts, w₃, submits, submitted, hs₃⟩ := exists_comes (h := h)
    (Cycle.ends_submit report.transactions) (Cycle.timeless_submit _) enqueues hs₂
  refine ⟨⟨w.memory, w₁.memory, report⟩, w₃, ?_, ?_, hs₃⟩
  · exact comes_memory.bind (checks.bind (comes_memory.bind (evaluates.bind
      (submits.bind (comes_pure _)))))
  · rw [Cycle.Record.signals_eq checks]
    refine (Cycle.tells_start checked).bind fun started _ => evaluated.after fun found hfound => ?_
    subst hfound
    exact submitted.after fun _ _ => (Cycle.tells_finish started).value fun _ _ => rfl

theorem exists_records (configs : List Config) (w : World system σ)
    (hs : w.memory.start ≠ .running) :
    ∃ records w', records.length = configs.length ∧
      Comes h (untoldCycles context configs) w records w' ∧
      Tells h (runCycles context configs) w (· = records.map (·.report)) w'
        (records.flatMap (Cycle.Record.signals context.fleet)) := by
  induction configs generalizing w with
  | nil => exact ⟨[], w, rfl, comes_pure [], tells_pure rfl⟩
  | cons config configs ih =>
      obtain ⟨r, w₁, hcomes, htells, hs₁⟩ := exists_record context h config w hs
      obtain ⟨records, w₂, hlength, hcomes', htells'⟩ := ih w₁ hs₁
      refine ⟨r :: records, w₂, congrArg (· + 1) hlength,
        hcomes.bind (hcomes'.bind (comes_pure _)), ?_⟩
      rw [List.flatMap_cons]
      refine htells.bind fun report hreport => htells'.value fun others hothers => ?_
      rw [hreport, hothers]
      rfl

/-- Whatever the sink is and whenever the cycles begin: they come to the same reports, leave the same
memory with the same health flags and the same outside with its queue, and have asked the same of it, as
if they told nobody anything. Up to the times that are reported, all sinks are offered the same signals:
for each cycle its beginning, an alarm exactly if its health pass found endpoints that were down and
brought back none of them, its completion, and its end. -/
theorem runCycles_unmoved_by_sink (configs : List Config) (w : World system σ)
    (hs : w.memory.start ≠ .running) :
    ∃ (records : List Cycle.Record) (w' : World system (Recorded σ)),
      records.length = configs.length ∧
      Comes h.recorded (untoldCycles context configs) (w.map (Recorded.mk · [])) records w' ∧
      ∀ {τ : Type} (sink : Handler signalling τ) (now : Nat) (t : τ), ∃ due t' offered,
        (runCycles context configs).run (h.recorded.observed sink) now
            ((w.map (Recorded.mk · [])).beside t []) =
          ⟨some (records.map (·.report)), due, w'.beside t' offered⟩ ∧
        offered.map Signal.untimed = records.flatMap (Cycle.Record.signals context.fleet) := by
  obtain ⟨records, w', hlength, hcomes, htells⟩ :=
    exists_records context h.recorded configs (w.map (Recorded.mk · [])) hs
  refine ⟨records, w', hlength, hcomes, fun sink now t => ?_⟩
  obtain ⟨reports, due, t', offered, rfl, hsaid, hrun⟩ := htells sink now t []
  exact ⟨due, t', offered, hrun, hsaid⟩

end Sequences

end Config

/-! ## Two sinks -/

namespace Setback

/-- A sink that takes everything at once. -/
def keen : Handler signalling Unit where
  submit _ _ := (0, ())
  settle _ _ := (.now (.ok ()), ())

/-- A sink that refuses everything after a while. -/
def sulking : Handler signalling Unit where
  submit _ _ := (7, ())
  settle _ _ := (.now (.error .exchange), ())

/-- A cycle whose reads find that the node answers, and then one without rules. -/
def configs : List Config := [config, .ofNodes []]

def outside : Handler system (Recorded Unit) :=
  (Handler.ofReplies (fun _ => 0) selective).recorded

def opening : World system (Recorded Unit) := flagged.map (Recorded.mk · [])

def heard : List Signal :=
  [.heartbeat .start, .criticalFailure "nodes are down, none recovered (1 attempted: first)",
    .cycleCompleted 0, .heartbeat .finish, .heartbeat .start, .cycleCompleted 0, .heartbeat .finish]

set_option maxRecDepth 8000 in
theorem sinks_hear_alike : ∃ (reports : List CycleReport) (w' : World system (Recorded Unit))
    (due due' : Nat) (offered offered' : List Signal),
    (Config.runCycles stranded configs).run (outside.observed keen) 0 (opening.beside () []) =
        ⟨some reports, due, w'.beside () offered⟩ ∧
      (Config.runCycles stranded configs).run (outside.observed sulking) 100 (opening.beside () []) =
        ⟨some reports, due', w'.beside () offered'⟩ ∧
      offered.map Signal.untimed = heard ∧ offered'.map Signal.untimed = heard := by
  obtain ⟨records, w', -, hcomes, hears⟩ := Config.runCycles_unmoved_by_sink stranded
    (Handler.ofReplies (fun _ => 0) selective) configs flagged nofun
  obtain ⟨due, _, offered, hkeen, hheard⟩ := hears keen 0 ()
  obtain ⟨due', _, offered', hsulking, hheard'⟩ := hears sulking 100 ()
  have polled : ((Config.untoldCycles stranded configs).poll outside 0 opening).1.value?.map
      (·.flatMap (Cycle.Record.signals stranded.fleet)) = some heard := by
    decide +kernel
  obtain ⟨result, hresult, hsignals⟩ := Option.map_eq_some_iff.mp polled
  obtain ⟨_, hrun⟩ := hcomes 0
  have ended : (Config.untoldCycles stranded configs).run outside 0 opening = _ :=
    (Activity.run_of_wake (by rfl)).trans (Activity.run_of_value hresult)
  obtain rfl : result = records :=
    Option.some.inj (congrArg Ending.value? (ended.symm.trans hrun))
  rw [hsignals] at hheard hheard'
  exact ⟨_, w', due, due', offered, offered', hkeen, hsulking, hheard, hheard'⟩

end Setback

end ChainWatch
