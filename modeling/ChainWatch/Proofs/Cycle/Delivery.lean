import ChainWatch.Proofs.Fleet.Launch
import ChainWatch.Proofs.Rule.Report
import ChainWatch.Watch

/-!
# The course of a cycle

Whatever happens to its parts, a cycle goes through all of them and ends: the health pass, the
evaluation of its rules, one offer to the queue per transaction of the report, and the signals around
these. A part that goes wrong keeps none of the others from taking place.
-/

namespace ChainWatch

open Concurrency

/-! ## What is seen of a cycle -/

/-- The transaction that a request offers to the queue. -/
def Request.offer? : Request → Option OutboundTransaction
  | .enqueue tx => some tx
  | _ => none

theorem Request.IsService.offer?_eq_none {r : Request} (h : r.IsService) : r.offer? = none := by
  cases r with
  | enqueue => exact h.elim
  | _ => rfl

/-- The transaction that the queue takes with its answer. -/
def taken? : Event system → Option OutboundTransaction
  | .answered (.enqueue tx) (.ok _) => some tx
  | _ => none

section Services

variable {α : Type} {p : Job α} {trace : Trace system} {result : Option α}

/-- Work that only asks for services offers nothing. -/
theorem offers_of_timeless (hp : p.Timeless Request.IsService) (hr : p.Runs trace result) :
    requested Request.offer? trace = [] ∧ trace.filterMap taken? = [] := by
  have sends : ∀ event ∈ trace, event.Sends Request.IsService := hp.confined.runs hr
  refine ⟨requested_eq_nil fun r hm => (sends _ hm : r.IsService).offer?_eq_none,
    List.filterMap_eq_nil_iff.mpr fun event hm => ?_⟩
  have hsends := sends event hm
  cases event with
  | answered r answer =>
      cases r with
      | enqueue => exact hsends.elim
      | _ => rfl
  | _ => rfl

end Services

namespace Cycle

/-! ## The parts of a cycle -/

/-- Signals that are delivered one after the other, each with what became of it. -/
def announcing : List (Signal × Except SignalFault Unit) → Trace system
  | [] => []
  | (signal, answer) :: rest =>
    .sent (.deliver signal) :: .answered (.deliver signal) answer :: announcing rest

/-- Transactions that are offered to the queue one after the other, each with the queue's answer. -/
def offering : List (OutboundTransaction × Except QueueFault Unit) → Trace system
  | [] => []
  | (tx, answer) :: rest => .sent (.enqueue tx) :: .answered (.enqueue tx) answer :: offering rest

/-- The signals that the outcome of a health pass calls for. -/
def alarm : Except NoneRecovered HealthReport → List Signal
  | .ok _ => []
  | .error fault => [.criticalFailure fault.message]

/-- The parts of a cycle. -/
structure Course where
  /-- The memory when the clock was read for the first and for the second time. -/
  opened : State
  closed : State
  greeting : List (Signal × Except SignalFault Unit)
  health : Trace system
  outcome : Except NoneRecovered HealthReport
  alarm : List (Signal × Except SignalFault Unit)
  evaluation : Trace system
  report : CycleReport
  offers : List (OutboundTransaction × Except QueueFault Unit)
  farewell : List (Signal × Except SignalFault Unit)

namespace Course

/-- The parts in their order. -/
def trace (c : Course) : Trace system :=
  .touched c.opened c.opened :: announcing c.greeting ++ c.health ++ announcing c.alarm ++
    c.evaluation ++ offering c.offers ++ .touched c.closed c.closed :: announcing c.farewell

/-- The parts are what they are to be: a health pass, an evaluation of the loaded rules, an offer for
each transaction of the report, and the signals that belong before, between and behind. -/
structure Of (c : Course) (fleet : Fleet) (engine : RuleEngine) : Prop where
  greeting : c.greeting.map (·.1) = [.heartbeat .start]
  health : fleet.recoverAll.Runs c.health (some c.outcome)
  alarm : c.alarm.map (·.1) = Cycle.alarm c.outcome
  evaluation : engine.evaluateAndCollect.2.Runs c.evaluation (some c.report)
  offers : c.offers.map (·.1) = c.report.transactions
  farewell : ∃ elapsed, c.farewell.map (·.1) = [.cycleCompleted elapsed, .heartbeat .finish]

end Course

variable {trace : Trace system} {fleet : Fleet} {engine : RuleEngine}

theorem runs_clock_some {now : Nat} (hr : (Activity.clock (I := system)).Runs trace (some now)) :
    ∃ m, trace = [.touched m m] := by
  obtain ⟨found, later, rfl, rfl, -⟩ := begins_some.mp hr
  exact ⟨found.2, rfl⟩

theorem runs_emit_some {signal : Signal} {u : Unit} (hr : (emit signal).Runs trace (some u)) :
    ∃ answer, trace = announcing [(signal, answer)] := by
  obtain ⟨answer, early, late, hq, hp, rfl⟩ := Activity.runs_bind_some.mp hr
  obtain ⟨rfl, -⟩ := Activity.runs_pure_some.mp hp
  obtain rfl := Activity.runs_request_some.mp hq
  exact ⟨answer, rfl⟩

theorem runs_start_some {started : Nat} (hr : (start fleet).Runs trace (some started)) :
    ∃ opened greeting health outcome alarm,
      trace = .touched opened opened :: announcing greeting ++ health ++ announcing alarm ∧
        greeting.map (·.1) = [.heartbeat .start] ∧ fleet.recoverAll.Runs health (some outcome) ∧
        alarm.map (·.1) = Cycle.alarm outcome := by
  obtain ⟨now, clock, rest, hclock, hr₁, rfl⟩ := Activity.runs_bind_some.mp hr
  obtain ⟨u, greeting, rest, hgreeting, hr₂, rfl⟩ := Activity.runs_bind_some.mp hr₁
  obtain ⟨outcome, health, rest, hhealth, hr₃, rfl⟩ := Activity.runs_bind_some.mp hr₂
  obtain ⟨opened, rfl⟩ := runs_clock_some hclock
  obtain ⟨heard, rfl⟩ := runs_emit_some hgreeting
  cases outcome with
  | ok report =>
      obtain ⟨rfl, -⟩ := Activity.runs_pure_some.mp hr₃
      exact ⟨opened, [(_, heard)], health, .ok report, [], by simp [announcing], rfl, hhealth, rfl⟩
  | error fault =>
      obtain ⟨u, alarm, rest, halarm, hr₄, rfl⟩ := Activity.runs_bind_some.mp hr₃
      obtain ⟨rfl, -⟩ := Activity.runs_pure_some.mp hr₄
      obtain ⟨answer, rfl⟩ := runs_emit_some halarm
      exact ⟨opened, [(_, heard)], health, .error fault, [(_, answer)], by simp [announcing], rfl,
        hhealth, rfl⟩

/-- Every transaction is offered once and in its turn, whatever became of those before it. -/
theorem runs_submit_some {txs : List OutboundTransaction} {verdicts : List Bool}
    (hr : (submit txs).Runs trace (some verdicts)) :
    ∃ offers, offers.map (·.1) = txs ∧ trace = offering offers := by
  induction txs generalizing trace verdicts with
  | nil =>
      obtain ⟨rfl, -⟩ := Activity.runs_pure_some.mp hr
      exact ⟨[], rfl, rfl⟩
  | cons tx txs ih =>
      obtain ⟨answer, early, rest, hq, hr', rfl⟩ := Activity.runs_bind_some.mp hr
      obtain ⟨others, rest, last, hs, hp, rfl⟩ := Activity.runs_bind_some.mp hr'
      obtain rfl := Activity.runs_request_some.mp hq
      obtain ⟨rfl, -⟩ := Activity.runs_pure_some.mp hp
      obtain ⟨offers, rfl, rfl⟩ := ih hs
      exact ⟨(tx, answer) :: offers, rfl, by simp [offering]⟩

theorem runs_finish_some {started : Nat} {u : Unit} (hr : (finish started).Runs trace (some u)) :
    ∃ closed farewell, trace = .touched closed closed :: announcing farewell ∧
      ∃ elapsed, farewell.map (·.1) = [.cycleCompleted elapsed, .heartbeat .finish] := by
  obtain ⟨now, clock, rest, hclock, hr', rfl⟩ := Activity.runs_bind_some.mp hr
  obtain ⟨u, first, second, hfirst, hsecond, rfl⟩ := Activity.runs_bind_some.mp hr'
  obtain ⟨closed, rfl⟩ := runs_clock_some hclock
  obtain ⟨answer, rfl⟩ := runs_emit_some hfirst
  obtain ⟨answer', rfl⟩ := runs_emit_some hsecond
  exact ⟨closed, [(_, answer), (_, answer')], by simp [announcing], now - started, rfl⟩

/-- Every cycle that has come to its end has gone through all its parts. -/
theorem exists_course {report : CycleReport} (hr : (run fleet engine).Runs trace (some report)) :
    ∃ c : Course, c.Of fleet engine ∧ c.trace = trace ∧ c.report = report := by
  -- The four parts of a cycle, each with its share of the trace.
  obtain ⟨started, starting, rest, hs, hr₁, rfl⟩ := Activity.runs_bind_some.mp hr
  obtain ⟨found, evaluation, rest, he, hr₂, rfl⟩ := Activity.runs_bind_some.mp hr₁
  obtain ⟨verdicts, submission, rest, hsub, hr₃, rfl⟩ := Activity.runs_bind_some.mp hr₂
  obtain ⟨u, finishing, rest, hf, hp, rfl⟩ := Activity.runs_bind_some.mp hr₃
  obtain ⟨rfl, rfl⟩ := Activity.runs_pure_some.mp hp
  obtain ⟨opened, greeting, health, outcome, alarm, rfl, hgreeting, hhealth, halarm⟩ :=
    runs_start_some hs
  obtain ⟨offers, hoffers, rfl⟩ := runs_submit_some hsub
  obtain ⟨closed, farewell, rfl, hfarewell⟩ := runs_finish_some hf
  exact ⟨⟨opened, closed, greeting, health, outcome, alarm, evaluation, report, offers, farewell⟩,
    ⟨hgreeting, hhealth, halarm, he, hoffers, hfarewell⟩, by simp [Course.trace], rfl⟩

/-! ## What is offered and taken -/

section Offers

variable {signals : List (Signal × Except SignalFault Unit)}
  {offers : List (OutboundTransaction × Except QueueFault Unit)}

theorem requested_offer?_announcing : requested Request.offer? (announcing signals) = [] := by
  induction signals with
  | nil => rfl
  | cons signal signals ih => exact ih

theorem filterMap_taken?_touched {m m' : State} {trace : Trace system} :
    List.filterMap taken? (.touched m m' :: trace) = trace.filterMap taken? := rfl

theorem taken?_announcing : (announcing signals).filterMap taken? = [] := by
  induction signals with
  | nil => rfl
  | cons signal signals ih => exact ih

theorem requested_offer?_offering :
    requested Request.offer? (offering offers) = offers.map (·.1) := by
  induction offers with
  | nil => rfl
  | cons offer offers ih => exact congrArg (offer.1 :: ·) ih

/-- The queue takes what it does not reject. -/
theorem taken?_offering :
    (offering offers).filterMap taken? = (offers.filter (·.2.isOk)).map (·.1) := by
  induction offers with
  | nil => rfl
  | cons offer offers ih =>
      obtain ⟨tx, answer⟩ := offer
      cases answer with
      | error fault => exact ih
      | ok _ => exact congrArg (tx :: ·) ih

/-- Where the queue answers by a table, the table says what it takes. -/
theorem taken_of_quotes {replies : Replies}
    (hq : (offering offers).Quotes (fun _ => True) replies) :
    (offers.filter (·.2.isOk)).map (·.1) =
      (offers.map (·.1)).filter fun tx => (replies (.enqueue tx)).isOk := by
  induction offers with
  | nil => rfl
  | cons offer offers ih =>
      obtain ⟨tx, answer⟩ := offer
      have rest := ih fun event hm => hq event (by simp [offering, hm])
      obtain rfl : answer = replies (.enqueue tx) :=
        hq (.answered (.enqueue tx) answer) (by simp [offering]) trivial
      cases h : (replies (.enqueue tx)).isOk <;> simp [h, rest]

end Offers

namespace Course

variable {c : Course}

/-- Nothing is offered and taken but the transactions of the report, if the rules ask for services
only. -/
theorem Of.offers_eq {context : RuleContext} (hc : c.Of context.fleet engine)
    (hr : context.Suits engine.rules) :
    requested Request.offer? c.trace = c.report.transactions ∧
      c.trace.filterMap taken? = (c.offers.filter (·.2.isOk)).map (·.1) := by
  obtain ⟨health, unhealthy⟩ := offers_of_timeless context.fleet.timeless_recoverAll hc.health
  obtain ⟨evaluated, untaken⟩ :=
    offers_of_timeless (Rule.uses_evaluateAll hr).timeless hc.evaluation
  constructor
  · rw [← hc.offers, ← requested_offer?_offering]
    simp only [trace, requested_append, requested_touched, requested_offer?_announcing, health,
      evaluated, List.nil_append, List.append_nil]
  · rw [← taken?_offering]
    simp only [trace, List.filterMap_append, filterMap_taken?_touched, taken?_announcing, unhealthy,
      untaken, List.nil_append, List.append_nil]

end Course

end Cycle

/-! ## Every cycle ends -/

/-- The work ends unless somebody else is busy with the start of the fleet, and leaves nobody busy with
it. -/
def Ends {α : Type} (p : Job α) : Prop :=
  ∀ ⦃σ : Type⦄ (h : Handler system σ) (now : Nat) (w : World system σ), w.memory.start ≠ .running →
    (∃ value, (p.run h now w).value? = some value) ∧ (p.run h now w).world.memory.start ≠ .running

section Ends

variable {α β : Type} {p : Job α} {f : α → Job β}

theorem ends_pure (value : α) : Ends (pure value) := by
  intro σ h now w hs
  rw [show (pure value : Job α) = .done value from rfl, Activity.run_done]
  exact ⟨⟨value, rfl⟩, hs⟩

theorem Ends.bind (hp : Ends p) (hf : ∀ value, Ends (f value)) : Ends (p >>= f) := by
  intro σ h now w hs
  obtain ⟨⟨value, hv⟩, hs'⟩ := hp h now w hs
  rw [Activity.run_bind_of_value hv]
  exact hf value h _ _ hs'

theorem ends_of_waitFree (hp : p.WaitFree)
    (hs : p.Confined (Event.Spares fun m : State => m.start ≠ .running)) : Ends p :=
  fun _ h now w hw => ⟨Activity.exists_value_of_waitFree h now p w hp, hs.spares_run hw⟩

theorem ends_request (r : Request) : Ends (Activity.request (I := system) r) :=
  ends_of_waitFree (Activity.confined_request (fun _ => nofun) fun _ _ => nofun)
    (Activity.confined_request trivial fun _ => trivial)

theorem ends_clock : Ends (Activity.clock (I := system)) :=
  ends_of_waitFree (fun _ _ => ⟨fun _ => nofun, trivial⟩) fun _ _ => ⟨id, trivial⟩

theorem ends_recoverAll (fleet : Fleet) : Ends fleet.recoverAll := by
  refine ends_of_waitFree fleet.waitFree_recoverAll (fleet.confined_recoverAll.mono fun event h => ?_)
  obtain ⟨e, -, ha⟩ := h
  cases ha with
  | marked _ healthy => exact id
  | found => exact id
  | _ => trivial

theorem ends_evaluateAll {context : RuleContext} {rules : List Rule} (hr : context.Suits rules) :
    Ends (Rule.evaluateAll rules) :=
  fun _ h now w => Rule.exists_report_of_suits hr h now w

end Ends

namespace Cycle

theorem ends_emit (signal : Signal) : Ends (emit signal) :=
  (ends_request _).bind fun _ => ends_pure ()

theorem ends_start (fleet : Fleet) : Ends (start fleet) := by
  refine ends_clock.bind fun started => (ends_emit _).bind fun _ =>
    (ends_recoverAll fleet).bind fun outcome => ?_
  cases outcome with
  | ok report => exact ends_pure started
  | error fault => exact (ends_emit _).bind fun _ => ends_pure started

theorem ends_submit : (txs : List OutboundTransaction) → Ends (submit txs)
  | [] => ends_pure []
  | _ :: txs => (ends_request _).bind fun _ => (ends_submit txs).bind fun _ => ends_pure _

theorem ends_finish (started : Nat) : Ends (finish started) :=
  ends_clock.bind fun _ => (ends_emit _).bind fun _ => ends_emit _

end Cycle

theorem Config.suits_engineIn (config : Config) (context : RuleContext) :
    context.Suits (config.engineIn context).rules :=
  RuleFactory.suits_load context _ _

theorem Config.ends_runCycle (config : Config) (context : RuleContext) :
    Ends (config.runCycle context) :=
  (Cycle.ends_start _).bind fun started =>
    (ends_evaluateAll (config.suits_engineIn context)).bind fun report =>
      (Cycle.ends_submit _).bind fun _ => (Cycle.ends_finish started).bind fun _ => ends_pure report

/-! ## Deliveries -/

theorem CycleReport.transactions_ofOutcomes (performances : List Performance) :
    (ofOutcomes (performances.map Performance.outcome)).transactions =
      (performances.filter (·.result.isOk)).flatMap
        fun p => p.pushes.map (Push.stamped p.rule.owner) := by
  rw [ofOutcomes_outcome]
  induction performances with
  | nil => rfl
  | cons p performances ih =>
      cases hp : p.result.isOk with
      | false => simpa [Performance.transactions, hp] using ih
      | true => simpa [Performance.transactions, hp] using ih

/-- A cycle ends, whatever happens in it, if nobody else is busy with the start of the fleet; and no
cycle leaves anybody busy with it. First comes a health pass, with or without success, then an evaluation
of the rules that can be built, then the offers, then the closing signals. What is offered are the
transactions of the report, each once and in their order, whatever the queue says to them, and the queue
has taken those it did not reject. None of them comes from a rule that has failed. -/
theorem Config.runCycle_delivers (config : Config) (context : RuleContext) :
    (∀ {σ : Type} (h : Handler system σ) (now : Nat) (w : World system σ),
      w.memory.start ≠ .running → ∃ report trace,
        ((config.runCycle context).run h now w).value? = some report ∧
          (config.runCycle context).Runs trace (some report) ∧
          trace.Leads h w ((config.runCycle context).run h now w).world ∧
          ((config.runCycle context).run h now w).world.memory.start ≠ .running) ∧
    ∀ (trace : Trace system) (report : CycleReport),
      (config.runCycle context).Runs trace (some report) →
      ∃ c : Cycle.Course, c.Of context.fleet (config.engineIn context) ∧ c.trace = trace ∧
        c.report = report ∧
        requested Request.offer? trace = report.transactions ∧
        c.offers.map (·.1) = report.transactions ∧
        trace.filterMap taken? = (c.offers.filter (·.2.isOk)).map (·.1) ∧
        ∃ performances : List Performance,
          performances.map (·.rule) = config.rules.filterMap (fun entry =>
            (RuleFactory.standard context config.cycle.fanOut entry).toOption) ∧
          (∀ p ∈ performances, p.Occurs) ∧ Shuffles (performances.map (·.trace)) c.evaluation ∧
          report.transactions = (performances.filter (·.result.isOk)).flatMap
            fun p => p.pushes.map (Push.stamped p.rule.owner) := by
  constructor
  · intro σ h now w hs
    obtain ⟨⟨report, hv⟩, hs'⟩ := config.ends_runCycle context h now w hs
    obtain ⟨trace, hr, hl⟩ := Activity.exists_trace_of_run h now (config.runCycle context) w
    exact ⟨report, trace, hv, hv ▸ hr, hl, hs'⟩
  · intro trace report hr
    -- What is offered and taken is read off the course, and whom it comes from off its evaluation.
    obtain ⟨c, hc, rfl, rfl⟩ := Cycle.exists_course hr
    obtain ⟨hoffers, htaken⟩ := hc.offers_eq (config.suits_engineIn context)
    have pushing : ∀ rule ∈ (config.engineIn context).rules, rule.OnlyPushes := by
      intro rule hm
      obtain ⟨entry, -, hb⟩ := RuleFactory.exists_entry_of_mem_load hm
      exact RuleFactory.onlyPushes_of_standard hb
    obtain ⟨performances, hrules, hoccurs, hshuffles, hreport⟩ :=
      Rule.exists_performances pushing hc.evaluation
    refine ⟨c, hc, rfl, rfl, hoffers, hc.offers, htaken, performances, hrules, hoccurs, hshuffles, ?_⟩
    rw [hreport, CycleReport.transactions_ofOutcomes]

/-! ## A cycle with setbacks -/

namespace Setback

open Setting

/-- An endpoint whose container cannot be brought back, although its node answers. -/
def stranded : RuleContext where
  fleet :=
    { endpoints := [⟨0, "first", .managed ⟨"first", "image", [], []⟩, ⟨1, 0, 0⟩⟩]
      nonempty := by simp
      ordered := by simp }
  explorer := .absent

/-- The queue rejects what the first sweep has found. -/
def selective : Replies
  | .enqueue tx => if tx.context = "sweep: act id 3" then .error .notWritable else .ok ()
  | r => candidates r

/-- Two sweeps, and between them a rule that fails. -/
def config : Config :=
  { Config.ofNodes [] with
    rules := [sweepEntry .null, thresholdEntry, { sweepEntry .null with label := "other" }] }

def flagged : World system Unit := ⟨⟨[0], "", .idle, duties⟩, ()⟩

def cycle : Ending system Unit CycleReport :=
  (config.runCycle stranded).run (.ofReplies (fun _ => 0) selective) 0 flagged

set_option maxRecDepth 8000 in
theorem delivers_after_rejection : ∃ report trace, cycle.value? = some report ∧
    (config.runCycle stranded).Runs trace (some report) ∧
    (requested Request.offer? trace).map (·.context) = ["sweep: act id 3", "other: act id 3"] ∧
    (trace.filterMap taken?).map (·.context) = ["other: act id 3"] := by
  obtain ⟨ends, delivers⟩ := config.runCycle_delivers stranded
  obtain ⟨report, trace, hv, hr, hl, -⟩ :=
    ends (.ofReplies (fun _ => 0) selective) 0 flagged nofun
  obtain ⟨c, hc, rfl, rfl, hoffers, hreport, htaken, -⟩ := delivers trace report hr
  have polled : (((config.runCycle stranded).poll (.ofReplies (fun _ => 0) selective) 0
      flagged).1.value?.map fun report => report.transactions.map (·.context)) =
        some ["sweep: act id 3", "other: act id 3"] := by
    decide +kernel
  obtain ⟨result, hresult, hcontexts⟩ := Option.map_eq_some_iff.mp polled
  have ended : cycle.value? = some result := by
    rw [cycle, Activity.run_of_wake (by rfl), Activity.run_of_value hresult]
  obtain rfl : result = c.report := Option.some.inj (ended.symm.trans hv)
  have quoted : c.trace.Quotes (fun _ => True) selective :=
    (Handler.quotes_ofReplies _ _ _).trace trivial hl.2
  refine ⟨c.report, c.trace, hv, hr, by rw [hoffers, hcontexts], ?_⟩
  have chosen : (c.offers.filter (·.2.isOk)).map (·.1) =
      c.report.transactions.filter fun tx => tx.context != "sweep: act id 3" := by
    rw [Cycle.taken_of_quotes fun event hm => quoted event (by simp [Cycle.Course.trace, hm]), hreport]
    refine List.filter_congr fun tx _ => ?_
    by_cases h : tx.context = "sweep: act id 3" <;> simp [selective, h, Except.isOk, Except.toBool]
  rw [htaken, chosen]
  show (c.report.transactions.filter ((· != "sweep: act id 3") ∘ (·.context))).map (·.context) = _
  rw [← List.filter_map, hcontexts]
  rfl

end Setback

end ChainWatch
