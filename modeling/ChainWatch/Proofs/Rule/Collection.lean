import ChainWatch.Proofs.Fleet.Freshness
import ChainWatch.Rehearsal.Rule

/-!
# Collecting what rules queued

However the rules of an evaluation interleave and however each of them ends, the report counts every
one of them once, and its transactions are those of the successful rules: rule by rule, and for each
rule in the order in which it queued them.
-/

namespace ChainWatch

open Concurrency

/-! ## Outboxes -/

/-- What a rule hands to its outbox. -/
structure Push where
  context : String
  dedupKey : String
  request : CallRequest

/-- The transaction that comes of it. -/
def Push.stamped (owner : RuleMeta) (p : Push) : OutboundTransaction :=
  Outbox.stamp owner p.context p.dedupKey p.request

namespace Outbox

def pushAll (box : Outbox) (pushes : List Push) : Outbox :=
  pushes.foldl (fun box p => box.push p.context p.dedupKey p.request) box

@[simp] theorem owner_empty (owner : RuleMeta) : (empty owner).owner = owner := rfl

@[simp] theorem pushAll_nil (box : Outbox) : box.pushAll [] = box := rfl

@[simp] theorem owner_pushAll (box : Outbox) (pushes : List Push) :
    (box.pushAll pushes).owner = box.owner := by
  induction pushes generalizing box with
  | nil => rfl
  | cons p pushes ih => exact ih _

@[simp] theorem queue_pushAll (box : Outbox) (pushes : List Push) :
    (box.pushAll pushes).queue = box.queue ++ pushes.map (Push.stamped box.owner) := by
  induction pushes generalizing box with
  | nil => simp
  | cons p pushes ih =>
      rw [show box.pushAll (p :: pushes) =
        (box.push p.context p.dedupKey p.request).pushAll pushes from rfl, ih]
      simp [Push.stamped]

end Outbox

/-! ## Rules that queue and end -/

/-- When the rule ends, well or not, its outbox holds what the rule has pushed. -/
def Rule.OnlyPushes (rule : Rule) : Prop :=
  ∀ trace box result, (rule.evaluate (.empty rule.owner)).Runs trace (some (box, result)) →
    ∃ pushes, box = (Outbox.empty rule.owner).pushAll pushes

theorem ThresholdSpec.onlyPushes (spec : ThresholdSpec) (owner : RuleMeta) (context : RuleContext) :
    (spec.rule owner context).OnlyPushes := by
  intro trace box result hr
  obtain ⟨observed, early, late, -, hl, rfl⟩ := Activity.runs_bind_some.mp hr
  rcases observed with fault | _ | ⟨value, data⟩
  · obtain ⟨-, h⟩ := Activity.runs_pure_some.mp hl
    exact ⟨[], congrArg Prod.fst h⟩
  · obtain ⟨-, h⟩ := Activity.runs_pure_some.mp hl
    exact ⟨[], congrArg Prod.fst h⟩
  · obtain ⟨-, h⟩ := Activity.runs_pure_some.mp hl
    exact ⟨[⟨_, _, _⟩], congrArg Prod.fst h⟩

theorem SweepSpec.exists_pushes_of_act (spec : SweepSpec) (target : Abi.Contract) (ids : List Word)
    (box : Outbox) : ∃ pushes, (spec.act target ids box).1 = box.pushAll pushes := by
  induction ids generalizing box with
  | nil => exact ⟨[], rfl⟩
  | cons id ids ih =>
      unfold act
      cases target.encodeAction spec.action id with
      | error fault => exact ⟨[], rfl⟩
      | ok data =>
          obtain ⟨pushes, h⟩ := ih (box.push (spec.context box.owner.label id)
            (dedupKey (spec.decision box.owner.label id)) (.call spec.actor data))
          exact ⟨⟨_, _, _⟩ :: pushes, h⟩

theorem SweepSpec.onlyPushes (spec : SweepSpec) (owner : RuleMeta) (limit : Nat)
    (context : RuleContext) : (spec.rule owner limit context).OnlyPushes := by
  intro trace box result hr
  obtain ⟨observed, early, late, -, hl, rfl⟩ := Activity.runs_bind_some.mp hr
  rcases observed with fault | _ | ⟨ids, target⟩
  · obtain ⟨-, h⟩ := Activity.runs_pure_some.mp hl
    exact ⟨[], congrArg Prod.fst h⟩
  · obtain ⟨-, h⟩ := Activity.runs_pure_some.mp hl
    exact ⟨[], congrArg Prod.fst h⟩
  · obtain ⟨-, h⟩ := Activity.runs_pure_some.mp hl
    obtain ⟨pushes, hp⟩ := spec.exists_pushes_of_act target ids (.empty owner)
    exact ⟨pushes, (congrArg Prod.fst h).trans hp⟩

theorem RuleFactory.onlyPushes_of_standard {context : RuleContext} {limit : Nat} {entry : RuleEntry}
    {rule : Rule} (h : RuleFactory.standard context limit entry = .ok rule) : rule.OnlyPushes := by
  unfold RuleFactory.standard at h
  split at h
  · cases h
  · split at h
    · cases h
    · cases h
      exact ThresholdSpec.onlyPushes _ _ _
  · split at h
    · cases h
    · cases h
      exact SweepSpec.onlyPushes _ _ _ _

/-! ## Reports -/

/-- What one rule did in an evaluation: its events, what it pushed, and how it ended. -/
structure Performance where
  rule : Rule
  trace : Trace system
  pushes : List Push
  result : Except RuleFault RuleStatus

namespace Performance

/-- The rule, evaluated with an outbox of its own, may do this. -/
def Occurs (p : Performance) : Prop :=
  (p.rule.evaluate (.empty p.rule.owner)).Runs p.trace
    (some ((Outbox.empty p.rule.owner).pushAll p.pushes, p.result))

def outcome (p : Performance) : Outbox × Except RuleFault RuleStatus :=
  ((Outbox.empty p.rule.owner).pushAll p.pushes, p.result)

def isIdle (p : Performance) : Bool :=
  match p.result with
  | .ok status => status = .noCandidates
  | .error _ => false

/-- What a cycle takes over from the rule: everything that a successful one pushed. -/
def transactions (p : Performance) : List OutboundTransaction :=
  if p.result.isOk then p.pushes.map (Push.stamped p.rule.owner) else []

end Performance

namespace CycleReport

theorem add_outcome (report : CycleReport) (p : Performance) :
    report.add p.outcome =
      { succeeded := report.succeeded + if p.result.isOk then 1 else 0
        failed := report.failed + if !p.result.isOk then 1 else 0
        idle := report.idle + if p.isIdle then 1 else 0
        transactions := report.transactions ++ p.transactions } := by
  cases hr : p.result with
  | error fault =>
      simp [add, Performance.outcome, Performance.isIdle, Performance.transactions, hr, Except.isOk,
        Except.toBool]
  | ok status =>
      cases status <;>
        simp [add, Performance.outcome, Performance.isIdle, Performance.transactions, hr,
          Except.isOk, Except.toBool, Outbox.drainInto]

theorem foldl_add_outcome (performances : List Performance) (report : CycleReport) :
    (performances.map Performance.outcome).foldl add report =
      { succeeded := report.succeeded + performances.countP (·.result.isOk)
        failed := report.failed + performances.countP (!·.result.isOk)
        idle := report.idle + performances.countP (·.isIdle)
        transactions := report.transactions ++ performances.flatMap (·.transactions) } := by
  induction performances generalizing report with
  | nil => simp
  | cons p performances ih =>
      rw [List.map_cons, List.foldl_cons, ih, add_outcome]
      simp only [List.countP_cons, List.flatMap_cons, List.append_assoc, mk.injEq, and_true]
      omega

theorem ofOutcomes_outcome (performances : List Performance) :
    ofOutcomes (performances.map Performance.outcome) =
      { succeeded := performances.countP (·.result.isOk)
        failed := performances.countP (!·.result.isOk)
        idle := performances.countP (·.isIdle)
        transactions := performances.flatMap (·.transactions) } := by
  simpa [empty, ofOutcomes] using foldl_add_outcome performances empty

theorem succeeded_add_failed (performances : List Performance) :
    (ofOutcomes (performances.map Performance.outcome)).succeeded +
      (ofOutcomes (performances.map Performance.outcome)).failed = performances.length := by
  rw [ofOutcomes_outcome, List.length_eq_countP_add_countP (·.result.isOk)]
  simp

theorem idle_le_succeeded (performances : List Performance) :
    (ofOutcomes (performances.map Performance.outcome)).idle ≤
      (ofOutcomes (performances.map Performance.outcome)).succeeded := by
  rw [ofOutcomes_outcome]
  refine List.countP_mono_left fun p _ hi => ?_
  unfold Performance.isIdle at hi
  split at hi
  · rename_i heq
    rw [heq]
    rfl
  · cases hi

end CycleReport

/-- Every evaluation consists of performances of its rules, which interleave in some way. -/
theorem Rule.exists_performances {rules : List Rule} (hp : ∀ rule ∈ rules, rule.OnlyPushes)
    {trace : Trace system} {report : CycleReport}
    (hr : (Rule.evaluateAll rules).Runs trace (some report)) :
    ∃ performances : List Performance, performances.map (·.rule) = rules ∧
      (∀ p ∈ performances, p.Occurs) ∧ Shuffles (performances.map (·.trace)) trace ∧
      report = CycleReport.ofOutcomes (performances.map Performance.outcome) := by
  obtain ⟨outcomes, early, late, hj, he, rfl⟩ := Activity.runs_bind_some.mp hr
  obtain ⟨rfl, rfl⟩ := Activity.runs_pure_some.mp he
  obtain ⟨shares, rfl, hs, hw, hc⟩ :=
    Crew.runs_ofList_map.mp (Activity.runs_joinBounded_some.mp hj)
  have hresults : shares.map (·.result) = outcomes.map some := collect_eq_some.mp hc.symm
  have performed : ∀ s ∈ shares, ∃ p : Performance,
      p.rule = s.member ∧ p.trace = s.trace ∧ p.Occurs ∧ s.result = some p.outcome := by
    intro s hm
    have hsome : s.result ∈ outcomes.map some := hresults ▸ List.mem_map_of_mem hm
    obtain ⟨⟨box, result⟩, -, hv⟩ := List.mem_map.mp hsome
    have hrun := hs s hm
    rw [← hv] at hrun
    obtain ⟨pushes, rfl⟩ := hp s.member (List.mem_map_of_mem hm) _ _ _ hrun
    exact ⟨⟨s.member, s.trace, pushes, result⟩, rfl, rfl, hrun, hv.symm⟩
  have idler : Rule := ⟨⟨"", .medium, "", 0⟩, fun box => pure (box, .ok .noCandidates)⟩
  have : Nonempty Performance := ⟨⟨idler, [], [], .ok .noCandidates⟩⟩
  choose! performance hrule htrace hoccurs houtcome using performed
  refine ⟨shares.map performance, ?_, ?_, ?_, ?_⟩
  · rw [List.map_map]
    exact List.map_congr_left hrule
  · intro p hm
    obtain ⟨s, hs, rfl⟩ := List.mem_map.mp hm
    exact hoccurs s hs
  · rw [List.append_nil, List.map_map]
    have heq : shares.map ((·.trace) ∘ performance) = shares.map (·.trace) :=
      List.map_congr_left htrace
    rwa [heq]
  · have heq : outcomes.map some = ((shares.map performance).map Performance.outcome).map some := by
      rw [← hresults, List.map_map, List.map_map]
      exact List.map_congr_left houtcome
    exact congrArg _ (List.map_injective_iff.mpr (fun _ _ => Option.some.inj) heq)

theorem Rule.exists_report_of_waitFree {σ : Type} {rules : List Rule}
    (hf : ∀ rule ∈ rules, (rule.evaluate (.empty rule.owner)).WaitFree) (h : Handler system σ)
    (now : Nat) (w : World system σ) :
    ∃ report, ((Rule.evaluateAll rules).run h now w).value? = some report := by
  apply Activity.exists_value_of_waitFree
  refine Activity.Confined.bind (Activity.confined_joinAll fun member hm => ?_)
    fun _ => Activity.confined_pure _
  obtain ⟨rule, hr, rfl⟩ := List.mem_map.mp hm
  exact hf rule hr

namespace RuleFactory

theorem length_load (factory : RuleFactory) (entries : List RuleEntry) :
    (factory.load entries).length = entries.countP fun entry => (factory entry).isOk := by
  rw [load, List.length_filterMap_eq_countP]
  apply List.countP_congr
  intro entry _
  cases factory entry <;> simp [Except.toOption, Except.isOk, Except.toBool]

/-- Entries that cannot be built might as well not be there. -/
theorem load_filter_isOk (factory : RuleFactory) (entries : List RuleEntry) :
    factory.load (entries.filter fun entry => (factory entry).isOk) = factory.load entries := by
  unfold load
  rw [List.filterMap_filter]
  apply List.filterMap_congr
  intro entry _
  cases factory entry <;> rfl

theorem exists_entry_of_mem_load {factory : RuleFactory} {entries : List RuleEntry} {rule : Rule}
    (h : rule ∈ factory.load entries) : ∃ entry ∈ entries, factory entry = .ok rule := by
  obtain ⟨entry, he, hr⟩ := List.mem_filterMap.mp h
  refine ⟨entry, he, ?_⟩
  cases hf : factory entry with
  | error fault => simp [hf, Except.toOption] at hr
  | ok built =>
      obtain rfl : built = rule := by simpa [hf, Except.toOption] using hr
      rfl

end RuleFactory

theorem Rule.evaluateAll_nil {trace : Trace system} {report : CycleReport}
    (hr : (Rule.evaluateAll []).Runs trace (some report)) : trace = [] ∧ report = .empty := by
  obtain ⟨performances, hrules, -, hw, rfl⟩ := Rule.exists_performances (by simp) hr
  obtain rfl : performances = [] := List.map_eq_nil_iff.mp hrules
  exact ⟨hw, rfl⟩

namespace RuleEngine

/-- Loading replaces the rules by those that can be built, and an evaluation uses them up. Its report
accounts for each of them; a rule that fails leaves nothing behind, whatever it pushed. -/
theorem evaluateAndCollect_collects (engine : RuleEngine) (entries : List RuleEntry)
    (hp : ∀ entry ∈ entries, ∀ rule, engine.factory entry = .ok rule → rule.OnlyPushes) :
    (engine.load entries).loaded = entries.countP (fun entry => (engine.factory entry).isOk) ∧
    engine.load (entries.filter fun entry => (engine.factory entry).isOk) = engine.load entries ∧
    (∀ others, (engine.load others).load entries = engine.load entries) ∧
    (∀ trace report, (engine.load entries).evaluateAndCollect.2.Runs trace (some report) →
      ∃ performances : List Performance,
        performances.map (·.rule) =
          entries.filterMap (fun entry => (engine.factory entry).toOption) ∧
        (∀ p ∈ performances, p.Occurs) ∧ Shuffles (performances.map (·.trace)) trace ∧
        report.succeeded = performances.countP (·.result.isOk) ∧
        report.succeeded + report.failed =
          entries.countP (fun entry => (engine.factory entry).isOk) ∧
        report.idle = performances.countP (·.isIdle) ∧ report.idle ≤ report.succeeded ∧
        report.transactions = performances.flatMap fun p =>
          if p.result.isOk then p.pushes.map (Push.stamped p.rule.owner) else []) ∧
    ((∀ rule ∈ (engine.load entries).rules, (rule.evaluate (.empty rule.owner)).WaitFree) →
      ∀ {σ : Type} (h : Handler system σ) (now : Nat) (w : World system σ), ∃ report,
        ((engine.load entries).evaluateAndCollect.2.run h now w).value? = some report) ∧
    (engine.load entries).evaluateAndCollect.1.loaded = 0 ∧
    (∀ {σ : Type} (h : Handler system σ) (now : Nat) (w : World system σ),
      ((engine.load entries).evaluateAndCollect.1.evaluateAndCollect.2.run h now w).value? =
        some .empty) ∧
    ∀ others, (engine.load entries).evaluateAndCollect.1.load others = engine.load others := by
  have built : ∀ rule ∈ (engine.load entries).rules, rule.OnlyPushes := by
    intro rule hr
    obtain ⟨entry, he, hb⟩ := RuleFactory.exists_entry_of_mem_load hr
    exact hp entry he rule hb
  refine ⟨RuleFactory.length_load _ _, ?_, fun _ => rfl, fun trace report hr => ?_,
    fun hf => Rule.exists_report_of_waitFree hf, rfl, fun h now w => ?_, fun _ => rfl⟩
  · exact congrArg (RuleEngine.mk engine.factory) (RuleFactory.load_filter_isOk _ _)
  · obtain ⟨performances, hrules, hoccurs, hw, rfl⟩ := Rule.exists_performances built hr
    have hlength : performances.length = (engine.factory.load entries).length := by
      rw [← List.length_map (·.rule), hrules]
      rfl
    refine ⟨performances, hrules, hoccurs, hw, ?_, ?_, ?_, ?_, ?_⟩
    · rw [CycleReport.ofOutcomes_outcome]
    · rw [CycleReport.succeeded_add_failed, hlength, RuleFactory.length_load]
    · rw [CycleReport.ofOutcomes_outcome]
    · exact CycleReport.idle_le_succeeded performances
    · rw [CycleReport.ofOutcomes_outcome]
      rfl
  · obtain ⟨report, hv⟩ := Rule.exists_report_of_waitFree (List.forall_mem_nil _) h now w
    obtain ⟨trace, hr, -⟩ := Activity.exists_trace_of_run h now (Rule.evaluateAll []) w
    rw [hv] at hr
    obtain ⟨-, rfl⟩ := Rule.evaluateAll_nil hr
    exact hv

end RuleEngine

/-! ## Scripted rules -/

namespace Rehearsal

theorem fill_eq_pushAll (count : Nat) (box : Outbox) : ∃ pushes, fill count box = box.pushAll pushes := by
  refine ⟨(List.range count).map fun i => ⟨s!"{box.owner.label} #{i}", s!"{box.owner.label}-{i}",
    { CallRequest.empty with recipient := some Address.zero }⟩, ?_⟩
  rw [Outbox.pushAll, List.foldl_map]
  rfl

theorem onlyPushes_of_factory {standard : RuleFactory} {entry : RuleEntry} {rule : Rule}
    (hs : ∀ rule, standard entry = .ok rule → rule.OnlyPushes)
    (h : factory standard entry = .ok rule) : rule.OnlyPushes := by
  unfold factory at h
  split at h
  · exact hs rule h
  · cases h
    intro trace box result hr
    obtain ⟨⟨⟩, early, late, -, hl, rfl⟩ := Activity.runs_bind_some.mp hr
    obtain ⟨-, heq⟩ := Activity.runs_pure_some.mp hl
    obtain ⟨pushes, hp⟩ := fill_eq_pushAll _ _
    exact ⟨pushes, (congrArg Prod.fst heq).trans hp⟩

theorem waitFree_rule (owner : RuleMeta) (delay count : Nat) (ending : RuleEnding) (box : Outbox) :
    ((rule owner delay count ending).evaluate box).WaitFree :=
  Activity.Confined.bind (Activity.confined_sleep delay) fun _ => Activity.confined_pure _

/-- A rule that pushes and succeeds, one that pushes and fails, one of no known kind, one that pushes
though it had nothing to examine, and one that pushes and breaks off. -/
def mixedEntries : List RuleEntry :=
  ["scripted_push", "scripted_fail", "unknown", "scripted_idle", "scripted_panic"].map fun kind =>
    ⟨kind, kind, .high, "executor", 60, .object [("count", .ofNat 2)]⟩

def mixedEngine : RuleEngine :=
  .new (factory (.standard ⟨.pair, .absent⟩ 8))

set_option maxRecDepth 4000 in
theorem evaluateAndCollect_of_mixedEntries :
    (∀ entry ∈ mixedEntries, ∀ rule, mixedEngine.factory entry = .ok rule → rule.OnlyPushes) ∧
    (∀ rule ∈ (mixedEngine.load mixedEntries).rules,
      (rule.evaluate (.empty rule.owner)).WaitFree) ∧
    ∃ trace report, ∃ performances : List Performance,
      (mixedEngine.load mixedEntries).evaluateAndCollect.2.Runs trace (some report) ∧
      Shuffles (performances.map (·.trace)) trace ∧ performances.countP (·.result.isOk) = 2 ∧
      report.failed = 2 ∧ performances.countP (·.isIdle) = 1 ∧
      report.transactions.map (·.context) =
        ["scripted_push #0", "scripted_push #1", "scripted_idle #0", "scripted_idle #1"] := by
  have onlyPush : ∀ entry ∈ mixedEntries, ∀ rule, mixedEngine.factory entry = .ok rule →
      rule.OnlyPushes :=
    fun _ _ _ h => onlyPushes_of_factory (fun _ => RuleFactory.onlyPushes_of_standard) h
  have waitFree : ∀ rule ∈ (mixedEngine.load mixedEntries).rules,
      (rule.evaluate (.empty rule.owner)).WaitFree := by
    intro r hr
    have hrules : (mixedEngine.load mixedEntries).rules =
        [("scripted_push", .push), ("scripted_fail", .fail), ("scripted_idle", .idle),
          ("scripted_panic", .panic)].map fun scripted : String × RuleEnding =>
            rule ⟨scripted.1, .high, "executor", 60⟩ 0 2 scripted.2 := by rfl
    rw [hrules] at hr
    obtain ⟨scripted, -, rfl⟩ := List.mem_map.mp hr
    exact waitFree_rule _ _ _ _ _
  obtain ⟨-, -, -, collects, ends, -⟩ :=
    RuleEngine.evaluateAndCollect_collects mixedEngine mixedEntries onlyPush
  obtain ⟨report, hv⟩ := ends waitFree Stage.handler 0 Fleet.contested
  obtain ⟨trace, hr, -⟩ := Activity.exists_trace_of_run Stage.handler 0
    (mixedEngine.load mixedEntries).evaluateAndCollect.2 Fleet.contested
  rw [hv] at hr
  obtain ⟨performances, -, -, hw, hs, -, hi, -, -⟩ := collects trace report hr
  have polled : ∃ r, ((mixedEngine.load mixedEntries).evaluateAndCollect.2.poll Stage.handler 0
      Fleet.contested).1 = .done r ∧ r.succeeded = 2 ∧ r.failed = 2 ∧ r.idle = 1 ∧
        r.transactions.map (·.context) =
          ["scripted_push #0", "scripted_push #1", "scripted_idle #0", "scripted_idle #1"] :=
    ⟨_, rfl, rfl, rfl, rfl, rfl⟩
  obtain ⟨r, hdone, hsucceeded, hfailed, hidle, hcontexts⟩ := polled
  rw [Activity.run_of_wake (by rfl), hdone, Activity.run_done] at hv
  obtain rfl : r = report := Option.some.inj hv
  exact ⟨onlyPush, waitFree, trace, r, performances, hr, hw, hs ▸ hsucceeded, hfailed, hi ▸ hidle,
    hcontexts⟩

end Rehearsal

end ChainWatch
