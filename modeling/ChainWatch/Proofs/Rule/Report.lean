import ChainWatch.Proofs.Rule.Findings

/-!
# The report of an evaluation

Where the nodes and the explorer answer by a table, the report of an evaluation is a function of the
rules' plans. It depends neither on delays and schedules nor on health flags nor on how many checks a
sweep runs at a time, and what some rules contribute to it does not depend on the others.
-/

namespace ChainWatch

open Concurrency

/-! ## Reports side by side -/

namespace CycleReport

instance : Append CycleReport where
  append a b :=
    { succeeded := a.succeeded + b.succeeded
      failed := a.failed + b.failed
      idle := a.idle + b.idle
      transactions := a.transactions ++ b.transactions }

theorem append_def (a b : CycleReport) : a ++ b = ⟨a.succeeded + b.succeeded, a.failed + b.failed,
    a.idle + b.idle, a.transactions ++ b.transactions⟩ :=
  rfl

@[simp] theorem empty_append (a : CycleReport) : empty ++ a = a := by
  simp [append_def, empty]

@[simp] theorem append_empty (a : CycleReport) : a ++ empty = a := by
  simp [append_def, empty]

theorem append_assoc (a b c : CycleReport) : a ++ b ++ c = a ++ (b ++ c) := by
  simp [append_def, Nat.add_assoc]

theorem add_eq_append (report : CycleReport) (outcome : Outbox × Except RuleFault RuleStatus) :
    report.add outcome = report ++ empty.add outcome := by
  obtain ⟨box, _ | status⟩ := outcome
  · simp [add, append_def, empty]
  · cases status <;> simp [add, append_def, empty, Outbox.drainInto]

theorem foldl_add (outcomes : List (Outbox × Except RuleFault RuleStatus)) (report : CycleReport) :
    outcomes.foldl add report = report ++ ofOutcomes outcomes := by
  induction outcomes generalizing report with
  | nil => exact (append_empty report).symm
  | cons outcome outcomes ih =>
      rw [ofOutcomes, List.foldl_cons, List.foldl_cons, ih, ih (empty.add outcome),
        add_eq_append report, append_assoc]

theorem ofOutcomes_append (a b : List (Outbox × Except RuleFault RuleStatus)) :
    ofOutcomes (a ++ b) = ofOutcomes a ++ ofOutcomes b := by
  rw [ofOutcomes, List.foldl_append, foldl_add b]
  rfl

end CycleReport

/-! ## Plans -/

namespace SweepSpec

theorem act_uncapped (spec : SweepSpec) (c : Option Nat) (target : Abi.Contract) (ids : List Word)
    (box : Outbox) :
    act { spec with concurrency := c } target ids box = spec.act target ids box := by
  induction ids generalizing box with
  | nil => rfl
  | cons id ids ih =>
      unfold act
      cases target.encodeAction spec.action id with
      | error fault => rfl
      | ok data => exact ih _

/-- How many checks run at a time makes no difference to how the rule ends. -/
theorem outcome_uncapped (spec : SweepSpec) (c : Option Nat) (k : Knowledge) (box : Outbox) :
    outcome { spec with concurrency := c } k box = spec.outcome k box := by
  unfold outcome
  rw [show finding { spec with concurrency := c } k = spec.finding k from rfl]
  match spec.finding k with
  | .error fault => rfl
  | .ok none => rfl
  | .ok (some (ids, target)) => exact spec.act_uncapped c target ids box

end SweepSpec

/-- What a rule is to do. It does not say how many checks a sweep runs at a time. -/
inductive RulePlan where
  | threshold (spec : ThresholdSpec)
  | sweep (spec : SweepSpec)
  deriving DecidableEq

/-- How a rule with such a plan ends with its outbox, by what can be learned. -/
def RulePlan.outcome (k : Knowledge) : RulePlan → Outbox → Outbox × Except RuleFault RuleStatus
  | threshold spec => spec.outcome k
  | sweep spec => spec.outcome k

namespace RuleEntry

/-- The stamp and the plan of the rule that is built from the entry, if one is. -/
def plan? (entry : RuleEntry) : Option (RuleMeta × RulePlan) :=
  match RuleKind.ofName? entry.kind with
  | none => none
  | some .viewThreshold =>
    (ThresholdSpec.ofJson? entry.params).map fun spec => (entry.stamp, .threshold spec)
  | some .positionSweep =>
    (SweepSpec.ofJson? entry.params).map fun spec =>
      (entry.stamp, .sweep { spec with concurrency := none })

/-- How many checks the rule runs at a time when it is built with a default; zero if it is no sweep. -/
def ceiling (entry : RuleEntry) (defaultLimit : Nat) : Nat :=
  match RuleKind.ofName? entry.kind, SweepSpec.ofJson? entry.params with
  | some .positionSweep, some spec => Batch.limit (spec.concurrency.getD defaultLimit)
  | _, _ => 0

end RuleEntry

/-- The report on rules with such stamps and plans, by what can be learned. -/
def Knowledge.report (k : Knowledge) (plans : List (RuleMeta × RulePlan)) : CycleReport :=
  .ofOutcomes (plans.map fun p => p.2.outcome k (.empty p.1))

theorem Knowledge.report_append (k : Knowledge) (a b : List (RuleMeta × RulePlan)) :
    k.report (a ++ b) = k.report a ++ k.report b := by
  rw [report, List.map_append, CycleReport.ofOutcomes_append]
  rfl

/-! ## Rules that follow their plans -/

section Evaluations

open RuleContext

variable {context : RuleContext} {replies : Replies} {abis : AbiTable} {defaultLimit : Nat}

/-- A rule is built from an entry with a plan, and it does what the plan says. -/
theorem RuleFactory.learns_of_standard {entry : RuleEntry}
    (hc : entry.ceiling defaultLimit ≤ Batch.maxLimit) :
    (∃ fault, RuleFactory.standard context defaultLimit entry = .error fault ∧ entry.plan? = none) ∨
      ∃ rule plan, RuleFactory.standard context defaultLimit entry = .ok rule ∧
        entry.plan? = some plan ∧ context.Learns replies abis (rule.evaluate (.empty rule.owner))
          (plan.2.outcome (context.knowledge replies abis) (.empty plan.1)) := by
  unfold RuleFactory.standard RuleEntry.plan?
  cases hk : RuleKind.ofName? entry.kind with
  | none => exact .inl ⟨_, rfl, rfl⟩
  | some kind =>
      cases kind with
      | viewThreshold =>
          cases ThresholdSpec.ofJson? entry.params with
          | none => exact .inl ⟨_, rfl, rfl⟩
          | some spec => exact .inr ⟨_, _, rfl, rfl, spec.learns_evaluate entry.stamp _⟩
      | positionSweep =>
          cases hs : SweepSpec.ofJson? entry.params with
          | none => exact .inl ⟨_, rfl, rfl⟩
          | some spec =>
              rw [RuleEntry.ceiling, hk, hs] at hc
              refine .inr ⟨_, _, rfl, rfl, ?_⟩
              rw [RulePlan.outcome, SweepSpec.outcome_uncapped]
              exact spec.learns_evaluate entry.stamp hc (.empty entry.stamp)

theorem RuleFactory.load_cons_of_error {factory : RuleFactory} {entry : RuleEntry}
    {entries : List RuleEntry} {fault : FactoryFault} (h : factory entry = .error fault) :
    factory.load (entry :: entries) = factory.load entries :=
  List.filterMap_cons_none (by rw [h]; rfl)

theorem RuleFactory.load_cons_of_ok {factory : RuleFactory} {entry : RuleEntry}
    {entries : List RuleEntry} {rule : Rule} (h : factory entry = .ok rule) :
    factory.load (entry :: entries) = rule :: factory.load entries :=
  List.filterMap_cons_some (by rw [h]; rfl)

theorem RuleFactory.learns_load {entries : List RuleEntry}
    (hc : ∀ entry ∈ entries, entry.ceiling defaultLimit ≤ Batch.maxLimit) :
    List.Forall₂ (context.Learns replies abis)
      (((RuleFactory.standard context defaultLimit).load entries).map
        fun rule => rule.evaluate (.empty rule.owner))
      ((entries.filterMap RuleEntry.plan?).map
        fun p => p.2.outcome (context.knowledge replies abis) (.empty p.1)) := by
  induction entries with
  | nil => exact .nil
  | cons entry entries ih =>
      obtain ⟨hentry, hentries⟩ := List.forall_mem_cons.mp hc
      rcases learns_of_standard hentry with ⟨fault, hb, hp⟩ | ⟨rule, plan, hb, hp, hl⟩
      · rw [load_cons_of_error hb, List.filterMap_cons_none hp]
        exact ih hentries
      · rw [load_cons_of_ok hb, List.filterMap_cons_some hp]
        exact .cons hl (ih hentries)

/-- The report of an evaluation is that on its plans. -/
theorem learns_evaluateAll {entries : List RuleEntry}
    (hc : ∀ entry ∈ entries, entry.ceiling defaultLimit ≤ Batch.maxLimit) :
    context.Learns replies abis
      (Rule.evaluateAll ((RuleFactory.standard context defaultLimit).load entries))
      ((context.knowledge replies abis).report (entries.filterMap RuleEntry.plan?)) :=
  (Activity.yields_joinAll (RuleFactory.learns_load hc)).bind (Activity.yields_pure _)

end Evaluations

/-! ## Evaluations in settings -/

/-- The circumstances of an evaluation: who answers, and after which delays; the moment at which it
begins; the health flags and the chain source in the memory. The nodes and the explorer answer by the
table, these interfaces are known, and nobody else is busy with the start of the fleet. -/
structure Setting (replies : Replies) (abis : AbiTable) where
  Outside : Type
  handler : Handler system Outside
  valid : Outside → Prop
  quotes : handler.Quotes Request.IsInquiry replies valid
  now : Nat
  world : World system Outside
  valid_outside : valid world.outside
  ne_running : world.memory.start ≠ .running
  abis_eq : world.memory.abis = abis

/-- What a job comes to in a setting. -/
def Setting.value? {replies : Replies} {abis : AbiTable} {α : Type} (s : Setting replies abis)
    (p : Job α) : Option α :=
  (p.run s.handler s.now s.world).value?

/-- The evaluation of the rules that are built from some entries. -/
def RuleContext.evaluation (context : RuleContext) (defaultLimit : Nat) (entries : List RuleEntry) :
    Job CycleReport :=
  ((RuleEngine.new (.standard context defaultLimit)).load entries).evaluateAndCollect.2

section Settings

variable {context : RuleContext} {replies : Replies} {abis : AbiTable} {defaultLimit : Nat}
  {entries : List RuleEntry}

theorem eq_report_of_runs {trace : Trace system} {report : CycleReport} {m m' : State}
    (hc : ∀ entry ∈ entries, entry.ceiling defaultLimit ≤ Batch.maxLimit)
    (hr : (context.evaluation defaultLimit entries).Runs trace (some report))
    (hf : trace.Follows id m m') (hq : trace.Quotes Request.IsInquiry replies)
    (hm : m.abis = abis) :
    report = (context.knowledge replies abis).report (entries.filterMap RuleEntry.plan?) := by
  refine ((learns_evaluateAll hc).eq hr hq hf ?_).1
  intro a
  rw [hm]

/-- In every setting the evaluation comes to the report on its plans. -/
theorem Setting.value?_evaluation (s : Setting replies abis)
    (hc : ∀ entry ∈ entries, entry.ceiling defaultLimit ≤ Batch.maxLimit) :
    s.value? (context.evaluation defaultLimit entries) =
      some ((context.knowledge replies abis).report (entries.filterMap RuleEntry.plan?)) := by
  obtain ⟨report, hv⟩ : ∃ report, s.value? (context.evaluation defaultLimit entries) = some report :=
    (Rule.exists_report_of_suits (RuleFactory.suits_load context defaultLimit entries)
      s.handler s.now s.world s.ne_running).1
  obtain ⟨trace, hr, hf, hs⟩ := Activity.exists_trace_of_run s.handler s.now
    (context.evaluation defaultLimit entries) s.world
  rw [show (Activity.run ..).value? = some report from hv] at hr
  rw [hv, eq_report_of_runs hc hr hf (s.quotes.trace s.valid_outside hs) s.abis_eq]

end Settings

namespace RuleEngine

/-- Two evaluations of rules with the same plans come to the same report, whatever their settings are
and however many checks their sweeps run at a time; so does every other interleaving. The report on a
list of entries that is made up of two is made up of the reports on these. -/
theorem report_unaffected (context : RuleContext) {replies : Replies} {abis : AbiTable}
    (s s' : Setting replies abis) {entries entries' : List RuleEntry} {limit limit' : Nat}
    (hp : entries.filterMap RuleEntry.plan? = entries'.filterMap RuleEntry.plan?)
    (hc : ∀ entry ∈ entries, entry.ceiling limit ≤ Batch.maxLimit)
    (hc' : ∀ entry ∈ entries', entry.ceiling limit' ≤ Batch.maxLimit) :
    ∃ report, s.value? (context.evaluation limit entries) = some report ∧
      s'.value? (context.evaluation limit' entries') = some report ∧
      (∀ trace other m m', (context.evaluation limit entries).Runs trace (some other) →
        trace.Follows id m m' → m.abis = abis → trace.Quotes Request.IsInquiry replies →
          other = report) ∧
      ∀ a b, entries = a ++ b → ∃ ra rb, s.value? (context.evaluation limit a) = some ra ∧
        s.value? (context.evaluation limit b) = some rb ∧
        report.succeeded = ra.succeeded + rb.succeeded ∧
        report.failed = ra.failed + rb.failed ∧ report.idle = ra.idle + rb.idle ∧
        report.transactions = ra.transactions ++ rb.transactions := by
  refine ⟨_, s.value?_evaluation hc, hp ▸ s'.value?_evaluation hc',
    fun trace other m m' hr hf hm hq => eq_report_of_runs hc hr hf hq hm, ?_⟩
  rintro a b rfl
  obtain ⟨ha, hb⟩ := List.forall_mem_append.mp hc
  refine ⟨_, _, s.value?_evaluation ha, s.value?_evaluation hb, ?_⟩
  rw [List.filterMap_append, Knowledge.report_append]
  exact ⟨rfl, rfl, rfl, rfl⟩

end RuleEngine

/-! ## A sweep over one candidate -/

namespace Setting

/-- All nodes answer by the table, each request after its own delay; these nodes are flagged as down. -/
def delayed (replies : Replies) (abis : AbiTable) (delay : Request → Nat) (now : Nat)
    (down : List Nat) : Setting replies abis where
  Outside := Unit
  handler := .ofReplies delay replies
  valid _ := True
  quotes := Handler.quotes_ofReplies delay _ replies
  now
  world := ⟨⟨down, "", .idle, abis⟩, ()⟩
  valid_outside := trivial
  ne_running := nofun
  abis_eq := rfl

/-- The interface of a contract that lists numbers and says of each whether it is due. -/
def dueText : String :=
  "[\x7b\"type\":\"function\",\"name\":\"ids\",\"inputs\":[]," ++
    "\"outputs\":[\x7b\"type\":\"uint256[]\"\x7d]\x7d," ++
  "\x7b\"type\":\"function\",\"name\":\"due\",\"inputs\":[\x7b\"type\":\"uint256\"\x7d]," ++
    "\"outputs\":[\x7b\"type\":\"bool\"\x7d]\x7d," ++
  "\x7b\"type\":\"function\",\"name\":\"act\",\"inputs\":[],\"outputs\":[]\x7d]"

def duties : AbiTable := ⟨[(.zero, dueText)]⟩

/-- Calls without inputs are answered with the list of the number three alone, all others with yes. -/
def candidates : Replies
  | .chain _ .blockNumber => .ok 7
  | .chain _ (.call _ data) =>
    let word (last : UInt8) : Bytes := List.replicate 31 0 ++ [last]
    .ok (if data.length = 4 then word 32 ++ word 1 ++ word 3 else word 1)
  | .chain _ (.storage _ _) => .ok 0
  | .chain _ (.reset _) => .ok ()
  | .container _ _ => .error .unavailable
  | .explore _ => .unreachable
  | .deliver _ => .ok ()
  | .enqueue _ => .ok ()

def sweepEntry (concurrency : Json) : RuleEntry :=
  ⟨"position_sweep", "sweep", .high, "executor", 60,
    .object [("contract", .string "0x0000000000000000000000000000000000000000"),
      ("list_method", .string "ids"), ("check_method", .string "due"), ("action", .string "act"),
      ("concurrency", concurrency)]⟩

/-- A rule that fails, since what it reads is no number. -/
def thresholdEntry : RuleEntry :=
  ⟨"view_threshold", "threshold", .low, "executor", 60,
    .object [("contract", .string "0x0000000000000000000000000000000000000000"),
      ("method", .string "ids"), ("threshold", .ofNat 5), ("action", .string "act")]⟩

/-- At once, with all nodes healthy. -/
def prompt : Setting candidates duties := delayed _ _ (fun _ => 0) 0 []

/-- Later, the checks last, with both nodes flagged as down. -/
def late : Setting candidates duties :=
  delayed _ _ (fun | .chain position (.call _ data) => 10 * data.length + position | _ => 1) 100 [0, 1]

/-- What the two rules come to. -/
def dutyReport : CycleReport :=
  (RuleContext.knowledge ⟨.pair, .absent⟩ candidates duties).report
    ([sweepEntry .null, thresholdEntry].filterMap RuleEntry.plan?)

set_option maxRecDepth 8000 in
theorem report_of_candidates :
    ∃ report, prompt.value? (RuleContext.evaluation ⟨.pair, .absent⟩ 8
        [sweepEntry .null, thresholdEntry]) = some report ∧
      late.value? (RuleContext.evaluation ⟨.pair, .absent⟩ 1
        [sweepEntry (.ofNat 2), thresholdEntry]) = some report ∧
      report.succeeded = 1 ∧ report.failed = 1 ∧
      report.transactions.map (·.context) = ["sweep: act id 3"] := by
  have plans : [sweepEntry .null, thresholdEntry].filterMap RuleEntry.plan? =
      [sweepEntry (.ofNat 2), thresholdEntry].filterMap RuleEntry.plan? := by decide +kernel
  have fits : ∀ entry ∈ [sweepEntry .null, thresholdEntry], entry.ceiling 8 ≤ Batch.maxLimit := by
    decide +kernel
  have fits' : ∀ entry ∈ [sweepEntry (.ofNat 2), thresholdEntry],
      entry.ceiling 1 ≤ Batch.maxLimit := by
    decide +kernel
  obtain ⟨report, hprompt, hlate, -, -⟩ :=
    RuleEngine.report_unaffected ⟨.pair, .absent⟩ prompt late plans fits fits'
  have value : report = dutyReport :=
    Option.some.inj (hprompt.symm.trans (prompt.value?_evaluation fits))
  have known : dutyReport.succeeded = 1 ∧ dutyReport.failed = 1 ∧
      dutyReport.transactions.map (·.context) = ["sweep: act id 3"] := by
    decide +kernel
  exact ⟨report, hprompt, hlate, value ▸ known⟩

end Setting

end ChainWatch
