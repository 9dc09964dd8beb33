import ChainWatch.Proofs.Concurrency.Places
import ChainWatch.Proofs.Rule.Candidates

/-!
# Sweeps from the list to the outbox

What the outside sees of a sweep is `SweepSpec.Records`: first the list is read, then each place on it
is checked once, so many at a time at most, and then the interface of the target is loaded, if that is
needed. With that and with how it ends, an evaluation is described in full
(`SweepSpec.evaluate_sweeps`).
-/

namespace ChainWatch

open Concurrency RuleContext

namespace SweepSpec

/-! ## The course of an evaluation -/

section Course

variable (spec : SweepSpec) (context : RuleContext)

/-- Load the interface and read the list. -/
def listing : RuleJob (Abi.Contract × List Word) := do
  let contract ← context.loadContract spec.contract
  let outputs ← context.callView spec.contract contract spec.listMethod []
  let ids ← ExceptT.mk (pure (Abi.Value.firstNumbers outputs))
  return (contract, ids)

/-- The checks of the candidates, one for each place on the list. -/
def checks (contract : Abi.Contract) (ids : List Word) : List (Job (Except RuleFault (Word × Bool))) :=
  ids.map fun id => (spec.check context contract id).run

/-- Act on the results of the checks. -/
def settling (contract : Abi.Contract) (box : Outbox)
    (results : List (Except RuleFault (Word × Bool))) : Job (Outbox × Except RuleFault RuleStatus) :=
  let outcome := BatchOutcome.ofResults results
  if outcome.allFailed then return (box, .error (.allChecksFailed outcome.failed))
  else if spec.actor = spec.contract then return spec.act contract (passing outcome) box
  else do
    match ← (context.loadContract spec.actor).run with
    | .error fault => return (box, .error fault)
    | .ok target => return spec.act target (passing outcome) box

/-- Go on with the list. -/
def sweeping (limit : Nat) (box : Outbox) :
    Except RuleFault (Abi.Contract × List Word) → Job (Outbox × Except RuleFault RuleStatus)
  | .error fault => return (box, .error fault)
  | .ok (contract, ids) =>
    if ids.isEmpty then return (box, .ok .noCandidates)
    else Activity.joinBounded limit (spec.checks context contract ids) >>=
      spec.settling context contract box

/-- How an evaluation ends that breaks off before the first check. -/
def brokenOff (box : Outbox) :
    Except RuleFault (Abi.Contract × List Word) → Outbox × Except RuleFault RuleStatus
  | .error fault => (box, .error fault)
  | .ok (_, []) => (box, .ok .noCandidates)
  | .ok (_, _ :: _) => (box, .error .panicked)

/-- What the outside sees of an evaluation: how the list is read; then each check once, from its
beginning to its end, and at no point more of them under way than the limit; and then how the interface
of the target is loaded, if that is needed. -/
structure Records (k : Knowledge) (limit : Nat) (record : Trace system) : Prop where
  unlisted : (∀ contract ids, ¬ spec.Lists k contract ids) →
    ∃ trace fault, (spec.listing context).run.Runs trace (some (.error fault)) ∧
      record = trace.exchanged
  idle : ∀ contract, spec.Lists k contract [] →
    ∃ trace, (spec.listing context).run.Runs trace (some (.ok (contract, []))) ∧
      record = trace.exchanged
  checked : ∀ contract ids, spec.Lists k contract ids → ids ≠ [] →
    ∃ (trace : Trace system) (log : Log system) (closing : Trace system),
      (spec.listing context).run.Runs trace (some (.ok (contract, ids))) ∧
      log.Covers limit (spec.checks context contract ids) (ids.map (spec.checked k contract)) ∧
      (closing = [] ∨
        ∃ outcome, (context.loadContract spec.actor).run.Runs closing (some outcome)) ∧
      record = trace.exchanged ++ log.events.exchanged ++ closing.exchanged

variable {spec context}

/-- With a limit that is too great, an evaluation breaks off where the checks are to begin. -/
theorem evaluate_eq_ite (owner : RuleMeta) (limit : Nat) (box : Outbox) :
    (spec.rule owner limit context).evaluate box =
      (spec.listing context).run >>= fun found =>
        if Batch.maxLimit < limit then pure (brokenOff box found)
        else spec.sweeping context limit box found := by
  -- Both take the same steps, and what fails on the way ends both of them.
  show ((spec.observe limit context).run >>= _) = _
  unfold observe listing
  simp only [ExceptT.run_bind, bind_assoc]
  refine bind_congr fun contract => ?_
  cases contract with
  | error fault => simp [brokenOff, sweeping]
  | ok contract =>
      simp only [bind_assoc]
      refine bind_congr fun outputs => ?_
      cases outputs with
      | error fault => simp [brokenOff, sweeping]
      | ok outputs =>
          simp only [ExceptT.run_mk, pure_bind]
          cases Abi.Value.firstNumbers outputs with
          | error fault => simp [brokenOff, sweeping]
          | ok ids =>
              simp only [ExceptT.run_pure, pure_bind, sweeping]
              cases ids with
              | nil => simp [brokenOff]
              | cons id ids =>
                  simp only [List.isEmpty_cons, Bool.false_eq_true, if_false, Batch.run?]
                  by_cases hmax : Batch.maxLimit < limit
                  · simp only [if_pos hmax]
                    rfl
                  · simp only [if_neg hmax, ExceptT.run_bind, bind_assoc, ExceptT.run_lift,
                      map_eq_pure_bind, pure_bind]
                    refine bind_congr fun results => ?_
                    unfold settling
                    dsimp only
                    split
                    · rfl
                    · split
                      · rfl
                      · simp only [ExceptT.run_bind, bind_assoc]
                        refine bind_congr fun target => ?_
                        cases target <;> rfl

theorem evaluate_eq (owner : RuleMeta) {limit : Nat} (hmax : limit ≤ Batch.maxLimit) (box : Outbox) :
    (spec.rule owner limit context).evaluate box =
      (spec.listing context).run >>= spec.sweeping context limit box := by
  rw [evaluate_eq_ite]
  simp only [if_neg (Nat.not_lt.mpr hmax)]

/-- Acting on the results of the checks takes an interface at most. -/
theorem loads_of_settling {contract : Abi.Contract} {box : Outbox}
    {results : List (Except RuleFault (Word × Bool))} {trace : Trace system}
    {ending : Outbox × Except RuleFault RuleStatus}
    (hr : (spec.settling context contract box results).Runs trace (some ending)) :
    trace = [] ∨ ∃ outcome, (context.loadContract spec.actor).run.Runs trace (some outcome) := by
  unfold settling at hr
  dsimp only at hr
  split at hr
  · exact .inl (Activity.runs_pure_some.mp hr).1
  · split at hr
    · exact .inl (Activity.runs_pure_some.mp hr).1
    · obtain ⟨outcome, early, late, hload, hact, rfl⟩ := Activity.runs_bind_some.mp hr
      have hlate : late = [] := by
        cases outcome with
        | error fault => exact (Activity.runs_pure_some.mp hact).1
        | ok target => exact (Activity.runs_pure_some.mp hact).1
      rw [hlate, List.append_nil]
      exact .inr ⟨outcome, hload⟩

variable {replies : Replies} {abis : AbiTable}

theorem learns_listing :
    context.Learns replies abis (spec.listing context).run
      (spec.listed (context.knowledge replies abis)) := by
  refine yields_exceptT_bind (learns_loadContract _) fun contract _ => ?_
  refine yields_exceptT_bind (context.learns_callView _ contract _ _) fun outputs _ => ?_
  exact yields_exceptT_bind (Activity.yields_pure _) fun ids _ => yields_exceptT_pure _

end Course

end SweepSpec

/-! ## Evaluations that are written down -/

namespace Setting

variable {context : RuleContext} {replies : Replies} {abis : AbiTable}

/-- The same circumstances, and the outside writes down what it is asked and what it answers. -/
def taped (s : Setting replies abis) : Setting replies abis where
  Outside := s.Outside × Trace system
  handler := s.handler.taped
  valid o := s.valid o.1
  quotes := ⟨fun r o => s.quotes.answer r o.1, fun r o => s.quotes.submit r o.1,
    fun r o => s.quotes.settle r o.1⟩
  now := s.now
  world := ⟨s.world.memory, s.world.outside, []⟩
  valid_outside := s.valid_outside
  ne_running := s.ne_running
  abis_eq := s.abis_eq

/-- The run of a job, with an outside that writes down what it is asked and what it answers. -/
def tapedRun (s : Setting replies abis) {α : Type} (p : Job α) :
    Ending system (s.Outside × Trace system) α :=
  p.run s.handler.taped s.now ⟨s.world.memory, s.world.outside, []⟩

theorem tapedRun_map (s : Setting replies abis) {α : Type} {p : Job α} (hp : context.Uses p) :
    (s.tapedRun p).map 0 Prod.fst = p.run s.handler s.now s.world :=
  hp.timeless.run_taped s.now ⟨s.world.memory, s.world.outside, []⟩

/-- The outside still answers by the table, and lookups come to what they came to at first. -/
structure Fits (s : Setting replies abis) (context : RuleContext)
    (w : World system (s.Outside × Trace system)) : Prop where
  valid : s.valid w.outside.1
  agrees : context.explorer.Agrees replies abis w.memory

theorem fits_world (s : Setting replies abis) (context : RuleContext) :
    s.Fits context ⟨s.world.memory, s.world.outside, []⟩ :=
  ⟨s.valid_outside, fun a => by rw [s.abis_eq]⟩

theorem tape_eq {s : Setting replies abis} {trace : Trace system}
    {w w' : World system (s.Outside × Trace system)} (hl : trace.Leads s.handler.taped w w') :
    w'.outside.2 = w.outside.2 ++ trace.exchanged :=
  hl.2.taped.2

/-- What comes to one value comes to it in such circumstances, and leaves them so. -/
theorem Fits.eq {s : Setting replies abis} {α : Type} {p : Job α} {value v : α} {now : Nat}
    {w : World system (s.Outside × Trace system)} (hw : s.Fits context w)
    (hp : context.Learns replies abis p value)
    (hv : (p.run s.handler.taped now w).value? = some v) :
    v = value ∧ s.Fits context (p.run s.handler.taped now w).world := by
  obtain ⟨trace, hr, hl⟩ := Activity.exists_trace_of_run s.handler.taped now p w
  rw [hv] at hr
  have hquotes := s.taped.quotes.trace (s := w.outside) hw.valid hl.2
  obtain ⟨heq, hagrees⟩ := hp.eq hr hquotes hl.1 hw.agrees
  exact ⟨heq, s.taped.quotes.valid_of_served (s := w.outside) hw.valid hl.2, hagrees⟩

/-- What begins with a read and comes to one value does so in every setting. -/
theorem value?_of_learns (s : Setting replies abis) {α : Type} {p : Job α} {value : α}
    (hp : context.StartsWithRead p) (hl : context.Learns replies abis p value) :
    s.value? p = some value := by
  obtain ⟨v, hv⟩ := hp.exists_value s.handler s.now s.world s.ne_running
  obtain ⟨trace, hr, hf, hs⟩ := Activity.exists_trace_of_run s.handler s.now p s.world
  rw [hv] at hr
  have agrees : context.explorer.Agrees replies abis s.world.memory := fun a => by rw [s.abis_eq]
  rw [← (hl.eq hr (s.quotes.trace s.valid_outside hs) hf agrees).1]
  exact hv

end Setting

namespace SweepSpec

open Setting

variable {replies : Replies} {abis : AbiTable}

theorem exists_log_of_sweeping {spec : SweepSpec} {context : RuleContext}
    {s : Setting replies abis} {limit now : Nat} {contract : Abi.Contract} {ids : List Word}
    {box : Outbox} {ending : Outbox × Except RuleFault RuleStatus}
    {w : World system (s.Outside × Trace system)} (hw : s.Fits context w) (hne : ids ≠ [])
    (hv : ((spec.sweeping context limit box (.ok (contract, ids))).run s.handler.taped now w).value? =
      some ending) :
    ∃ (log : Log system) (closing : Trace system),
      log.Covers limit (spec.checks context contract ids)
        (ids.map (spec.checked (context.knowledge replies abis) contract)) ∧
      (closing = [] ∨
        ∃ outcome, (context.loadContract spec.actor).run.Runs closing (some outcome)) ∧
      ((spec.sweeping context limit box (.ok (contract, ids))).run s.handler.taped now
        w).world.outside.2 = w.outside.2 ++ log.events.exchanged ++ closing.exchanged := by
  unfold sweeping at hv ⊢
  simp only [List.isEmpty_eq_false_iff.mpr hne, Bool.false_eq_true, if_false] at hv ⊢
  obtain ⟨results, hresults⟩ := Activity.exists_value_of_bind hv
  have learned : context.Learns replies abis _ _ :=
    Activity.yields_joinBounded limit (spec.learns_checks contract ids)
  obtain ⟨rfl, -⟩ := hw.eq learned hresults
  obtain ⟨log, hlog, hcovers⟩ := Activity.exists_log_of_joinBounded hresults
  rw [Activity.run_bind_of_value hresults] at hv ⊢
  obtain ⟨closing, hr, hclosing⟩ := Activity.exists_trace_of_run s.handler.taped _ _ _
  rw [hv] at hr
  exact ⟨log, closing, hcovers, loads_of_settling hr, by rw [tape_eq hclosing, tape_eq hlog]⟩

theorem records_evaluate (spec : SweepSpec) (owner : RuleMeta) (context : RuleContext)
    (s : Setting replies abis) {limit : Nat} (hpos : 0 < limit) (hmax : limit ≤ Batch.maxLimit)
    (box : Outbox) :
    spec.Records context (context.knowledge replies abis) limit
      (s.tapedRun ((spec.rule owner limit context).evaluate box)).world.outside.2 := by
  obtain ⟨ending, hv⟩ := (spec.startsWithRead_evaluate owner hpos context box).exists_value
    s.handler.taped s.now ⟨s.world.memory, s.world.outside, []⟩ s.ne_running
  unfold tapedRun
  rw [evaluate_eq owner hmax] at hv ⊢
  obtain ⟨found, hfound⟩ := Activity.exists_value_of_bind hv
  obtain ⟨trace, hr, hl⟩ := Activity.exists_trace_of_run s.handler.taped s.now
    (spec.listing context).run ⟨s.world.memory, s.world.outside, []⟩
  obtain ⟨heq, hfits⟩ := (s.fits_world context).eq learns_listing hfound
  have tape := tape_eq hl
  rw [hfound] at hr
  rw [Activity.run_bind_of_value hfound] at hv ⊢
  generalize ((spec.listing context).run.run s.handler.taped s.now _).world = w at hfits tape hv ⊢
  constructor
  · intro hunlisted
    cases found with
    | ok p => exact (hunlisted p.1 p.2 (lists_iff.mpr heq.symm)).elim
    | error fault =>
        refine ⟨trace, fault, hr, ?_⟩
        rw [show spec.sweeping context limit box (.error fault) = .done (box, .error fault) from rfl,
          Activity.run_done]
        exact tape
  · intro contract hlists
    obtain rfl := heq.trans (lists_iff.mp hlists)
    refine ⟨trace, hr, ?_⟩
    rw [show spec.sweeping context limit box (.ok (contract, [])) = .done (box, .ok .noCandidates)
      from rfl, Activity.run_done]
    exact tape
  · intro contract ids hlists hne
    obtain rfl := heq.trans (lists_iff.mp hlists)
    obtain ⟨log, closing, hcovers, hclosing, htape⟩ := exists_log_of_sweeping hfits hne hv
    exact ⟨trace, log, closing, hr, hcovers, hclosing, by rw [htape, tape]; rfl⟩

/-- A sweep in full. In every setting it ends as it must, by what can be learned, and the outside sees
that every place on the list is checked once, with so many checks at most under way at a time. -/
theorem evaluate_sweeps (spec : SweepSpec) (owner : RuleMeta) (context : RuleContext)
    (s : Setting replies abis) {limit : Nat} (hpos : 0 < limit) (hmax : limit ≤ Batch.maxLimit)
    (queue : List OutboundTransaction) :
    let job := (spec.rule owner limit context).evaluate ⟨owner, queue⟩
    ∃ box result, s.value? job = some (box, result) ∧
      spec.Ends (context.knowledge replies abis) owner queue box result ∧
      (s.tapedRun job).map 0 Prod.fst = job.run s.handler s.now s.world ∧
      spec.Records context (context.knowledge replies abis) limit
        (s.tapedRun job).world.outside.2 := by
  have starts := spec.startsWithRead_evaluate owner hpos context ⟨owner, queue⟩
  exact ⟨_, _, s.value?_of_learns starts (spec.learns_evaluate owner hmax _),
    spec.ends_outcome _ owner queue, s.tapedRun_map starts.uses,
    spec.records_evaluate owner context s hpos hmax _⟩

end SweepSpec

/-! ## A list with a number on it twice -/

namespace Setting

/-- The interface of a contract that lists numbers, says of each whether it is due, and acts on one. -/
def rosterText : String :=
  "[\x7b\"type\":\"function\",\"name\":\"ids\",\"inputs\":[]," ++
    "\"outputs\":[\x7b\"type\":\"uint256[]\"\x7d]\x7d," ++
  "\x7b\"type\":\"function\",\"name\":\"due\",\"inputs\":[\x7b\"type\":\"uint256\"\x7d]," ++
    "\"outputs\":[\x7b\"type\":\"bool\"\x7d]\x7d," ++
  "\x7b\"type\":\"function\",\"name\":\"act\",\"inputs\":[\x7b\"type\":\"uint256\"\x7d]," ++
    "\"outputs\":[]\x7d]"

/-- The list is 7, 3, 9 and 7 again. The check of three fails, nine is not due, and seven is. -/
def roster : Replies
  | .chain _ (.call _ data) =>
    let word (last : UInt8) : Bytes := List.replicate 31 0 ++ [last]
    if data.length = 4 then .ok ([32, 4, 7, 3, 9, 7].flatMap word)
    else
      match data.getLast? with
      | some 3 => .error .exchange
      | some 9 => .ok (word 0)
      | _ => .ok (word 1)
  | r => candidates r

def rosterSpec : SweepSpec := ⟨.zero, "ids", "due", "act", none, none⟩

/-- The greater the number, the sooner its check is answered. -/
def hurried : Setting roster ⟨[(.zero, rosterText)]⟩ :=
  delayed _ _ (fun
    | .chain _ (.call _ data) => 20 - (data.getLastD 0).toNat
    | _ => 1) 100 [1]

/-- What can be learned about the numbers. -/
def rosterKnowledge : Knowledge :=
  RuleContext.knowledge ⟨.pair, .absent⟩ roster ⟨[(.zero, rosterText)]⟩

/-- What stamps the transactions. -/
def rosterOwner : RuleMeta := (sweepEntry .null).stamp

theorem roster_known :
    (rosterSpec.listed rosterKnowledge).toOption.map Prod.snd = some [7, 3, 9, 7] ∧
      (rosterSpec.outcome rosterKnowledge ⟨rosterOwner, []⟩).2.toOption = some .completed ∧
      (rosterSpec.outcome rosterKnowledge ⟨rosterOwner, []⟩).1.queue.map (·.context) =
        ["sweep: act id 7", "sweep: act id 7"] := by
  have contract : rosterKnowledge.contract rosterSpec.contract =
      (Abi.Contract.parse? rosterText).elim (.error (.abi .unreadable)) .ok :=
    Knowledge.contract_eq (show rosterKnowledge.proxy .zero = .ok ⟨none⟩ from rfl) rfl
  rewrite [SweepSpec.listed, SweepSpec.outcome, SweepSpec.finding, contract]
  -- `String.toList` is slow to evaluate, so the characters are written out first
  unfold rosterText
  simp only [Abi.Contract.parse?_eq_bind, Json.parse?_eq_bind, String.toList_append]
  repeat rewrite [String.toList_ofList]
  decide +kernel

theorem exists_lists_roster : ∃ contract, rosterSpec.Lists rosterKnowledge contract [7, 3, 9, 7] := by
  obtain ⟨numbers, -, -⟩ := roster_known
  cases hl : rosterSpec.listed rosterKnowledge with
  | error fault =>
      rw [hl] at numbers
      cases numbers
  | ok p =>
      rw [hl] at numbers
      obtain ⟨contract, ids⟩ := p
      obtain rfl : ids = [7, 3, 9, 7] := Option.some.inj numbers
      exact ⟨contract, SweepSpec.lists_iff.mpr hl⟩

theorem sweeps_of_roster : 0 < 2 ∧ 2 ≤ Batch.maxLimit ∧
    ∃ box result contract, hurried.value?
        ((rosterSpec.rule rosterOwner 2 ⟨.pair, .absent⟩).evaluate ⟨rosterOwner, []⟩) =
          some (box, result) ∧
      result.toOption = some .completed ∧
      box.queue.map (·.context) = ["sweep: act id 7", "sweep: act id 7"] ∧
      rosterSpec.Lists rosterKnowledge contract [7, 3, 9, 7] ∧
      ∃ log : Log system, log.Covers 2 (rosterSpec.checks ⟨.pair, .absent⟩ contract [7, 3, 9, 7])
        ([7, 3, 9, 7].map (rosterSpec.checked rosterKnowledge contract)) := by
  have hpos : 0 < 2 := by decide
  have hmax : 2 ≤ Batch.maxLimit := by decide
  obtain ⟨contract, hlists⟩ := exists_lists_roster
  obtain ⟨box, result, hvalue, -, -, hrecords⟩ :=
    rosterSpec.evaluate_sweeps rosterOwner ⟨.pair, .absent⟩ hurried hpos hmax []
  have learned : hurried.value?
      ((rosterSpec.rule rosterOwner 2 ⟨.pair, .absent⟩).evaluate ⟨rosterOwner, []⟩) =
        some (rosterSpec.outcome rosterKnowledge ⟨rosterOwner, []⟩) :=
    hurried.value?_of_learns (rosterSpec.startsWithRead_evaluate rosterOwner hpos _ _)
      (rosterSpec.learns_evaluate rosterOwner hmax _)
  have ended : rosterSpec.outcome rosterKnowledge ⟨rosterOwner, []⟩ = (box, result) :=
    Option.some.inj (learned.symm.trans hvalue)
  obtain ⟨-, known⟩ := roster_known
  rw [ended] at known
  obtain ⟨-, log, -, -, hcovers, -, -⟩ := hrecords.checked contract _ hlists (by simp)
  exact ⟨hpos, hmax, box, result, contract, hvalue, known.1, known.2, hlists, log, hcovers⟩

end Setting

end ChainWatch
