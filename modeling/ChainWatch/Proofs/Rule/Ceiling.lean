import ChainWatch.Proofs.Config.Build
import ChainWatch.Proofs.Rule.Sweeping

/-!
# Ceilings

A sweep asks for a number of checks at a time, and zero is raised to one. There is an upper bound as
well, `Batch.maxLimit`, to which nothing is lowered. Up to it every batch accounts for all its tasks, and
no rule breaks off. Beyond it no batch begins, and every sweep that has listed a candidate breaks off.
-/

namespace ChainWatch

open Concurrency

/-! ## Batches -/

namespace Batch

variable {I : Interface} {ε α : Type} {requested : Nat} {tasks : List (Activity I (Except ε α))}

/-- The outcome is made up of one result for each task, to which the task has come. -/
def Accounts (tasks : List (Activity I (Except ε α))) (outcome : BatchOutcome α) : Prop :=
  ∃ results, List.Forall₂ (fun task result => ∃ trace, task.Runs trace (some result)) tasks results ∧
    outcome = .ofResults results

theorem Accounts.total_eq {outcome : BatchOutcome α} (h : Accounts tasks outcome) :
    outcome.total = tasks.length := by
  obtain ⟨results, hresults, rfl⟩ := h
  rw [BatchOutcome.total_ofResults, hresults.length_eq]

theorem limit_le_maxLimit (h : requested ≤ maxLimit) : limit requested ≤ maxLimit :=
  Nat.max_le.mpr ⟨by decide, h⟩

theorem maxLimit_lt_limit (h : maxLimit < requested) : maxLimit < limit requested :=
  Nat.lt_of_lt_of_le h (Nat.le_max_right 1 requested)

/-- Members side by side come each to a result. -/
theorem forall₂_runs_of_ofList {members : List (Activity I α)} {trace : Trace I} {values : List α}
    (h : (Crew.ofList members).Runs trace (some values)) :
    List.Forall₂ (fun member value => ∃ trace, member.Runs trace (some value)) members values := by
  rw [← List.map_id members] at h
  obtain ⟨shares, rfl, hruns, -, hvalues⟩ := Crew.runs_ofList_map.mp h
  have results : shares.map (·.result) = values.map some := collect_eq_some.mp hvalues.symm
  have did : List.Forall₂ (fun member result => ∃ trace, member.Runs trace result)
      (shares.map (·.member)) (shares.map (·.result)) :=
    List.forall₂_map_left_iff.mpr <| List.forall₂_map_right_iff.mpr <|
      List.forall₂_same.mpr fun s hs => ⟨s.trace, hruns s hs⟩
  rw [results] at did
  exact List.forall₂_map_right_iff.mp did

theorem accounts_of_runs {limit : Nat} (hmax : limit ≤ maxLimit) {trace : Trace I}
    {result : Option (BatchOutcome α)} (hr : (run? limit tasks).Runs trace (some result)) :
    ∃ outcome, result = some outcome ∧ Accounts tasks outcome := by
  unfold run? at hr
  rw [if_neg (Nat.not_lt.mpr hmax)] at hr
  obtain ⟨results, early, late, hj, hp, rfl⟩ := Activity.runs_bind_some.mp hr
  obtain ⟨-, rfl⟩ := Activity.runs_pure_some.mp hp
  exact ⟨_, rfl, results, forall₂_runs_of_ofList (Activity.runs_joinBounded_some.mp hj), rfl⟩

/-- A batch ends if its tasks wait for nobody. -/
theorem exists_outcome_of_waitFree {σ : Type} (hmax : requested ≤ maxLimit)
    (ht : ∀ task ∈ tasks, task.WaitFree) (h : Handler I σ) (now : Nat) (w : World I σ) :
    ∃ outcome, ((run? (limit requested) tasks).run h now w).value? = some (some outcome) := by
  have waitFree : (run? (limit requested) tasks).WaitFree := by
    unfold run?
    rw [if_neg (Nat.not_lt.mpr (limit_le_maxLimit hmax))]
    exact (Activity.confined_joinBounded (limit_pos requested) ht).bind fun _ =>
      Activity.confined_pure _
  obtain ⟨result, hv⟩ := Activity.exists_value_of_waitFree h now _ w waitFree
  obtain ⟨trace, hr, -⟩ := Activity.exists_trace_of_run h now (run? (limit requested) tasks) w
  rw [hv] at hr
  obtain ⟨outcome, rfl, -⟩ := accounts_of_runs (limit_le_maxLimit hmax) hr
  exact ⟨outcome, hv⟩

theorem run?_of_maxLimit_lt {limit : Nat} (h : maxLimit < limit) : run? limit tasks = pure none :=
  if_pos h

end Batch

/-! ## Jobs that do not break off -/

/-- The job may fail, but it does not break off. -/
def RuleFault.Spares {α : Type} (job : RuleJob α) : Prop :=
  ∀ trace, ¬ job.run.Runs trace (some (.error .panicked))

namespace RuleFault

variable {α β : Type} {job : RuleJob α} {f : α → RuleJob β}

theorem spares_pure (value : α) : Spares (pure value : RuleJob α) := by
  intro trace hr
  cases (runs_exceptT_pure_some.mp hr).2

theorem spares_throw {fault : RuleFault} (h : fault ≠ .panicked) :
    Spares (throw fault : RuleJob α) := by
  intro trace hr
  exact h (Except.error.inj (runs_throw_some.mp hr).2).symm

theorem spares_given {given : Except RuleFault α} (h : given ≠ .error .panicked) :
    Spares (ExceptT.mk (pure given) : RuleJob α) := by
  intro trace hr
  exact h (Activity.runs_pure_some.mp hr).2.symm

theorem spares_bind (hj : Spares job)
    (hf : ∀ value trace, job.run.Runs trace (some (.ok value)) → Spares (f value)) :
    Spares (job >>= f) := by
  intro trace hr
  rcases runs_exceptT_bind_some.mp hr with ⟨fault, he, h⟩ | ⟨value, early, late, hv, hl, -⟩
  · obtain rfl := Except.error.inj h
    exact hj trace he
  · exact hf value early hv late hl

theorem spares_adapt {ε : Type} {x : ExceptT ε Job α} {g : ε → RuleFault} (hg : ∀ e, g e ≠ .panicked) :
    Spares (x.adapt g) := by
  intro trace hr
  obtain ⟨e, -, h⟩ := runs_adapt_error.mp hr
  exact hg e h.symm

theorem spares_lift (work : Job α) : Spares (ExceptT.lift work : RuleJob α) := by
  intro trace hr
  obtain ⟨value, -, h⟩ := runs_lift_some.mp hr
  cases h

/-- An evaluation that passes on the faults of what it observes does not break off when that does not. -/
theorem ne_panicked_of_spares {box : Outbox} {trace : Trace system}
    {conclude : Except RuleFault α → Job (Outbox × Except RuleFault RuleStatus)}
    {ending : Outbox × Except RuleFault RuleStatus} (hj : Spares job)
    (hf : ∀ fault, conclude (.error fault) = pure (box, .error fault))
    (hc : ∀ value, ∃ concluded, conclude (.ok value) = pure concluded ∧ concluded.2 ≠ .error .panicked)
    (hr : (job.run >>= conclude).Runs trace (some ending)) : ending.2 ≠ .error .panicked := by
  obtain ⟨found, early, late, hobserve, hl, -⟩ := Activity.runs_bind_some.mp hr
  cases found with
  | error fault =>
      rw [hf] at hl
      obtain ⟨-, rfl⟩ := Activity.runs_pure_some.mp hl
      intro h
      obtain rfl := Except.error.inj h
      exact hj early hobserve
  | ok value =>
      obtain ⟨concluded, hconcluded, hne⟩ := hc value
      rw [hconcluded] at hl
      obtain ⟨-, rfl⟩ := Activity.runs_pure_some.mp hl
      exact hne

end RuleFault

open RuleFault

variable {context : RuleContext}

theorem RuleContext.spares_callView (address : Address) (contract : Abi.Contract) (method : String)
    (inputs : List Abi.Value) : Spares (context.callView address contract method inputs) :=
  spares_adapt fun _ => nofun

theorem RuleContext.spares_loadContract (a : Address) : Spares (context.loadContract a) := by
  refine spares_bind (spares_adapt fun _ => nofun) fun info _ _ => ?_
  refine spares_bind (spares_adapt fun _ => nofun) fun text _ _ => ?_
  split
  · exact spares_pure _
  · exact spares_throw nofun

theorem RuleContext.spares_acting {α : Type} {contract : Abi.Contract} {here actor : Address}
    {act : Abi.Contract → RuleJob α} (ha : ∀ target, Spares (act target)) :
    Spares (if actor = here then do
        let target ← pure contract
        act target
      else do
        let target ← context.loadContract actor
        act target) := by
  split
  · exact spares_bind (spares_pure _) fun target _ _ => ha target
  · exact spares_bind (context.spares_loadContract actor) fun target _ _ => ha target

namespace Abi

theorem Value.firstNumber_ne_panicked (outputs : List Value) :
    firstNumber outputs ≠ .error .panicked := by
  unfold firstNumber
  split <;> exact nofun

theorem Value.mapM_itemNumber_ne_panicked (items : List Value) :
    items.mapM itemNumber ≠ .error .panicked := by
  induction items with
  | nil => exact nofun
  | cons item items ih =>
      rw [List.mapM_cons]
      cases item with
      | uint id bits =>
          cases hm : items.mapM itemNumber with
          | error fault =>
              rw [hm] at ih
              exact fun h => ih (congrArg _ (Except.error.inj h))
          | ok ids => exact nofun
      | _ => exact nofun

theorem Value.firstNumbers_ne_panicked (outputs : List Value) :
    firstNumbers outputs ≠ .error .panicked := by
  unfold firstNumbers
  split
  · exact mapM_itemNumber_ne_panicked _
  · exact nofun

theorem Contract.encodeAction_ne_panicked (contract : Contract) (method : String) (v : Word) :
    contract.encodeAction method v ≠ .error .panicked := by
  unfold encodeAction
  split
  · exact nofun
  · dsimp only
    split <;> exact nofun

end Abi

theorem ThresholdSpec.spares_observe (spec : ThresholdSpec) : Spares (spec.observe context) := by
  refine spares_bind (RuleContext.spares_loadContract _) fun contract _ _ => ?_
  refine spares_bind (RuleContext.spares_callView _ _ _ _) fun outputs _ _ => ?_
  refine spares_bind (spares_given (Abi.Value.firstNumber_ne_panicked outputs)) fun value _ _ => ?_
  dsimp only
  split
  · exact spares_pure _
  · refine RuleContext.spares_acting fun target => ?_
    exact spares_bind (spares_given (target.encodeAction_ne_panicked _ _)) fun _ _ _ => spares_pure _

namespace SweepSpec

variable {spec : SweepSpec} {limit : Nat}

theorem spares_observe (hmax : limit ≤ Batch.maxLimit) : Spares (spec.observe limit context) := by
  refine spares_bind (RuleContext.spares_loadContract _) fun contract _ _ => ?_
  refine spares_bind (RuleContext.spares_callView _ _ _ _) fun outputs _ _ => ?_
  refine spares_bind (spares_given (Abi.Value.firstNumbers_ne_panicked outputs)) fun ids _ _ => ?_
  dsimp only
  split
  · exact spares_pure _
  · refine spares_bind (spares_lift _) fun result trace hr => ?_
    obtain ⟨result, hbatch, h⟩ := runs_lift_some.mp hr
    obtain rfl := Except.ok.inj h
    obtain ⟨outcome, rfl, -⟩ := Batch.accounts_of_runs hmax hbatch
    dsimp only
    split
    · exact spares_bind (spares_throw nofun) fun _ _ _ =>
        RuleContext.spares_acting fun _ => spares_pure _
    · exact RuleContext.spares_acting fun _ => spares_pure _

theorem act_ne_panicked (target : Abi.Contract) (ids : List Word) (box : Outbox) :
    (spec.act target ids box).2 ≠ .error .panicked := by
  induction ids generalizing box with
  | nil => exact nofun
  | cons id ids ih =>
      unfold act
      cases hd : target.encodeAction spec.action id with
      | error fault =>
          have encoded := target.encodeAction_ne_panicked spec.action id
          rw [hd] at encoded
          exact fun h => encoded (congrArg _ (Except.error.inj h))
      | ok data => exact ih _

/-- Up to the upper bound a sweep does not break off. -/
theorem evaluate_ne_panicked (owner : RuleMeta) (hmax : limit ≤ Batch.maxLimit) {box : Outbox}
    {trace : Trace system} {ending : Outbox × Except RuleFault RuleStatus}
    (hr : ((spec.rule owner limit context).evaluate box).Runs trace (some ending)) :
    ending.2 ≠ .error .panicked := by
  refine ne_panicked_of_spares (spares_observe hmax) (fun _ => rfl) (fun value => ?_) hr
  match value with
  | none => exact ⟨_, rfl, nofun⟩
  | some (ids, target) => exact ⟨_, rfl, act_ne_panicked target ids box⟩

/-- Beyond the upper bound a sweep lists its candidates and checks none of them. -/
theorem runs_evaluate_of_maxLimit_lt (owner : RuleMeta) (h : Batch.maxLimit < limit) {box : Outbox}
    {trace : Trace system} {ending : Outbox × Except RuleFault RuleStatus} :
    ((spec.rule owner limit context).evaluate box).Runs trace (some ending) ↔
      ∃ found, (spec.listing context).run.Runs trace (some found) ∧ ending = brokenOff box found := by
  rw [evaluate_eq_ite]
  simp only [if_pos h]
  rw [Activity.runs_bind_some]
  constructor
  · rintro ⟨found, early, late, hlist, hl, rfl⟩
    obtain ⟨rfl, rfl⟩ := Activity.runs_pure_some.mp hl
    exact ⟨found, by rwa [List.append_nil], rfl⟩
  · rintro ⟨found, hlist, rfl⟩
    exact ⟨found, trace, [], hlist, Activity.runs_pure_some.mpr ⟨rfl, rfl⟩, by simp⟩

/-- What a sweep up to the upper bound comes to by what can be learned. -/
theorem value?_of_le_maxLimit (spec : SweepSpec) {replies : Replies} {abis : AbiTable}
    (s : Setting replies abis) (owner : RuleMeta) {requested : Nat} (h : requested ≤ Batch.maxLimit)
    (box : Outbox) :
    s.value? ((spec.rule owner (Batch.limit requested) context).evaluate box) =
      some (spec.outcome (context.knowledge replies abis) box) :=
  s.value?_of_learns (spec.startsWithRead_evaluate owner (Batch.limit_pos requested) context box)
    (spec.learns_evaluate owner (Batch.limit_le_maxLimit h) box)

/-- What a sweep beyond the upper bound comes to by what can be learned. -/
theorem value?_of_maxLimit_lt {replies : Replies} {abis : AbiTable} (s : Setting replies abis)
    (owner : RuleMeta) (h : Batch.maxLimit < limit) (box : Outbox) :
    s.value? ((spec.rule owner limit context).evaluate box) =
      some (brokenOff box (spec.listed (context.knowledge replies abis))) := by
  refine s.value?_of_learns (spec.startsWithRead_evaluate owner (Nat.zero_lt_of_lt h) context box) ?_
  rw [evaluate_eq_ite]
  simp only [if_pos h]
  exact learns_listing.bind (Activity.yields_pure _)

end SweepSpec

theorem ThresholdSpec.evaluate_ne_panicked (spec : ThresholdSpec) (owner : RuleMeta) {box : Outbox}
    {trace : Trace system} {ending : Outbox × Except RuleFault RuleStatus}
    (hr : ((spec.rule owner context).evaluate box).Runs trace (some ending)) :
    ending.2 ≠ .error .panicked := by
  refine ne_panicked_of_spares spec.spares_observe (fun _ => rfl) (fun value => ?_) hr
  match value with
  | none => exact ⟨_, rfl, nofun⟩
  | some (value, data) => exact ⟨_, rfl, nofun⟩

/-! ## Rules that are built from entries -/

/-- A rule that is built watches for a threshold, or it sweeps with the ceiling of its entry. -/
theorem RuleFactory.cases_of_standard {defaultLimit : Nat} {entry : RuleEntry} {rule : Rule}
    (hb : RuleFactory.standard context defaultLimit entry = .ok rule) :
    (entry.ceiling defaultLimit = 0 ∧
      ∃ spec : ThresholdSpec, rule = spec.rule entry.stamp context) ∨
      ∃ spec, SweepSpec.ofJson? entry.params = some spec ∧
        entry.ceiling defaultLimit = Batch.limit (spec.concurrency.getD defaultLimit) ∧
        rule = spec.rule entry.stamp (entry.ceiling defaultLimit) context := by
  unfold RuleFactory.standard at hb
  unfold RuleEntry.ceiling
  cases hk : RuleKind.ofName? entry.kind with
  | none =>
      rw [hk] at hb
      cases hb
  | some kind =>
      rw [hk] at hb
      cases kind with
      | viewThreshold =>
          cases hs : ThresholdSpec.ofJson? entry.params with
          | none =>
              rw [hs] at hb
              cases hb
          | some spec =>
              rw [hs] at hb
              exact .inl ⟨rfl, spec, (Except.ok.inj hb).symm⟩
      | positionSweep =>
          cases hs : SweepSpec.ofJson? entry.params with
          | none =>
              rw [hs] at hb
              cases hb
          | some spec =>
              rw [hs] at hb
              exact .inr ⟨spec, rfl, rfl, (Except.ok.inj hb).symm⟩

/-- Up to the upper bound a batch accounts for all its tasks, no rule breaks off, and it makes no
difference to a sweep what its ceiling is. Beyond it no batch begins, and a sweep breaks off once it has
listed candidates, its outbox as it was. -/
theorem ceilings_hold_up_to_maxLimit (requested : Nat) (context : RuleContext) :
    (requested ≤ Batch.maxLimit → ∀ (I : Interface) (ε α : Type)
      (tasks : List (Activity I (Except ε α))),
      (∀ trace result, (Batch.run? (Batch.limit requested) tasks).Runs trace (some result) →
        ∃ outcome, result = some outcome ∧ Batch.Accounts tasks outcome ∧
          outcome.total = tasks.length) ∧
      ((∀ task ∈ tasks, task.WaitFree) → ∀ (σ : Type) (h : Handler I σ) now w, ∃ outcome,
        ((Batch.run? (Batch.limit requested) tasks).run h now w).value? = some (some outcome))) ∧
    (Batch.maxLimit < requested → ∀ (I : Interface) (ε α : Type)
      (tasks : List (Activity I (Except ε α))) (σ : Type) (h : Handler I σ) now w,
        (Batch.run? (Batch.limit requested) tasks).run h now w = ⟨some none, now, w⟩) ∧
    (requested ≤ Batch.maxLimit → ∀ requested', requested' ≤ Batch.maxLimit →
      ∀ (spec : SweepSpec) owner replies abis (s : Setting replies abis) box,
        s.value? ((spec.rule owner (Batch.limit requested) context).evaluate box) =
          s.value? ((spec.rule owner (Batch.limit requested') context).evaluate box)) ∧
    ∀ entry rule, RuleFactory.standard context requested entry = .ok rule →
      (∀ box (σ : Type) (h : Handler system σ) now w, w.memory.start ≠ .running →
        ∃ ending, ((rule.evaluate box).run h now w).value? = some ending) ∧
      (entry.ceiling requested ≤ Batch.maxLimit → ∀ box trace ending,
        (rule.evaluate box).Runs trace (some ending) → ending.2 ≠ .error .panicked) ∧
      (Batch.maxLimit < entry.ceiling requested → ∃ spec,
        SweepSpec.ofJson? entry.params = some spec ∧ ∀ box trace ending,
          (rule.evaluate box).Runs trace (some ending) ↔
            ∃ found, (spec.listing context).run.Runs trace (some found) ∧
              ending = SweepSpec.brokenOff box found) := by
  refine ⟨fun hmax I ε α tasks => ⟨fun trace result hr => ?_, fun ht σ h now w => ?_⟩,
    fun hlt I ε α tasks σ h now w => ?_,
    fun hmax requested' hmax' spec owner replies abis s box => ?_,
    fun entry rule hb => ⟨fun box σ h now w hs => ?_, fun hmax box trace ending hr => ?_, fun hlt => ?_⟩⟩
  · obtain ⟨outcome, rfl, ha⟩ := Batch.accounts_of_runs (Batch.limit_le_maxLimit hmax) hr
    exact ⟨outcome, rfl, ha, ha.total_eq⟩
  · exact Batch.exists_outcome_of_waitFree hmax ht h now w
  · rw [Batch.run?_of_maxLimit_lt (Batch.maxLimit_lt_limit hlt)]
    exact Activity.run_done h now none w
  · rw [spec.value?_of_le_maxLimit s owner hmax, spec.value?_of_le_maxLimit s owner hmax']
  · exact (RuleFactory.startsWithRead_of_standard hb box).exists_value h now w hs
  · rcases RuleFactory.cases_of_standard hb with ⟨-, spec, rfl⟩ | ⟨spec, -, -, rfl⟩
    · exact spec.evaluate_ne_panicked _ hr
    · exact SweepSpec.evaluate_ne_panicked _ hmax hr
  · rcases RuleFactory.cases_of_standard hb with ⟨hzero, -⟩ | ⟨spec, hspec, -, rfl⟩
    · rw [hzero] at hlt
      exact absurd hlt (Nat.not_lt_zero _)
    · exact ⟨spec, hspec, fun box trace ending => SweepSpec.runs_evaluate_of_maxLimit_lt _ hlt⟩

namespace Setting

theorem standard_sweepEntry (defaultLimit : Nat) :
    RuleFactory.standard ⟨.pair, .absent⟩ defaultLimit (sweepEntry .null) =
      .ok (rosterSpec.rule rosterOwner (Batch.limit defaultLimit) ⟨.pair, .absent⟩) := by
  have hs : SweepSpec.ofJson? (sweepEntry .null).params = some rosterSpec := by decide +kernel
  unfold RuleFactory.standard
  rw [show RuleKind.ofName? (sweepEntry .null).kind = some .positionSweep from rfl, hs]
  rfl

/-- A task that succeeds and one that fails. -/
def twoTasks : List (Job (Except Unit Nat)) := [pure (.ok 1), pure (.error ())]

theorem ceilings_of_roster :
    8 ≤ Batch.maxLimit ∧ Batch.maxLimit < 2305843009213693952 ∧
    (∃ outcome, ((Batch.run? (Batch.limit 8) twoTasks).run hurried.handler 0 hurried.world).value? =
      some (some outcome)) ∧
    ((Batch.run? (Batch.limit 2305843009213693952) twoTasks).run hurried.handler 0
      hurried.world).value? = some none ∧
    hurried.value? ((rosterSpec.rule rosterOwner (Batch.limit 8) ⟨.pair, .absent⟩).evaluate
        (.empty rosterOwner)) =
      hurried.value? ((rosterSpec.rule rosterOwner (Batch.limit 0) ⟨.pair, .absent⟩).evaluate
        (.empty rosterOwner)) ∧
    ∃ kept cut trace ending, RuleFactory.standard ⟨.pair, .absent⟩ 8 (sweepEntry .null) = .ok kept ∧
      RuleFactory.standard ⟨.pair, .absent⟩ 2305843009213693952 (sweepEntry .null) = .ok cut ∧
      (kept.evaluate (.empty rosterOwner)).Runs trace (some ending) ∧ ending.2 ≠ .error .panicked ∧
      ∃ spec, SweepSpec.ofJson? (sweepEntry .null).params = some spec ∧ ∀ trace ending,
        (cut.evaluate (.empty rosterOwner)).Runs trace (some ending) ↔
          ∃ found, (spec.listing ⟨.pair, .absent⟩).run.Runs trace (some found) ∧
            ending = SweepSpec.brokenOff (.empty rosterOwner) found := by
  have hmax : 8 ≤ Batch.maxLimit := by decide
  have hlt : Batch.maxLimit < 2305843009213693952 := by decide
  have hceiling : (sweepEntry .null).ceiling 8 ≤ Batch.maxLimit := by decide +kernel
  have hexcess : Batch.maxLimit < (sweepEntry .null).ceiling 2305843009213693952 := by decide +kernel
  obtain ⟨within, -, alike, rules⟩ := ceilings_hold_up_to_maxLimit 8 ⟨.pair, .absent⟩
  obtain ⟨-, beyond, -, rules'⟩ := ceilings_hold_up_to_maxLimit 2305843009213693952 ⟨.pair, .absent⟩
  have waitFree : ∀ task ∈ twoTasks, task.WaitFree :=
    List.forall_mem_cons.mpr ⟨Activity.confined_pure _,
      List.forall_mem_singleton.mpr (Activity.confined_pure _)⟩
  obtain ⟨outcome, houtcome⟩ :=
    (within hmax system Unit Nat twoTasks).2 waitFree _ hurried.handler 0 hurried.world
  obtain ⟨ends, spares, -⟩ := rules _ _ (standard_sweepEntry 8)
  obtain ⟨ending, hv⟩ := ends (.empty rosterOwner) _ hurried.handler 0 hurried.world hurried.ne_running
  obtain ⟨trace, hr, -⟩ := Activity.exists_trace_of_run hurried.handler 0
    ((rosterSpec.rule rosterOwner (Batch.limit 8) ⟨.pair, .absent⟩).evaluate (.empty rosterOwner))
    hurried.world
  rw [hv] at hr
  obtain ⟨spec, hspec, cut⟩ :=
    (rules' _ _ (standard_sweepEntry 2305843009213693952)).2.2 hexcess
  refine ⟨hmax, hlt, ⟨outcome, houtcome⟩, ?_,
    alike hmax 0 (Nat.zero_le _) rosterSpec rosterOwner _ _ hurried _, _, _, trace, ending,
    standard_sweepEntry 8, standard_sweepEntry 2305843009213693952, hr, spares hceiling _ _ _ hr, spec,
    hspec, fun trace ending => cut _ trace ending⟩
  rw [beyond hlt system Unit Nat twoTasks _ hurried.handler 0 hurried.world]

/-- A configuration that is accepted, with a limit for which there are not enough places. -/
def boundless : ConfigFile :=
  .holding (Bytes.ofString ("nodes = [\x7bname = \"solo\", rpc_url = \"http://solo\"\x7d]\n" ++
    "[cycle]\nfan_out_concurrency = 2305843009213693952\n"))

theorem exists_load_boundless :
    ∃ config, Config.load [] boundless = .ok config ∧ config.cycle.fanOut = 2305843009213693952 := by
  refine Config.exists_load_of_map ?_
  rewrite [boundless, Config.load_ofString, Config.parse?, Toml.parse?_eq_bind]
  all_goals
    simp only [String.toList_append]
    repeat rewrite [String.toList_ofList]
    decide +kernel

/-- With such a limit there is no batch, and a sweep that would succeed with another one fails. -/
theorem sweep_breaks_off_with_boundless : ∃ config, Config.load [] boundless = .ok config ∧
    config.cycle.fanOut = 2305843009213693952 ∧
    ((Batch.run? (Batch.limit config.cycle.fanOut) twoTasks).run hurried.handler 0
      hurried.world).value? = some none ∧
    ∃ cut kept box,
      RuleFactory.standard ⟨.pair, .absent⟩ config.cycle.fanOut (sweepEntry .null) = .ok cut ∧
      RuleFactory.standard ⟨.pair, .absent⟩ 8 (sweepEntry .null) = .ok kept ∧
      hurried.value? (cut.evaluate (.empty rosterOwner)) =
        some (.empty rosterOwner, .error .panicked) ∧
      hurried.value? (kept.evaluate (.empty rosterOwner)) = some (box, .ok .completed) := by
  obtain ⟨config, hload, hfan⟩ := exists_load_boundless
  have hlt : Batch.maxLimit < Batch.limit config.cycle.fanOut := by
    rw [hfan]
    decide
  obtain ⟨contract, hlists⟩ := exists_lists_roster
  have listed : rosterSpec.listed (RuleContext.knowledge ⟨.pair, .absent⟩ roster
      ⟨[(.zero, rosterText)]⟩) = .ok (contract, [7, 3, 9, 7]) := SweepSpec.lists_iff.mp hlists
  obtain ⟨-, completed, -⟩ := roster_known
  rw [← show Outbox.empty rosterOwner = ⟨rosterOwner, []⟩ from rfl] at completed
  have hkept : hurried.value? ((rosterSpec.rule rosterOwner (Batch.limit 8) ⟨.pair, .absent⟩).evaluate
      (.empty rosterOwner)) = some (rosterSpec.outcome rosterKnowledge (.empty rosterOwner)) :=
    rosterSpec.value?_of_le_maxLimit hurried rosterOwner (by decide) _
  generalize rosterSpec.outcome rosterKnowledge (.empty rosterOwner) = ending at completed hkept
  obtain ⟨box, result⟩ := ending
  refine ⟨config, hload, hfan, ?_, _, _, box, standard_sweepEntry _, standard_sweepEntry 8, ?_, ?_⟩
  · rw [Batch.run?_of_maxLimit_lt hlt]
    exact congrArg Ending.value? (Activity.run_done hurried.handler 0 none hurried.world)
  · rw [SweepSpec.value?_of_maxLimit_lt hurried rosterOwner hlt, listed]
    rfl
  · rw [hkept]
    cases result with
    | error fault => cases completed
    | ok status => rw [Option.some.inj completed]

end Setting

end ChainWatch
