import ChainWatch.Proofs.Rule.Candidates
import ChainWatch.Proofs.Rule.Decision
import ChainWatch.Proofs.Rule.Loading

/-!
# Thresholds from the reading to the outbox

An evaluation of a threshold rule gets to see an interface, what a view of the contract answers, and the
interface of the target. `ThresholdSpec.Course` says how it comes to see them, one after the other and no
more of them than it needs; `ThresholdSpec.Ends` says what it makes of them. Nothing is assumed of the
outside: a node may answer the same question otherwise the next time, and also the lookups for the
contract and for the target may be answered at different times.
-/

namespace ChainWatch

open Concurrency RuleContext

/-! ## One number in answers and calls -/

namespace Abi

theorem Value.firstNumber_eq_ok {outputs : List Value} {v : Word} :
    firstNumber outputs = .ok v ↔ ∃ bits others, outputs = .uint v bits :: others := by
  constructor
  · intro h
    cases outputs with
    | nil => cases h
    | cons output others =>
        cases output with
        | uint w bits =>
            obtain rfl : w = v := Except.ok.inj h
            exact ⟨bits, others, rfl⟩
        | _ => cases h
  · rintro ⟨bits, others, rfl⟩
    rfl

/-- The data calls the function with the number: an action without inputs is called by its selector
alone, one that takes a number is called with this one. -/
def Function.Carries (function : Function) (v : Word) (data : Bytes) : Prop :=
  function.inputs = [] ∧ data = function.selector ∨
    ∃ p, function.inputs = [p] ∧ p.resolve? = some (.uint 256) ∧
      data = function.selector ++ v.toBytes

theorem Value.encodeAll_uint (v : Word) (bits : Nat) : encodeAll [.uint v bits] = v.toBytes := by
  simp only [encodeAll, parts, isDynamic, encode, Part.assemble, Part.layOut, Bool.false_eq_true,
    if_false, List.append_nil]

theorem Value.hasType_uint_iff {t : SolType} {v : Word} {bits : Nat} :
    hasType t (.uint v bits) = true ↔ t = .uint bits := by
  cases t <;> simp [hasType]

theorem Function.encodeCall?_nil {function : Function} (h : function.inputs = []) :
    function.encodeCall? [] = some function.selector := by
  unfold encodeCall?
  rw [h]
  exact congrArg some (List.append_nil _)

theorem Function.encodeCall?_uint_eq_some {function : Function} {p : Param} {v : Word} {data : Bytes}
    (h : function.inputs = [p]) : function.encodeCall? [.uint v 256] = some data ↔
      p.resolve? = some (.uint 256) ∧ data = function.selector ++ v.toBytes := by
  have typed (t : SolType) :
      Value.haveTypes [t] [.uint v 256] = true ↔ t = .uint 256 := by
    rw [Value.haveTypes, Value.haveTypes, Bool.and_true, Value.hasType_uint_iff]
  unfold encodeCall?
  rw [h, Param.resolveAll?, Param.resolveAll?, Value.encodeAll_uint]
  cases p.resolve? with
  | none => exact ⟨nofun, fun h => nomatch h.1⟩
  | some t =>
      simp only [Option.bind_eq_bind, Option.bind_some, Option.some.injEq, ← typed t]
      by_cases ht : Value.haveTypes [t] [.uint v 256] = true
      · rw [if_pos ht, Option.some.injEq, and_iff_right ht, eq_comm]
      · rw [if_neg ht]
        exact ⟨nofun, fun h => (ht h.1).elim⟩

theorem Contract.encodeAction_eq_ok {contract : Contract} {method : String} {v : Word} {data : Bytes} :
    contract.encodeAction method v = .ok data ↔
      ∃ function, contract.action? method = some function ∧ function.Carries v data := by
  unfold encodeAction
  cases hf : contract.action? method with
  | none => simp
  | some function =>
      simp only [Option.some.injEq, exists_eq_left', Function.Carries]
      have short : function.inputs.length ≤ 1 := by
        simpa using List.find?_some hf
      match hi : function.inputs with
      | [] =>
          simp only [List.isEmpty_nil, if_true, Function.encodeCall?_nil hi]
          simp [eq_comm]
      | [p] =>
          simp only [List.isEmpty_cons, Bool.false_eq_true, if_false, List.cons_ne_nil, false_and,
            false_or, List.cons.injEq, and_true, exists_eq_left',
            ← Function.encodeCall?_uint_eq_some hi]
          cases function.encodeCall? [.uint v 256] <;> simp
      | _ :: _ :: _ => simp [hi] at short

end Abi

namespace ThresholdSpec

/-! ## What there is to see -/

/-- What an evaluation gets to see: the interface of the contract, the answer of the view, and the
interface of the target. -/
structure Sight where
  contract : Except RuleFault Abi.Contract
  outputs : Except FleetFault (List Abi.Value)
  target : Except RuleFault Abi.Contract

section Ends

variable (spec : ThresholdSpec)

/-- The view was answered, and its first output is this number. -/
def Shows (sight : Sight) (v : Word) : Prop :=
  (∃ contract, sight.contract = .ok contract) ∧
    ∃ bits others, sight.outputs = .ok (.uint v bits :: others)

/-- The number is beyond the threshold, in the direction that is watched. -/
def Crosses (v : Word) : Prop :=
  match spec.direction with
  | .above => spec.threshold.toNat < v.toNat
  | .below => v.toNat < spec.threshold.toNat

def transaction (owner : RuleMeta) (v : Word) (data : Bytes) : OutboundTransaction where
  urgency := owner.urgency
  executor := owner.executor
  context := s!"{owner.label}: {spec.method}={v.decimal} {spec.direction.name} {spec.threshold.decimal}"
  dedupKey := dedupKey [owner.label, spec.contract.checksum, spec.method, v.decimal]
  ttlSeconds := owner.ttlSeconds
  request := .call (spec.target.getD spec.contract) data

/-- How an evaluation comes to see what it sees: the interface is loaded, then the view is read by it,
and then the interface of the target is loaded, if the number has crossed the threshold and the target is
another contract. -/
structure Course (context : RuleContext) (sight : Sight) (loading reading targeting : Trace system) :
    Prop where
  loaded : context.Loads spec.contract loading sight.contract
  read : ∀ contract, sight.contract = .ok contract →
    context.fleet.Reads (.view spec.contract contract spec.method []) reading sight.outputs
  unread : ∀ fault, sight.contract = .error fault → reading = []
  targeted : ∀ v, Shows sight v → spec.Crosses v → spec.actor ≠ spec.contract →
    context.Loads spec.actor targeting sight.target
  untargeted : (∀ v, Shows sight v → spec.Crosses v → spec.actor = spec.contract) → targeting = []
  /-- The contract's own interface does for itself. -/
  own : spec.actor = spec.contract → sight.target = sight.contract

/-- What an evaluation makes of what it sees, with its outbox before and after. -/
structure Ends (sight : Sight) (before after : Outbox) (result : Except RuleFault RuleStatus) :
    Prop where
  /-- There is no number, or it has crossed the threshold and the action cannot be called with it. -/
  fails_iff : (∃ fault, result = .error fault) ↔ (∀ v, ¬ Shows sight v) ∨
    ∃ v, Shows sight v ∧ spec.Crosses v ∧ ((∃ fault, sight.target = .error fault) ∨
      ∃ target fault, sight.target = .ok target ∧ target.encodeAction spec.action v = .error fault)
  kept : ∀ fault, result = .error fault → after = before
  idle : ∀ v, Shows sight v → ¬ spec.Crosses v → result = .ok .completed ∧ after = before
  /-- The threshold itself is not beyond the threshold. -/
  level : Shows sight spec.threshold → result = .ok .completed ∧ after = before
  acts : ∀ v, Shows sight v → spec.Crosses v → ∀ target, sight.target = .ok target →
    ∀ data, target.encodeAction spec.action v = .ok data →
      result = .ok .completed ∧
        after = { before with queue := before.queue ++ [spec.transaction before.owner v data] } ∧
        ∃ function, target.action? spec.action = some function ∧ function.Carries v data

variable {spec}

theorem crossed_iff {v : Word} : spec.direction.crossed v spec.threshold = true ↔ spec.Crosses v := by
  unfold Crosses Direction.crossed
  cases spec.direction <;> exact decide_eq_true_iff

theorem not_crosses_threshold : ¬ spec.Crosses spec.threshold := by
  unfold Crosses
  cases spec.direction <;> exact Nat.lt_irrefl _

end Ends

/-! ## What is found -/

section Found

variable {spec : ThresholdSpec} {sight : Sight}

/-- The number that the view shows. -/
def shown (sight : Sight) : Except RuleFault Word := do
  let _ ← sight.contract
  let outputs ← sight.outputs.mapError .fleet
  Abi.Value.firstNumber outputs

/-- What there is to do in view of the number. -/
def due (spec : ThresholdSpec) (target : Except RuleFault Abi.Contract) (v : Word) :
    Except RuleFault (Option (Word × Bytes)) :=
  if spec.direction.crossed v spec.threshold then
    target >>= fun target => (target.encodeAction spec.action v).map fun data => some (v, data)
  else .ok none

def found (spec : ThresholdSpec) (sight : Sight) : Except RuleFault (Option (Word × Bytes)) :=
  shown sight >>= spec.due sight.target

theorem shown_eq_ok {v : Word} : shown sight = .ok v ↔ Shows sight v := by
  unfold shown Shows
  have answered {outputs : List Abi.Value} : sight.outputs.mapError RuleFault.fleet = .ok outputs ↔
      sight.outputs = .ok outputs := by
    cases sight.outputs <;> simp [Except.mapError]
  simp only [Except.bind_eq_ok, Abi.Value.firstNumber_eq_ok, answered]
  constructor
  · rintro ⟨contract, hc, outputs, ho, bits, others, rfl⟩
    exact ⟨⟨contract, hc⟩, bits, others, ho⟩
  · rintro ⟨⟨contract, hc⟩, bits, others, ho⟩
    exact ⟨contract, hc, _, ho, bits, others, rfl⟩

theorem Shows.unique {v w : Word} (hv : Shows sight v) (hw : Shows sight w) : w = v :=
  Except.ok.inj ((shown_eq_ok.mpr hw).symm.trans (shown_eq_ok.mpr hv))

theorem found_of_shows {v : Word} (h : Shows sight v) : spec.found sight = spec.due sight.target v := by
  rw [found, shown_eq_ok.mpr h]
  rfl

theorem found_of_level {v : Word} (h : Shows sight v) (hc : ¬ spec.Crosses v) :
    spec.found sight = .ok none := by
  rw [found_of_shows h, due, if_neg fun hcrossed => hc (crossed_iff.mp hcrossed)]

theorem found_of_crossing {v : Word} (h : Shows sight v) (hc : spec.Crosses v) :
    spec.found sight = sight.target >>= fun target =>
      (target.encodeAction spec.action v).map fun data => some (v, data) := by
  rw [found_of_shows h, due, if_pos (crossed_iff.mpr hc)]

theorem found_eq_error_iff :
    (∃ fault, spec.found sight = .error fault) ↔ (∀ v, ¬ Shows sight v) ∨
      ∃ v, Shows sight v ∧ spec.Crosses v ∧ ((∃ fault, sight.target = .error fault) ∨
        ∃ target fault, sight.target = .ok target ∧
          target.encodeAction spec.action v = .error fault) := by
  cases hs : shown sight with
  | error fault =>
      have hidden (v : Word) : ¬ Shows sight v := by
        rw [← shown_eq_ok, hs]
        exact nofun
      refine iff_of_true ⟨fault, ?_⟩ (.inl hidden)
      rw [found, hs]
      rfl
  | ok v =>
      have h : Shows sight v := shown_eq_ok.mp hs
      have only {P : Word → Prop} : ((∀ w, ¬ Shows sight w) ∨ ∃ w, Shows sight w ∧ P w) ↔ P v := by
        constructor
        · rintro (hidden | ⟨w, hw, hp⟩)
          · exact (hidden v h).elim
          · exact h.unique hw ▸ hp
        · exact fun hp => .inr ⟨v, h, hp⟩
      rw [only]
      by_cases hc : spec.Crosses v
      · rw [found_of_crossing h hc, and_iff_right hc]
        cases sight.target with
        | error fault => exact iff_of_true ⟨fault, rfl⟩ (.inl ⟨fault, rfl⟩)
        | ok target =>
            show (∃ fault, (target.encodeAction spec.action v).map _ = .error fault) ↔ _
            cases hd : target.encodeAction spec.action v with
            | error fault =>
                exact iff_of_true ⟨fault, rfl⟩ (.inr ⟨target, fault, rfl, hd⟩)
            | ok data =>
                refine iff_of_false nofun ?_
                rintro (⟨fault, h⟩ | ⟨_, fault, h, he⟩)
                · cases h
                · cases h
                  rw [hd] at he
                  cases he
      · rw [found_of_level h hc]
        exact iff_of_false nofun fun h => hc h.1

end Found

/-- How the rule ends with its outbox. -/
def concluded (spec : ThresholdSpec) (box : Outbox) :
    Except RuleFault (Option (Word × Bytes)) → Outbox × Except RuleFault RuleStatus
  | .error fault => (box, .error fault)
  | .ok none => (box, .ok .completed)
  | .ok (some (v, data)) => (spec.act v data box, .ok .completed)

/-! ## The course of an evaluation -/

section Course

variable {spec : ThresholdSpec} {context : RuleContext} {trace : Trace system}

/-- Go on with the number that has been read by an interface. -/
def acting (spec : ThresholdSpec) (context : RuleContext) (contract : Abi.Contract) (v : Word) :
    RuleJob (Option (Word × Bytes)) :=
  if !spec.direction.crossed v spec.threshold then return none
  else do
    let target ←
      if spec.actor = spec.contract then pure contract else context.loadContract spec.actor
    let data ← ExceptT.mk (pure (target.encodeAction spec.action v))
    return some (v, data)

theorem observe_eq (spec : ThresholdSpec) (context : RuleContext) :
    spec.observe context = (do
      let contract ← context.loadContract spec.contract
      let outputs ← context.callView spec.contract contract spec.method []
      let v ← ExceptT.mk (pure (Abi.Value.firstNumber outputs))
      spec.acting context contract v) :=
  rfl

/-- What there is to do in view of the number is due to the interface of the target, which is loaded if
that is needed. -/
theorem exists_target_of_acting {contract : Abi.Contract} {v : Word}
    {outcome : Except RuleFault (Option (Word × Bytes))}
    (hr : (spec.acting context contract v).run.Runs trace (some outcome)) :
    ∃ target, outcome = spec.due target v ∧
      (spec.Crosses v → spec.actor ≠ spec.contract → context.Loads spec.actor trace target) ∧
      ((spec.Crosses v → spec.actor = spec.contract) → trace = []) ∧
      (spec.actor = spec.contract → target = .ok contract) := by
  unfold acting at hr
  by_cases hc : spec.direction.crossed v spec.threshold = true
  · -- What is left to do with the interface needs nothing from outside.
    have encoded {target : Abi.Contract} {late : Trace system}
        (hr : (ExceptT.mk (pure (target.encodeAction spec.action v)) >>= fun data =>
          pure (some (v, data)) : RuleJob (Option (Word × Bytes))).run.Runs late (some outcome)) :
        late = [] ∧ outcome = spec.due (.ok target) v := by
      rw [due, if_pos hc]
      show late = [] ∧ outcome = (target.encodeAction spec.action v).map fun data => some (v, data)
      cases hd : target.encodeAction spec.action v with
      | error fault =>
          rw [hd] at hr
          exact Activity.runs_pure_some.mp hr
      | ok data =>
          rw [hd] at hr
          exact Activity.runs_pure_some.mp hr
    rw [if_neg (by simpa using hc)] at hr
    split at hr
    · rename_i hsame
      obtain ⟨rfl, rfl⟩ := encoded hr
      exact ⟨.ok contract, rfl, fun _ hne => (hne hsame).elim, fun _ => rfl, fun _ => rfl⟩
    · rename_i hother
      rcases runs_exceptT_bind_some.mp hr with
        ⟨fault, hload, rfl⟩ | ⟨target, early, late, hload, hlate, rfl⟩
      · refine ⟨.error fault, ?_, fun _ _ => loads_of_loadContract hload,
          fun h => (hother (h (crossed_iff.mp hc))).elim, fun h => (hother h).elim⟩
        rw [due, if_pos hc]
        rfl
      · obtain ⟨rfl, rfl⟩ := encoded hlate
        rw [List.append_nil]
        exact ⟨.ok target, rfl, fun _ _ => loads_of_loadContract hload,
          fun h => (hother (h (crossed_iff.mp hc))).elim, fun h => (hother h).elim⟩
  · rw [if_pos (by simpa using hc)] at hr
    obtain ⟨rfl, rfl⟩ := runs_exceptT_pure_some.mp hr
    refine ⟨.ok contract, ?_, fun h => (hc (crossed_iff.mpr h)).elim, fun _ => rfl, fun _ => rfl⟩
    rw [due, if_neg hc]

/-- The course of an evaluation that has got an interface, and by it an answer. -/
theorem Course.of_loaded {contract : Abi.Contract} {outputs : Except FleetFault (List Abi.Value)}
    {target : Except RuleFault Abi.Contract} {loading reading targeting : Trace system}
    (loaded : context.Loads spec.contract loading (.ok contract))
    (read : context.fleet.Reads (.view spec.contract contract spec.method []) reading outputs)
    (targeted : ∀ v, Shows ⟨.ok contract, outputs, target⟩ v → spec.Crosses v →
      spec.actor ≠ spec.contract → context.Loads spec.actor targeting target)
    (untargeted : (∀ v, Shows ⟨.ok contract, outputs, target⟩ v → spec.Crosses v →
      spec.actor = spec.contract) → targeting = [])
    (own : spec.actor = spec.contract → target = .ok contract) :
    spec.Course context ⟨.ok contract, outputs, target⟩ loading reading targeting where
  loaded := loaded
  read _ h := by
    cases h
    exact read
  unread := nofun
  targeted := targeted
  untargeted := untargeted
  own := own

theorem exists_course_of_observe {outcome : Except RuleFault (Option (Word × Bytes))}
    (hr : (spec.observe context).run.Runs trace (some outcome)) :
    ∃ sight loading reading targeting, trace = loading ++ reading ++ targeting ∧
      spec.Course context sight loading reading targeting ∧ outcome = spec.found sight := by
  rw [observe_eq] at hr
  rcases runs_exceptT_bind_some.mp hr with
    ⟨fault, hload, rfl⟩ | ⟨contract, loading, later, hload, hlater, rfl⟩
  · refine ⟨⟨.error fault, .error .blockNumber, .error fault⟩, trace, [], [], by simp, ?_, rfl⟩
    exact ⟨loads_of_loadContract hload, fun _ h => (nomatch h), fun _ _ => rfl,
      fun _ h => (nomatch h.1), fun _ => rfl, fun _ => rfl⟩
  have loaded := loads_of_loadContract hload
  rcases runs_exceptT_bind_some.mp hlater with
    ⟨fault, hread, rfl⟩ | ⟨outputs, reading, last, hread, hlast, rfl⟩
  · obtain ⟨refusal, hquery, rfl⟩ := runs_adapt_error.mp hread
    have read := Fleet.reads_of_query (r := .view ..) hquery
    exact ⟨⟨.ok contract, .error refusal, .ok contract⟩, loading, later, [], by simp,
      .of_loaded loaded read (fun _ h => (nomatch h.2)) (fun _ => rfl) fun _ => rfl, rfl⟩
  have read := Fleet.reads_of_query (r := .view ..) (runs_adapt_ok.mp hread)
  have shown_eq (target : Except RuleFault Abi.Contract) :
      shown ⟨.ok contract, .ok outputs, target⟩ = Abi.Value.firstNumber outputs := rfl
  rcases runs_exceptT_bind_some.mp hlast with
    ⟨fault, hnumber, rfl⟩ | ⟨v, silent, targeting, hnumber, hacting, rfl⟩
  · obtain ⟨rfl, hfault⟩ := Activity.runs_pure_some.mp hnumber
    have hidden (v : Word) : ¬ Shows ⟨.ok contract, .ok outputs, .ok contract⟩ v := by
      rw [← shown_eq_ok, shown_eq, ← hfault]
      exact nofun
    refine ⟨⟨.ok contract, .ok outputs, .ok contract⟩, loading, reading, [], by simp,
      .of_loaded loaded read (fun v h => (hidden v h).elim) (fun _ => rfl) (fun _ => rfl), ?_⟩
    rw [found, shown_eq, ← hfault]
    rfl
  · obtain ⟨rfl, hv⟩ := Activity.runs_pure_some.mp hnumber
    obtain ⟨target, rfl, htargeted, huntargeted, hown⟩ := exists_target_of_acting hacting
    have shows_v : Shows ⟨.ok contract, .ok outputs, target⟩ v := by
      rw [← shown_eq_ok, shown_eq, ← hv]
    exact ⟨⟨.ok contract, .ok outputs, target⟩, loading, reading, targeting, by simp,
      .of_loaded loaded read (fun w h => shows_v.unique h ▸ htargeted)
        (fun h => huntargeted (h v shows_v)) hown, (found_of_shows shows_v).symm⟩

theorem exists_found_of_evaluate {owner : RuleMeta} {box : Outbox}
    {ending : Outbox × Except RuleFault RuleStatus}
    (hr : ((spec.rule owner context).evaluate box).Runs trace (some ending)) :
    ∃ outcome, (spec.observe context).run.Runs trace (some outcome) ∧
      ending = spec.concluded box outcome := by
  obtain ⟨outcome, early, late, ho, hl, rfl⟩ := Activity.runs_bind_some.mp hr
  have last : late = [] ∧ ending = spec.concluded box outcome := by
    match outcome with
    | .error fault => exact Activity.runs_pure_some.mp hl
    | .ok none => exact Activity.runs_pure_some.mp hl
    | .ok (some (v, data)) => exact Activity.runs_pure_some.mp hl
  obtain ⟨rfl, rfl⟩ := last
  rw [List.append_nil]
  exact ⟨outcome, ho, rfl⟩

theorem ends_concluded (spec : ThresholdSpec) (sight : Sight) (box : Outbox) :
    spec.Ends sight box (spec.concluded box (spec.found sight)).1
      (spec.concluded box (spec.found sight)).2 where
  fails_iff := by
    rw [← found_eq_error_iff]
    match spec.found sight with
    | .error fault => exact iff_of_true ⟨fault, rfl⟩ ⟨fault, rfl⟩
    | .ok none => exact iff_of_false nofun nofun
    | .ok (some (v, data)) => exact iff_of_false nofun nofun
  kept fault h := by
    match hf : spec.found sight with
    | .error fault => rfl
    | .ok none => rfl
    | .ok (some (v, data)) =>
        rw [hf] at h
        cases h
  idle v h hc := by
    rw [found_of_level h hc]
    exact ⟨rfl, rfl⟩
  level h := by
    rw [found_of_level h not_crosses_threshold]
    exact ⟨rfl, rfl⟩
  acts v h hc target ht data hd := by
    have found_it : spec.found sight = .ok (some (v, data)) := by
      rw [found_of_crossing h hc, ht]
      show (target.encodeAction spec.action v).map _ = _
      rw [hd]
      rfl
    rw [found_it]
    exact ⟨rfl, rfl, Abi.Contract.encodeAction_eq_ok.mp hd⟩

end Course

/-- A threshold from the reading to the outbox. Unless somebody else is busy with the start of the fleet,
an evaluation ends, whatever the outside answers and when. However it went, it has seen what it needed in
the order in which it needed it, and it ends as it must in view of that: with a fault and nothing queued,
with nothing queued, or with the one transaction for the number that it has compared. -/
theorem evaluate_watches (spec : ThresholdSpec) (owner : RuleMeta) (context : RuleContext)
    (box : Outbox) :
    let job := (spec.rule owner context).evaluate box
    (∀ {σ : Type} (h : Handler system σ) (now : Nat) (w : World system σ),
      w.memory.start ≠ .running → ∃ ending trace, (job.run h now w).value? = some ending ∧
        job.Runs trace (some ending) ∧ trace.Leads h w (job.run h now w).world) ∧
    ∀ trace after result, job.Runs trace (some (after, result)) →
      ∃ sight loading reading targeting, trace = loading ++ reading ++ targeting ∧
        spec.Course context sight loading reading targeting ∧
        spec.Ends sight box after result := by
  constructor
  · intro σ h now w hs
    obtain ⟨ending, hv⟩ := (spec.startsWithRead_evaluate owner context box).exists_value h now w hs
    obtain ⟨trace, hr, hl⟩ := Activity.exists_trace_of_run h now
      ((spec.rule owner context).evaluate box) w
    exact ⟨ending, trace, hv, hv ▸ hr, hl⟩
  · intro trace after result hr
    obtain ⟨outcome, ho, heq⟩ := exists_found_of_evaluate hr
    obtain ⟨sight, loading, reading, targeting, ht, hcourse, rfl⟩ := exists_course_of_observe ho
    have ends := spec.ends_concluded sight box
    rw [← heq] at ends
    exact ⟨sight, loading, reading, targeting, ht, hcourse, ends⟩

end ThresholdSpec

namespace Setting

/-- A level that is read for the first time is above the threshold, and this is acted upon. -/
theorem watches_level :
    let job := (levelSpec.rule levelEntry.stamp onlooker).evaluate (.empty levelEntry.stamp)
    let run := job.run (.ofReplies (fun _ => 0) candidates) 0 (knowing levelText)
    (knowing levelText).memory.start ≠ .running ∧
    ∃ trace box result sight v data, run.value? = some (box, result) ∧
      job.Runs trace (some (box, result)) ∧
      trace.Leads (.ofReplies (fun _ => 0) candidates) (knowing levelText) run.world ∧
      ThresholdSpec.Shows sight v ∧ levelSpec.Crosses v ∧
      box.queue = [levelSpec.transaction levelEntry.stamp v data] := by
  intro job run
  have idle : (knowing levelText).memory.start ≠ .running := nofun
  obtain ⟨comes_to_end, course⟩ :=
    levelSpec.evaluate_watches levelEntry.stamp onlooker (.empty levelEntry.stamp)
  obtain ⟨⟨box, result⟩, trace, hvalue, hr, hl⟩ :=
    comes_to_end (.ofReplies (fun _ => 0) candidates) 0 (knowing levelText) idle
  obtain ⟨sight, -, -, -, -, -, ends⟩ := course trace box result hr
  -- A box that holds something is not the one from the beginning.
  have changed : box ≠ .empty levelEntry.stamp := by
    rintro rfl
    obtain ⟨box', result', tx, hvalue', htx, -⟩ := exists_ending_of_level
    cases hvalue.symm.trans hvalue'
    cases htx
  have completed : ¬ ∃ fault, result = .error fault := fun ⟨fault, h⟩ => changed (ends.kept fault h)
  rw [ends.fails_iff, not_or] at completed
  obtain ⟨v, hv⟩ := not_forall_not.mp completed.1
  have hc : levelSpec.Crosses v := by
    by_contra hc
    exact changed (ends.idle v hv hc).2
  have callable := fun h => completed.2 ⟨v, hv, hc, h⟩
  cases ht : sight.target with
  | error fault => exact (callable (.inl ⟨fault, ht⟩)).elim
  | ok target =>
      cases hd : target.encodeAction levelSpec.action v with
      | error fault => exact (callable (.inr ⟨target, fault, ht, hd⟩)).elim
      | ok data =>
          obtain ⟨-, rfl, -⟩ := ends.acts v hv hc target ht data hd
          exact ⟨idle, trace, _, result, sight, v, data, hvalue, hr, hl, hv, hc, rfl⟩

end Setting

end ChainWatch
