import ChainWatch.Proofs.Rule.Report

/-!
# What becomes of candidates

A sweep lists candidates, checks them and acts on those that pass. Where the nodes and the explorer
answer by a table, how it ends is settled by what can be learned. `SweepSpec.Ends` says so case by
case, in terms of the contract's own answers: whether there is a list at all, what each check says, and
whether the action can be called. An outbox gets one transaction for each place on the list whose check
says yes, in the order of the list, or it gets nothing.
-/

namespace ChainWatch

open Concurrency

theorem Except.bind_eq_ok {ε α β : Type} {x : Except ε α} {f : α → Except ε β} {b : β} :
    x >>= f = .ok b ↔ ∃ a, x = .ok a ∧ f a = .ok b := by
  cases x with
  | error e => exact ⟨nofun, nofun⟩
  | ok a => exact ⟨fun h => ⟨a, rfl, h⟩, fun ⟨a', ha, h⟩ => Except.ok.inj ha ▸ h⟩

/-! ## Numbers in answers and calls -/

namespace Abi

variable {items : List Value} {ids : List Word}

theorem Value.itemNumber_eq_ok {item : Value} {id : Word} :
    item.itemNumber = .ok id ↔ ∃ bits, item = .uint id bits := by
  cases item <;> simp [itemNumber]

theorem Value.mapM_itemNumber_eq_ok :
    items.mapM itemNumber = .ok ids ↔
      List.Forall₂ (fun item id => ∃ bits, item = .uint id bits) items ids := by
  induction items generalizing ids with
  | nil =>
      rw [List.mapM_nil, List.forall₂_nil_left_iff]
      exact ⟨fun h => (Except.ok.inj h).symm, fun h => congrArg _ h.symm⟩
  | cons item items ih =>
      rw [List.mapM_cons, List.forall₂_cons_left_iff]
      simp only [Except.bind_eq_ok, itemNumber_eq_ok, ih]
      constructor
      · rintro ⟨id, hid, others, hothers, h⟩
        exact ⟨id, others, hid, hothers, (Except.ok.inj h).symm⟩
      · rintro ⟨id, others, hid, hothers, rfl⟩
        exact ⟨id, hid, others, hothers, rfl⟩

theorem Value.firstNumbers_eq_ok {outputs : List Value} :
    firstNumbers outputs = .ok ids ↔ ∃ items others, outputs = .array items :: others ∧
      List.Forall₂ (fun item id => ∃ bits, item = .uint id bits) items ids := by
  constructor
  · intro h
    cases outputs with
    | nil => cases h
    | cons output others =>
        cases output with
        | array items => exact ⟨items, others, rfl, mapM_itemNumber_eq_ok.mp h⟩
        | _ => cases h
  · rintro ⟨items, others, rfl, h⟩
    exact mapM_itemNumber_eq_ok.mpr h

/-- Whether numbers can be handed over does not depend on the numbers. -/
theorem Value.haveTypes_uint (types : List SolType) (v w : Word) (bits : Nat) :
    haveTypes types [.uint v bits] = haveTypes types [.uint w bits] := by
  cases types with
  | nil => rfl
  | cons t types => cases t <;> cases types <;> rfl

theorem Function.encodeCall?_uint_eq_none {function : Function} {v : Word}
    (h : function.encodeCall? [.uint v 256] = none) (w : Word) :
    function.encodeCall? [.uint w 256] = none := by
  unfold encodeCall? at h ⊢
  cases hr : Param.resolveAll? function.inputs with
  | none => rfl
  | some types =>
      simp only [hr, Option.bind_eq_bind, Option.bind_some] at h ⊢
      rw [Value.haveTypes_uint types w v]
      by_cases ht : Value.haveTypes types [.uint v 256] = true
      · rw [if_pos ht] at h
        cases h
      · exact if_neg ht

/-- An action that cannot be called with one number cannot be called with any other. -/
theorem Contract.encodeAction_eq_error {contract : Contract} {method : String} {v : Word}
    {fault : RuleFault} (h : contract.encodeAction method v = .error fault) (w : Word) :
    contract.encodeAction method w = .error fault := by
  unfold encodeAction at h ⊢
  cases hf : contract.action? method with
  | none =>
      rw [hf] at h
      exact h
  | some function =>
      rw [hf] at h
      by_cases hi : function.inputs.isEmpty = true
      · simp only [hi, if_true] at h ⊢
        exact h
      · simp only [hi, if_false, Bool.false_eq_true] at h ⊢
        cases hv : function.encodeCall? [.uint v 256] with
        | some data =>
            rw [hv] at h
            cases h
        | none =>
            rw [hv] at h
            rw [Function.encodeCall?_uint_eq_none hv w]
            exact h

end Abi

namespace SweepSpec

/-! ## What there is to know -/

section Ends

variable (spec : SweepSpec) (k : Knowledge)

/-- The interface of the contract can be had, and the list method answers first a list of these
numbers. -/
def Lists (contract : Abi.Contract) (ids : List Word) : Prop :=
  k.contract spec.contract = .ok contract ∧
    ∃ items others,
      k.outputs spec.contract contract spec.listMethod [] = .ok (.array items :: others) ∧
        List.Forall₂ (fun item id => ∃ bits, item = .uint id bits) items ids

/-- What the check of a candidate says, if it is answered and the first answer is a yes or no. -/
def answer? (contract : Abi.Contract) (id : Word) : Option Bool :=
  match k.outputs spec.contract contract spec.checkMethod [.uint id 256] with
  | .ok (.bool passed :: _) => some passed
  | _ => none

/-- The places on the list whose checks say yes, in their order. -/
def due (contract : Abi.Contract) (ids : List Word) : List Word :=
  ids.filter fun id => spec.answer? k contract id = some true

/-- The action is called by this interface: that of the contract itself, or that of the target. -/
def Targets (contract target : Abi.Contract) : Prop :=
  spec.actor = spec.contract ∧ target = contract ∨
    spec.actor ≠ spec.contract ∧ k.contract spec.actor = .ok target

/-- The transaction that acts on a candidate. -/
def transaction (owner : RuleMeta) (id : Word) (data : Bytes) : OutboundTransaction where
  urgency := owner.urgency
  executor := owner.executor
  context := s!"{owner.label}: {spec.action} id {id.decimal}"
  dedupKey := dedupKey [owner.label, spec.contract.checksum, id.decimal]
  ttlSeconds := owner.ttlSeconds
  request := .call spec.actor data

/-- How the rule must end with an outbox that has held this queue. -/
structure Ends (owner : RuleMeta) (queue : List OutboundTransaction) (box : Outbox)
    (result : Except RuleFault RuleStatus) : Prop where
  /-- There is no interface, no answer to the list method, or no list of numbers. -/
  unlisted : (∀ contract ids, ¬ spec.Lists k contract ids) → ∃ fault, result = .error fault
  idle : ∀ contract, spec.Lists k contract [] → result = .ok .noCandidates
  /-- No check has said anything. -/
  unchecked : ∀ contract ids, spec.Lists k contract ids → ids ≠ [] →
    (∀ id ∈ ids, spec.answer? k contract id = none) →
      result = .error (.allChecksFailed ids.length)
  untargeted : ∀ contract ids fault, spec.Lists k contract ids →
    (∃ id ∈ ids, spec.answer? k contract id ≠ none) → spec.actor ≠ spec.contract →
      k.contract spec.actor = .error fault → result = .error fault
  unencoded : ∀ contract ids target id fault, spec.Lists k contract ids →
    spec.Targets k contract target → id ∈ spec.due k contract ids →
      target.encodeAction spec.action id = .error fault → result = .error fault
  complete : ∀ contract ids target, spec.Lists k contract ids →
    (∃ id ∈ ids, spec.answer? k contract id ≠ none) → spec.Targets k contract target →
    (∀ id ∈ spec.due k contract ids, ∃ data, target.encodeAction spec.action id = .ok data) →
      result = .ok .completed ∧ ∃ added, box = ⟨owner, queue ++ added⟩ ∧
        List.Forall₂ (fun id tx => ∃ data, target.encodeAction spec.action id = .ok data ∧
          tx = spec.transaction owner id data) (spec.due k contract ids) added
  /-- Nothing is queued unless all of it is. -/
  kept : result ≠ .ok .completed → box = ⟨owner, queue⟩

end Ends

/-! ## How the rule ends -/

section Outcome

variable {spec : SweepSpec} {k : Knowledge} {contract target : Abi.Contract} {ids : List Word}
  {owner : RuleMeta} {queue : List OutboundTransaction} {fault : RuleFault}

/-- What the list comes to, with the interface by which it is read. -/
def listed (spec : SweepSpec) (k : Knowledge) : Except RuleFault (Abi.Contract × List Word) := do
  let contract ← k.contract spec.contract
  let outputs ← k.outputs spec.contract contract spec.listMethod []
  let ids ← Abi.Value.firstNumbers outputs
  return (contract, ids)

theorem lists_iff : spec.Lists k contract ids ↔ spec.listed k = .ok (contract, ids) := by
  unfold Lists listed
  simp only [Except.bind_eq_ok, Abi.Value.firstNumbers_eq_ok]
  constructor
  · rintro ⟨hc, items, others, ho, hids⟩
    exact ⟨contract, hc, _, ho, ids, ⟨items, others, rfl, hids⟩, rfl⟩
  · rintro ⟨contract', hc, outputs, ho, ids', ⟨items, others, rfl, hids⟩, h⟩
    cases h
    exact ⟨hc, items, others, ho, hids⟩

/-- What is found out, once there is a list. -/
def judged (spec : SweepSpec) (k : Knowledge) (contract : Abi.Contract) (ids : List Word) :
    Except RuleFault (Option (List Word × Abi.Contract)) :=
  if ids.isEmpty then .ok none
  else
    let outcome := BatchOutcome.ofResults (ids.map (spec.checked k contract))
    if outcome.allFailed then .error (.allChecksFailed outcome.failed)
    else if spec.actor = spec.contract then .ok (some (passing outcome, contract))
    else (k.contract spec.actor).map fun target => some (passing outcome, target)

theorem finding_eq (spec : SweepSpec) (k : Knowledge) :
    spec.finding k = spec.listed k >>= fun p => spec.judged k p.1 p.2 := by
  unfold finding listed
  simp only [bind_assoc]
  refine bind_congr fun contract => bind_congr fun outputs => bind_congr fun ids => ?_
  show (if ids.isEmpty then _ else _) = spec.judged k contract ids
  unfold judged
  refine ite_congr rfl (fun _ => rfl) fun _ => ?_
  dsimp only
  cases (BatchOutcome.ofResults (ids.map (spec.checked k contract))).allFailed with
  | true => rfl
  | false =>
      simp only [Bool.false_eq_true, if_false]
      split
      · rfl
      · cases k.contract spec.actor <;> rfl

theorem finding_of_lists (h : spec.Lists k contract ids) :
    spec.finding k = spec.judged k contract ids := by
  rw [finding_eq, lists_iff.mp h]
  rfl

theorem exists_fault_of_unlisted (h : ∀ contract ids, ¬ spec.Lists k contract ids) :
    ∃ fault, spec.finding k = .error fault := by
  rw [finding_eq]
  cases hl : spec.listed k with
  | error fault => exact ⟨fault, rfl⟩
  | ok p => exact (h p.1 p.2 (lists_iff.mpr hl)).elim

/-! ### Checks -/

theorem toOption_checked (spec : SweepSpec) (k : Knowledge) (contract : Abi.Contract) (id : Word) :
    (spec.checked k contract id).toOption = (spec.answer? k contract id).map (id, ·) := by
  unfold checked answer?
  cases k.outputs spec.contract contract spec.checkMethod [.uint id 256] with
  | error fault => rfl
  | ok outputs =>
      cases outputs with
      | nil => rfl
      | cons output others => cases output <;> rfl

theorem exists_fault_of_checked_iff {id : Word} :
    (∃ fault, spec.checked k contract id = .error fault) ↔ spec.answer? k contract id = none := by
  rw [← Option.map_eq_none_iff, ← toOption_checked]
  cases spec.checked k contract id <;> simp [Except.toOption]

theorem succeeded_ofResults :
    (BatchOutcome.ofResults (ids.map (spec.checked k contract))).succeeded =
      ids.filterMap fun id => (spec.answer? k contract id).map (id, ·) := by
  simp only [BatchOutcome.ofResults, List.filterMap_map, Function.comp_def, toOption_checked]

theorem passing_ofResults :
    passing (.ofResults (ids.map (spec.checked k contract))) = spec.due k contract ids := by
  unfold passing due
  rw [succeeded_ofResults]
  induction ids with
  | nil => rfl
  | cons id ids ih =>
      rw [List.filterMap_cons, List.filter_cons]
      rcases spec.answer? k contract id with _ | _ | _
      · exact ih
      · exact ih
      · exact congrArg _ ih

theorem failed_ofResults (h : ∀ id ∈ ids, spec.answer? k contract id = none) :
    (BatchOutcome.ofResults (ids.map (spec.checked k contract))).failed = ids.length := by
  rw [BatchOutcome.failed_eq_length, List.length_map]
  exact List.forall_mem_map.mpr fun id hid => exists_fault_of_checked_iff.mpr (h id hid)

theorem allFailed_ofResults :
    (BatchOutcome.ofResults (ids.map (spec.checked k contract))).allFailed = true ↔
      ids ≠ [] ∧ ∀ id ∈ ids, spec.answer? k contract id = none := by
  simp only [BatchOutcome.allFailed_iff, ne_eq, List.map_eq_nil_iff, List.forall_mem_map,
    exists_fault_of_checked_iff]

/-! ### Actions -/

theorem act_of_error {id : Word} (hid : id ∈ ids)
    (he : target.encodeAction spec.action id = .error fault) (box : Outbox) :
    spec.act target ids box = (box, .error fault) := by
  cases ids with
  | nil => simp at hid
  | cons first ids =>
      unfold act
      rw [Abi.Contract.encodeAction_eq_error he first]

theorem exists_added_of_act (owner : RuleMeta) (queue : List OutboundTransaction)
    (he : ∀ id ∈ ids, ∃ data, target.encodeAction spec.action id = .ok data) :
    ∃ added, spec.act target ids ⟨owner, queue⟩ = (⟨owner, queue ++ added⟩, .ok .completed) ∧
      List.Forall₂ (fun id tx => ∃ data, target.encodeAction spec.action id = .ok data ∧
        tx = spec.transaction owner id data) ids added := by
  induction ids generalizing queue with
  | nil => exact ⟨[], by rw [List.append_nil]; rfl, .nil⟩
  | cons id ids ih =>
      obtain ⟨⟨data, hdata⟩, hids⟩ := List.forall_mem_cons.mp he
      obtain ⟨added, hact, hadded⟩ := ih (queue ++ [spec.transaction owner id data]) hids
      refine ⟨spec.transaction owner id data :: added, ?_, .cons ⟨data, hdata, rfl⟩ hadded⟩
      unfold act
      rw [hdata, List.append_cons]
      exact hact

theorem act_of_not_completed (owner : RuleMeta) (queue : List OutboundTransaction)
    (h : (spec.act target ids ⟨owner, queue⟩).2 ≠ .ok .completed) :
    (spec.act target ids ⟨owner, queue⟩).1 = ⟨owner, queue⟩ := by
  by_cases he : ∀ id ∈ ids, ∃ data, target.encodeAction spec.action id = .ok data
  · obtain ⟨added, hact, -⟩ := exists_added_of_act owner queue he
    exact (h (congrArg Prod.snd hact)).elim
  · simp only [not_forall] at he
    obtain ⟨id, hid, hnone⟩ := he
    cases hd : target.encodeAction spec.action id with
    | ok data => exact (hnone ⟨data, hd⟩).elim
    | error fault => rw [act_of_error hid hd]

/-! ### All cases -/

theorem judged_of_answered (hne : ∃ id ∈ ids, spec.answer? k contract id ≠ none) :
    spec.judged k contract ids =
      (if spec.actor = spec.contract then .ok contract else k.contract spec.actor).map
        fun target => some (spec.due k contract ids, target) := by
  obtain ⟨id, hid, hanswer⟩ := hne
  have some_id : ids.isEmpty = false := List.isEmpty_eq_false_iff.mpr (List.ne_nil_of_mem hid)
  have some_answer : ¬ (BatchOutcome.ofResults (ids.map (spec.checked k contract))).allFailed = true :=
    fun hall => hanswer ((allFailed_ofResults.mp hall).2 id hid)
  unfold judged
  simp only [some_id, Bool.false_eq_true, if_false, if_neg some_answer, passing_ofResults]
  split <;> rfl

theorem judged_of_unchecked (hne : ids ≠ []) (hnone : ∀ id ∈ ids, spec.answer? k contract id = none) :
    spec.judged k contract ids = .error (.allChecksFailed ids.length) := by
  have all_failed := allFailed_ofResults.mpr ⟨hne, hnone⟩
  unfold judged
  simp only [List.isEmpty_eq_false_iff.mpr hne, Bool.false_eq_true, if_false, all_failed, if_true,
    failed_ofResults hnone]

theorem outcome_of_error (h : spec.finding k = .error fault) (box : Outbox) :
    spec.outcome k box = (box, .error fault) := by
  rw [outcome, h]

theorem outcome_of_due (hl : spec.Lists k contract ids)
    (hne : ∃ id ∈ ids, spec.answer? k contract id ≠ none) (ht : spec.Targets k contract target)
    (box : Outbox) : spec.outcome k box = spec.act target (spec.due k contract ids) box := by
  rw [outcome, finding_of_lists hl, judged_of_answered hne]
  obtain ⟨heq, rfl⟩ | ⟨hne, htarget⟩ := ht
  · rw [if_pos heq]
    rfl
  · rw [if_neg hne, htarget]
    rfl

theorem ends_outcome (spec : SweepSpec) (k : Knowledge) (owner : RuleMeta)
    (queue : List OutboundTransaction) :
    spec.Ends k owner queue (spec.outcome k ⟨owner, queue⟩).1 (spec.outcome k ⟨owner, queue⟩).2 where
  unlisted h := by
    obtain ⟨fault, hf⟩ := exists_fault_of_unlisted h
    rw [outcome_of_error hf]
    exact ⟨fault, rfl⟩
  idle contract hl := by
    rw [outcome, finding_of_lists hl]
    rfl
  unchecked contract ids hl hne hnone := by
    rw [outcome_of_error ((finding_of_lists hl).trans (judged_of_unchecked hne hnone))]
  untargeted contract ids fault hl hne ha hf := by
    have found : spec.finding k = .error fault := by
      rw [finding_of_lists hl, judged_of_answered hne, if_neg ha, hf]
      rfl
    rw [outcome_of_error found]
  unencoded contract ids target id fault hl ht hid he := by
    obtain ⟨hmem, hdue⟩ := List.mem_filter.mp hid
    have answered : ∃ id ∈ ids, spec.answer? k contract id ≠ none :=
      ⟨id, hmem, by simp [of_decide_eq_true hdue]⟩
    rw [outcome_of_due hl answered ht, act_of_error hid he]
  complete contract ids target hl hne ht he := by
    obtain ⟨added, hact, hadded⟩ := exists_added_of_act owner queue he
    rw [outcome_of_due hl hne ht, hact]
    exact ⟨rfl, added, rfl, hadded⟩
  kept h := by
    unfold outcome at h ⊢
    match hf : spec.finding k with
    | .error fault => rfl
    | .ok none => rfl
    | .ok (some (ids, target)) =>
        rw [hf] at h
        exact act_of_not_completed owner queue h

end Outcome

end SweepSpec

end ChainWatch
