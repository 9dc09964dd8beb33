import ChainWatch.Proofs.Concurrency.Yield
import ChainWatch.Proofs.Rule.Makeup

/-!
# What rules find

Where the nodes and the explorer answer by a table, the outcome of a rule is a function of what can be
learned from them. Rules share the table of known interfaces, and each lookup may add to it; but what a
lookup finds there is what it would have been answered itself.
-/

namespace ChainWatch

open Concurrency

/-! ## Knowledge -/

/-- What can be learned about the chain and about interfaces. -/
structure Knowledge where
  proxy : Address → Except FleetFault ProxyInfo
  view : Address → Abi.Contract → String → List Abi.Value → Except FleetFault (List Abi.Value)
  text : Address → Except AbiFault String

namespace Knowledge

/-- The interface that describes calls to an address. -/
def contract (k : Knowledge) (a : Address) : Except RuleFault Abi.Contract := do
  let info ← (k.proxy a).mapError .fleet
  let text ← (k.text (info.source a)).mapError .abi
  match Abi.Contract.parse? text with
  | some contract => return contract
  | none => throw (.abi .unreadable)

theorem contract_eq {k : Knowledge} {a : Address} {info : ProxyInfo} {text : String}
    (hp : k.proxy a = .ok info) (ht : k.text (info.source a) = .ok text) :
    k.contract a = (Abi.Contract.parse? text).elim (.error (.abi .unreadable)) .ok := by
  rw [contract, hp]
  simp only [Except.mapError, bind, Except.bind, ht]
  cases Abi.Contract.parse? text <;> rfl

def outputs (k : Knowledge) (address : Address) (contract : Abi.Contract) (method : String)
    (inputs : List Abi.Value) : Except RuleFault (List Abi.Value) :=
  (k.view address contract method inputs).mapError .fleet

end Knowledge

namespace ThresholdSpec

/-- The transaction data for the value that is to be seen, if it has crossed the threshold. -/
def finding (spec : ThresholdSpec) (k : Knowledge) : Except RuleFault (Option (Word × Bytes)) := do
  let contract ← k.contract spec.contract
  let outputs ← k.outputs spec.contract contract spec.method []
  let value ← Abi.Value.firstNumber outputs
  if !spec.direction.crossed value spec.threshold then
    return none
  let target ← if spec.actor = spec.contract then pure contract else k.contract spec.actor
  let data ← target.encodeAction spec.action value
  return some (value, data)

/-- How the rule ends with its outbox. -/
def outcome (spec : ThresholdSpec) (k : Knowledge) (box : Outbox) :
    Outbox × Except RuleFault RuleStatus :=
  match spec.finding k with
  | .error fault => (box, .error fault)
  | .ok none => (box, .ok .completed)
  | .ok (some (value, data)) => (spec.act value data box, .ok .completed)

end ThresholdSpec

namespace SweepSpec

/-- Whether a candidate passes, or why its check fails. -/
def checked (spec : SweepSpec) (k : Knowledge) (contract : Abi.Contract) (id : Word) :
    Except RuleFault (Word × Bool) := do
  let outputs ← k.outputs spec.contract contract spec.checkMethod [.uint id 256]
  match outputs.head? with
  | some (.bool passed) => return (id, passed)
  | output =>
    throw (.stated s!"{spec.checkMethod} returned {Abi.Value.optionText output} for id {id.decimal}")

/-- The candidates that pass and the interface to call the action by. How many are checked at a time is
of no account. -/
def finding (spec : SweepSpec) (k : Knowledge) :
    Except RuleFault (Option (List Word × Abi.Contract)) := do
  let contract ← k.contract spec.contract
  let outputs ← k.outputs spec.contract contract spec.listMethod []
  let ids ← Abi.Value.firstNumbers outputs
  if ids.isEmpty then
    return none
  let outcome := BatchOutcome.ofResults (ids.map (spec.checked k contract))
  if outcome.allFailed then
    throw (.allChecksFailed outcome.failed)
  let target ← if spec.actor = spec.contract then pure contract else k.contract spec.actor
  return some (passing outcome, target)

def outcome (spec : SweepSpec) (k : Knowledge) (box : Outbox) :
    Outbox × Except RuleFault RuleStatus :=
  match spec.finding k with
  | .error fault => (box, .error fault)
  | .ok none => (box, .ok .noCandidates)
  | .ok (some (ids, target)) => spec.act target ids box

end SweepSpec

/-! ## The table of interfaces -/

/-- A question about the chain or to an explorer. -/
def Request.IsInquiry : Request → Prop
  | .explore _ => True
  | r => r.IsRead

theorem Request.IsRead.isInquiry {r : Request} (h : r.IsRead) : r.IsInquiry := by
  cases r with
  | explore => trivial
  | _ => exact h

namespace Explorer

/-- What a lookup comes to with such a table, when the explorer gives such answers. -/
def textOf (explorer : Explorer) (replies : Replies) (abis : AbiTable) (a : Address) :
    Except AbiFault String :=
  match abis.find? a with
  | some text => .ok text
  | none =>
    if explorer.base = "" then .error (.notFound a)
    else read a (replies (.explore (explorer.url a)))

/-- With the table in the memory all lookups come to what they come to with the given one. -/
def Agrees (explorer : Explorer) (replies : Replies) (abis : AbiTable) (m : State) : Prop :=
  ∀ a, explorer.textOf replies m.abis a = explorer.textOf replies abis a

variable {explorer : Explorer} {replies : Replies} {abis : AbiTable} {m m' : State} {a : Address}
  {trace : Trace system}

theorem Agrees.congr (h : explorer.Agrees replies abis m) (heq : m'.abis = m.abis) :
    explorer.Agrees replies abis m' := by
  unfold Agrees
  rw [heq]
  exact h

/-- A text enters the table that a lookup would bring anyway. -/
theorem Agrees.insert {text : String} (h : explorer.Agrees replies abis m)
    (ht : explorer.textOf replies abis a = .ok text) :
    explorer.Agrees replies abis { m with abis := m.abis.insert a text } := by
  intro b
  unfold textOf
  rw [AbiTable.find?_insert]
  by_cases hb : b = a
  · rw [if_pos hb, hb]
    exact ht.symm
  · rw [if_neg hb]
    exact h b

theorem textOf_of_known {text : String} (h : abis.find? a = some text) :
    explorer.textOf replies abis a = .ok text := by
  rw [textOf, h]

theorem textOf_of_nowhere (h : abis.find? a = none) (hb : explorer.base = "") :
    explorer.textOf replies abis a = .error (.notFound a) := by
  rw [textOf, h]
  exact if_pos hb

theorem textOf_of_unknown (h : abis.find? a = none) (hb : explorer.base ≠ "") :
    explorer.textOf replies abis a = read a (replies (.explore (explorer.url a))) := by
  rw [textOf, h]
  exact if_neg hb

/-- How a lookup can go. -/
inductive Looks (explorer : Explorer) (a : Address) : Trace system → Except AbiFault String → Prop where
  /-- The text is in the table. -/
  | known {text : String} (m : State) (hf : m.abis.find? a = some text) :
    Looks explorer a [.touched m m] (.ok text)
  /-- It is not, and there is no explorer. -/
  | nowhere (m : State) (hf : m.abis.find? a = none) (hb : explorer.base = "") :
    Looks explorer a [.touched m m] (.error (.notFound a))
  /-- The explorer has none either. -/
  | refused {fault : AbiFault} (m : State) (answer : Http.Outcome) (hf : m.abis.find? a = none)
    (hb : explorer.base ≠ "") (hread : read a answer = .error fault) :
    Looks explorer a [.touched m m, .sent (.explore (explorer.url a)),
      .answered (.explore (explorer.url a)) answer] (.error fault)
  /-- The explorer has one, and it enters the table. -/
  | learned {text : String} (m m' : State) (answer : Http.Outcome) (hf : m.abis.find? a = none)
    (hb : explorer.base ≠ "") (hread : read a answer = .ok text) :
    Looks explorer a [.touched m m, .sent (.explore (explorer.url a)),
      .answered (.explore (explorer.url a)) answer,
      .touched m' { m' with abis := m'.abis.insert a text }] (.ok text)

theorem runs_lookup_some {outcome : Except AbiFault String}
    (hr : (explorer.lookup a).run.Runs trace (some outcome)) : explorer.Looks a trace outcome := by
  rcases runs_exceptT_bind_some.mp hr with ⟨fault, hm, -⟩ | ⟨m, early, rest, hm, hl, rfl⟩
  · obtain ⟨v, -, ⟨⟩⟩ := runs_lift_some.mp hm
  obtain ⟨found, hm, heq⟩ := runs_lift_some.mp hm
  cases heq
  obtain rfl : early = [.touched m m] := Activity.runs_memory_some.mp hm
  dsimp only at hl
  cases hf : m.abis.find? a with
  | some text =>
      rw [hf] at hl
      obtain ⟨rfl, rfl⟩ := runs_exceptT_pure_some.mp hl
      exact .known m hf
  | none =>
      rw [hf] at hl
      dsimp only at hl
      split at hl
      · rename_i hb
        obtain ⟨rfl, rfl⟩ := runs_throw_some.mp hl
        exact .nowhere m hf hb
      · rename_i hb
        rcases runs_exceptT_bind_some.mp hl with ⟨fault, hq, -⟩ | ⟨answer, early, late, hq, hread, rfl⟩
        · obtain ⟨v, -, ⟨⟩⟩ := runs_lift_some.mp hq
        obtain ⟨answer', hq, heq⟩ := runs_lift_some.mp hq
        cases heq
        obtain rfl := Activity.runs_request_some.mp hq
        cases hread' : read a answer with
        | error fault =>
            rw [hread'] at hread
            obtain ⟨rfl, rfl⟩ := runs_throw_some.mp hread
            exact .refused m answer hf hb hread'
        | ok text =>
            rw [hread'] at hread
            rcases runs_exceptT_bind_some.mp hread with
              ⟨fault, hm, -⟩ | ⟨u, early, late, hm, hp, rfl⟩
            · obtain ⟨v, -, ⟨⟩⟩ := runs_lift_some.mp hm
            obtain ⟨u', hm, -⟩ := runs_lift_some.mp hm
            obtain ⟨m', rfl⟩ := Activity.runs_modify_some.mp hm
            obtain ⟨rfl, rfl⟩ := runs_exceptT_pure_some.mp hp
            exact .learned m m' answer hf hb hread'

end Explorer

namespace RuleContext

/-- With answers by the table the job comes to this value, and it leaves the table of interfaces such
that all lookups come to what they came to before. -/
abbrev Learns (context : RuleContext) (replies : Replies) (abis : AbiTable) {α : Type} (p : Job α)
    (value : α) : Prop :=
  p.Yields (Event.Quotes Request.IsInquiry replies) (context.explorer.Agrees replies abis) value

/-- What the rules of a context can learn. -/
def knowledge (context : RuleContext) (replies : Replies) (abis : AbiTable) : Knowledge where
  proxy a := context.fleet.queryAnswer replies (.proxy a)
  view address contract method inputs :=
    context.fleet.queryAnswer replies (.view address contract method inputs)
  text := context.explorer.textOf replies abis

variable {context : RuleContext} {replies : Replies} {abis : AbiTable}

theorem learns_query (r : Read) :
    context.Learns replies abis (context.fleet.query r).run (context.fleet.queryAnswer replies r) := by
  intro trace result hr he
  have hserves := (context.fleet.confined_query r).runs hr
  refine ⟨Trace.upholds_of_forall fun before after hm hb => hb.congr (hserves _ hm).abis_eq,
    fun _ => Fleet.eq_queryAnswer_of_runs hr fun event hm => ?_⟩
  have hquotes := he event hm
  cases event with
  | answered r answer => exact fun hread => hquotes hread.isInquiry
  | _ => trivial

/-- What a lookup finds in the table is what it would have been answered. -/
theorem learns_lookup (a : Address) :
    context.Learns replies abis (context.explorer.lookup a).run
      (context.explorer.textOf replies abis a) := by
  intro trace outcome hr he
  -- What it comes to by the table that it finds is what it comes to by the given one.
  have agreed (m : State) (hm : .touched m m ∈ trace)
      (ht : context.explorer.textOf replies m.abis a = outcome)
      (hfinds : trace.Finds (context.explorer.Agrees replies abis)) :
      outcome = context.explorer.textOf replies abis a :=
    ht.symm.trans (hfinds m m hm a)
  have asked {m : State} {answer : Http.Outcome} (hf : m.abis.find? a = none)
      (hb : context.explorer.base ≠ "")
      (hm : .answered (.explore (context.explorer.url a)) answer ∈ trace) :
      context.explorer.textOf replies m.abis a = Explorer.read a answer := by
    rw [Explorer.textOf_of_unknown hf hb, show answer = _ from he _ hm trivial]
  cases Explorer.runs_lookup_some hr with
  | known m hf =>
      exact ⟨fun hm => ⟨hm, trivial⟩, agreed m (by simp) (Explorer.textOf_of_known hf)⟩
  | nowhere m hf hb =>
      exact ⟨fun hm => ⟨hm, trivial⟩, agreed m (by simp) (Explorer.textOf_of_nowhere hf hb)⟩
  | refused m answer hf hb hread =>
      have ht := (asked hf hb (by simp)).trans hread
      exact ⟨fun hm => ⟨hm, trivial⟩, agreed m (by simp) ht⟩
  | learned m m' answer hf hb hread =>
      have ht := (asked hf hb (by simp)).trans hread
      exact ⟨fun hm => ⟨hm, fun hm' => ⟨hm'.insert ((hm a).symm.trans ht), trivial⟩⟩,
        agreed m (by simp) ht⟩

theorem learns_adapt {ε ε' α : Type} {x : ExceptT ε Job α} {value : Except ε α} (g : ε → ε')
    (hx : context.Learns replies abis x.run value) :
    context.Learns replies abis (x.adapt g).run (value.mapError g) :=
  hx.map _

theorem learns_callView (address : Address) (contract : Abi.Contract) (method : String)
    (inputs : List Abi.Value) :
    context.Learns replies abis (context.callView address contract method inputs).run
      ((context.knowledge replies abis).outputs address contract method inputs) :=
  learns_adapt _ (learns_query (.view address contract method inputs))

theorem learns_loadContract (a : Address) :
    context.Learns replies abis (context.loadContract a).run
      ((context.knowledge replies abis).contract a) := by
  refine yields_exceptT_bind (learns_adapt _ (learns_query (.proxy a))) fun info _ => ?_
  refine yields_exceptT_bind (learns_adapt _ (learns_lookup _)) fun text _ => ?_
  cases Abi.Contract.parse? text with
  | some contract => exact yields_exceptT_pure contract
  | none => exact yields_throw _

theorem learns_target {actor address : Address} {contract : Abi.Contract} {α : Type}
    {next : Abi.Contract → RuleJob α} {value : Abi.Contract → Except RuleFault α}
    (hn : ∀ target, context.Learns replies abis (next target).run (value target)) :
    context.Learns replies abis
      (if actor = address then pure contract >>= next
        else context.loadContract actor >>= next).run
      (if actor = address then pure contract >>= value
        else (context.knowledge replies abis).contract actor >>= value) := by
  split
  · exact hn contract
  · exact yields_exceptT_bind (learns_loadContract actor) fun target _ => hn target

end RuleContext

open RuleContext

variable {context : RuleContext} {replies : Replies} {abis : AbiTable}

namespace ThresholdSpec

theorem learns_observe (spec : ThresholdSpec) :
    context.Learns replies abis (spec.observe context).run
      (spec.finding (context.knowledge replies abis)) := by
  refine yields_exceptT_bind (learns_loadContract _) fun contract _ => ?_
  refine yields_exceptT_bind (context.learns_callView _ contract _ _) fun outputs _ => ?_
  refine yields_exceptT_bind (Activity.yields_pure _) fun value _ => ?_
  dsimp only
  split
  · exact yields_exceptT_pure none
  · refine learns_target fun target => ?_
    exact yields_exceptT_bind (Activity.yields_pure _) fun data _ => yields_exceptT_pure _

theorem learns_evaluate (spec : ThresholdSpec) (owner : RuleMeta) (box : Outbox) :
    context.Learns replies abis ((spec.rule owner context).evaluate box)
      (spec.outcome (context.knowledge replies abis) box) := by
  refine spec.learns_observe.bind ?_
  unfold outcome
  generalize spec.finding (context.knowledge replies abis) = found
  match found with
  | .error fault => exact Activity.yields_pure _
  | .ok none => exact Activity.yields_pure _
  | .ok (some (value, data)) => exact Activity.yields_pure _

end ThresholdSpec

/-- A batch comes to the results of its tasks, whatever its limit. -/
theorem Batch.learns_run {ε α : Type} {limit : Nat} {tasks : List (Job (Except ε α))}
    {results : List (Except ε α)} (hl : limit ≤ Batch.maxLimit)
    (ht : List.Forall₂ (context.Learns replies abis) tasks results) :
    context.Learns replies abis (Batch.run? limit tasks) (some (.ofResults results)) := by
  unfold Batch.run?
  rw [if_neg (Nat.not_lt.mpr hl)]
  exact (Activity.yields_joinBounded limit ht).bind (Activity.yields_pure _)

namespace SweepSpec

theorem learns_check (spec : SweepSpec) (contract : Abi.Contract) (id : Word) :
    context.Learns replies abis (spec.check context contract id).run
      (spec.checked (context.knowledge replies abis) contract id) := by
  refine yields_exceptT_bind (context.learns_callView _ contract _ _) fun outputs _ => ?_
  cases outputs.head? with
  | none => exact yields_throw _
  | some output =>
      cases output with
      | bool passed => exact yields_exceptT_pure (id, passed)
      | _ => exact yields_throw _

theorem learns_checks (spec : SweepSpec) (contract : Abi.Contract) (ids : List Word) :
    List.Forall₂ (context.Learns replies abis)
      (ids.map fun id => (spec.check context contract id).run)
      (ids.map (spec.checked (context.knowledge replies abis) contract)) :=
  List.forall₂_map_left_iff.mpr <| List.forall₂_map_right_iff.mpr <|
    List.forall₂_same.mpr fun id _ => spec.learns_check contract id

theorem learns_observe (spec : SweepSpec) {limit : Nat} (hl : limit ≤ Batch.maxLimit) :
    context.Learns replies abis (spec.observe limit context).run
      (spec.finding (context.knowledge replies abis)) := by
  refine yields_exceptT_bind (learns_loadContract _) fun contract _ => ?_
  refine yields_exceptT_bind (context.learns_callView _ contract _ _) fun outputs _ => ?_
  refine yields_exceptT_bind (Activity.yields_pure _) fun ids _ => ?_
  dsimp only
  split
  · exact yields_exceptT_pure none
  · refine yields_lift_bind (Batch.learns_run hl (spec.learns_checks contract ids)) ?_
    dsimp only
    split
    · exact yields_throw _
    · exact learns_target fun target => yields_exceptT_pure _

theorem learns_evaluate (spec : SweepSpec) (owner : RuleMeta) {limit : Nat}
    (hl : limit ≤ Batch.maxLimit) (box : Outbox) :
    context.Learns replies abis ((spec.rule owner limit context).evaluate box)
      (spec.outcome (context.knowledge replies abis) box) := by
  refine (spec.learns_observe hl).bind ?_
  unfold outcome
  generalize spec.finding (context.knowledge replies abis) = found
  match found with
  | .error fault => exact Activity.yields_pure _
  | .ok none => exact Activity.yields_pure _
  | .ok (some (ids, target)) => exact Activity.yields_pure _

end SweepSpec

end ChainWatch
