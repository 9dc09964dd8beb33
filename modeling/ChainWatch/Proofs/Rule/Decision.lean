import ChainWatch.Proofs.Rule.Report
import ChainWatch.Proofs.Text.Notation

/-!
# Decisions and their keys

A key is the digest of a text that spells a decision out: whose it is, which contract it is about and
what was observed there. The text may be cut in many ways, since labels may contain the separator, but
only in one way from its end. So different decisions have different texts, and where keys coincide
either the decisions do or the digest has collided.
-/

namespace ChainWatch

open Concurrency

/-! ## Function names -/

namespace Abi

theorem isNamePart_of_mem_name {name : List Char} (h : isName name) : ∀ c ∈ name, isNamePart c := by
  cases name with
  | nil => simp
  | cons c rest =>
      obtain ⟨hstart, hrest⟩ := Bool.and_eq_true_iff.mp h
      refine List.forall_mem_cons.mpr ⟨?_, List.all_eq_true.mp hrest⟩
      exact Bool.or_eq_true_iff.mpr (.inl hstart)

namespace Contract

/-- All functions have names, if possibly empty ones. -/
def Named (contract : Contract) : Prop :=
  ∀ f ∈ contract.functions, isName f.name.toList

theorem isName_of_asName {value : Json} {name : String} (h : asName value = some name) :
    isName name.toList := by
  unfold asName at h
  split at h
  · split at h
    · cases h
      assumption
    · cases h
  · cases h

theorem Named.add {contract other : Contract} {entry : Json} (h : contract.Named)
    (ha : contract.add? entry = some other) : other.Named := by
  simp only [add?, Option.bind_eq_bind, Option.bind_eq_some_iff] at ha
  obtain ⟨⟨kind, content⟩, -, ha⟩ := ha
  dsimp only at ha
  split at ha
  · simp only [Option.bind_eq_some_iff] at ha
    obtain ⟨members, -, field, -, name, hname, -, -, inputs, -, -, -, outputs, -, ha⟩ := ha
    cases ha
    obtain ⟨value, -, hvalue⟩ := Option.bind_eq_some_iff.mp hname
    refine List.forall_mem_append.mpr ⟨h, ?_⟩
    simpa using isName_of_asName hvalue
  · obtain ⟨fields, -, ha⟩ := Option.bind_eq_some_iff.mp ha
    split at ha
    · simp only [Option.bind_eq_some_iff] at ha
      obtain ⟨name, -, -, -, -, -, ha⟩ := ha
      cases ha
      exact h
    · cases ha
  · obtain ⟨fields, -, ha⟩ := Option.bind_eq_some_iff.mp ha
    split at ha
    · simp only [Option.bind_eq_some_iff] at ha
      obtain ⟨name, -, -, -, ha⟩ := ha
      cases ha
      exact h
    · cases ha
  · simp only [Option.bind_eq_some_iff] at ha
    obtain ⟨members, -, field, -, inputs, -, ha⟩ := ha
    split at ha
    · cases ha
    · cases ha
      exact h
  · obtain ⟨members, -, ha⟩ := Option.bind_eq_some_iff.mp ha
    split at ha
    · cases ha
    · cases ha
      exact h
  · obtain ⟨members, -, ha⟩ := Option.bind_eq_some_iff.mp ha
    split at ha
    · cases ha
    · cases ha
      exact h
  · cases ha

theorem named_of_parse? {text : String} {contract : Contract} (h : parse? text = some contract) :
    contract.Named := by
  have added (entries : List Json) (start : Contract) (hf : start.Named)
      (ha : entries.foldlM add? start = some contract) : contract.Named := by
    induction entries generalizing start with
    | nil => cases ha; exact hf
    | cons entry entries ih =>
        rw [List.foldlM_cons] at ha
        obtain ⟨next, hn, ha⟩ := Option.bind_eq_some_iff.mp ha
        exact ih next (hf.add hn) ha
  unfold parse? at h
  split at h
  · exact added _ empty (by simp [Named, empty]) h
  · cases h

theorem Named.isName_of_overload? {contract : Contract} (h : contract.Named) {method : String}
    {arity : Nat} {f : Function} (hf : contract.overload? method arity = some f) :
    isName method.toList := by
  obtain ⟨hmem, hname⟩ := List.mem_filter.mp (List.mem_of_find?_eq_some hf)
  rw [← beq_iff_eq.mp hname]
  exact h f hmem

end Contract

end Abi

/-! ## What is observed -/

section Observations

variable {context : RuleContext} {address : Address} {contract : Abi.Contract} {method : String}
  {inputs : List Abi.Value} {trace : Trace system}

namespace RuleContext

/-- A view that was answered is a function of the contract. -/
theorem exists_overload_of_callView {outputs : List Abi.Value}
    (hr : (context.callView address contract method inputs).run.Runs trace (some (.ok outputs))) :
    ∃ f, contract.overload? method inputs.length = some f := by
  obtain ⟨result, hr, heq⟩ := runs_adapt_some.mp hr
  obtain ⟨_, reading, -, -, ⟨replies, ha⟩, hanswer⟩ := Fleet.runs_callView_of_fleet hr
  rw [hanswer replies ha] at heq
  cases hv : context.fleet.viewAnswer address contract method inputs replies with
  | error fault => rw [hv] at heq; cases heq
  | ok found =>
      obtain ⟨e, -, height, ⟨hsees, -⟩, -⟩ := Fleet.viewAnswer_eq_ok_iff.mp hv
      unfold Endpoint.viewOutcome at hsees
      split at hsees
      · cases hsees
      · exact ⟨_, ‹_›⟩

theorem named_of_loadContract
    (hr : (context.loadContract address).run.Runs trace (some (.ok contract))) :
    contract.Named := by
  rcases runs_exceptT_bind_some.mp hr with ⟨_, -, ⟨⟩⟩ | ⟨info, _, _, -, hr, -⟩
  rcases runs_exceptT_bind_some.mp hr with ⟨_, -, ⟨⟩⟩ | ⟨text, _, _, -, hr, -⟩
  split at hr
  · obtain ⟨-, heq⟩ := runs_exceptT_pure_some.mp hr
    cases heq
    exact Abi.Contract.named_of_parse? ‹_›
  · obtain ⟨-, heq⟩ := runs_throw_some.mp hr
    cases heq

end RuleContext

theorem ThresholdSpec.isName_of_observe {spec : ThresholdSpec} {found : Option (Word × Bytes)}
    (hr : (spec.observe context).run.Runs trace (some (.ok found))) : Abi.isName spec.method.toList := by
  rcases runs_exceptT_bind_some.mp hr with ⟨_, -, ⟨⟩⟩ | ⟨contract, _, _, hload, hr, -⟩
  rcases runs_exceptT_bind_some.mp hr with ⟨_, -, ⟨⟩⟩ | ⟨outputs, _, _, hview, -, -⟩
  obtain ⟨f, hf⟩ := RuleContext.exists_overload_of_callView hview
  exact (RuleContext.named_of_loadContract hload).isName_of_overload? hf

end Observations

/-! ## Decisions -/

/-- What a rule has decided upon: under its label and about a contract, in view of the value of a
method, or in view of one candidate. -/
inductive Decision where
  | crossing (label : String) (contract : Address) (method : String) (value : Word)
  | candidate (label : String) (contract : Address) (id : Word)
  deriving DecidableEq

namespace Decision

def parts : Decision → List String
  | crossing label contract method value => [label, contract.checksum, method, value.decimal]
  | candidate label contract id => [label, contract.checksum, id.decimal]

/-- The text that the key is a digest of. -/
def text (d : Decision) : String := decisionText d.parts

def key (d : Decision) : String := dedupKey d.parts

def kind : Decision → RuleKind
  | crossing .. => .viewThreshold
  | candidate .. => .positionSweep

/-- The method that was read is one that a contract may have. -/
def Named : Decision → Prop
  | crossing _ _ method _ => Abi.isName method.toList
  | candidate _ _ _ => True

/-! ### Cutting the text -/

def separator : Char := '\x1f'

/-- What stands before the last two or three parts. -/
def front : Decision → List Char
  | crossing label contract method _ =>
    (label.toList ++ separator :: contract.checksum.toList) ++ separator :: method.toList
  | candidate label contract _ => label.toList ++ separator :: contract.checksum.toList

def last : Decision → Word
  | crossing _ _ _ value => value
  | candidate _ _ id => id

theorem toList_text (d : Decision) :
    d.text.toList = d.front ++ separator :: d.last.decimal.toList := by
  cases d <;> simp [text, parts, decisionText, front, last, separator]

/-- A text is cut in one way at the last separator in it. -/
theorem append_separator_inj {s : Char} {a b c d : List Char} (hb : s ∉ b) (hd : s ∉ d)
    (h : a ++ s :: b = c ++ s :: d) : a = c ∧ b = d := by
  rcases List.append_eq_append_iff.mp h with ⟨more, rfl, hmore⟩ | ⟨more, rfl, hmore⟩
  · cases more with
    | nil => simpa using hmore
    | cons c more => exact (hb (by simp [(List.cons.inj hmore).2])).elim
  · cases more with
    | nil => simpa using hmore.symm
    | cons c more => exact (hd (by simp [(List.cons.inj hmore).2])).elim

theorem separator_not_mem_decimal (w : Word) : separator ∉ w.decimal.toList := by
  intro h
  rw [Word.decimal, String.toList_ofList] at h
  cases Text.isSome_digitValue?_of_mem_decimal h

theorem separator_not_mem_checksum (a : Address) : separator ∉ a.checksum.toList := by
  intro h
  rw [Address.checksum, String.toList_ofList] at h
  simp only [List.mem_cons] at h
  rcases h with h | h | h
  · cases h
  · cases h
  · cases Address.isSome_digitValue?_of_mem_checksumDigits h

theorem separator_not_mem_of_isName {name : List Char} (h : Abi.isName name) : separator ∉ name := by
  intro hm
  cases Abi.isNamePart_of_mem_name h _ hm

/-- No name is the text of an address. -/
theorem checksum_ne_of_isName {name : String} (h : Abi.isName name.toList) (a : Address) :
    name.toList ≠ a.checksum.toList := by
  intro heq
  rw [heq, Address.checksum, String.toList_ofList] at h
  cases h

/-- The label and the contract of a text's beginning. -/
theorem label_and_contract_inj {label label' : String} {contract contract' : Address}
    (h : label.toList ++ separator :: contract.checksum.toList =
      label'.toList ++ separator :: contract'.checksum.toList) :
    label = label' ∧ contract = contract' := by
  obtain ⟨hlabel, hcontract⟩ := append_separator_inj (separator_not_mem_checksum _)
    (separator_not_mem_checksum _) h
  exact ⟨String.toList_inj.mp hlabel, Address.checksum_injective (String.toList_inj.mp hcontract)⟩

/-- Different decisions have different texts. -/
theorem text_injective {d d' : Decision} (hd : d.Named) (hd' : d'.Named) (h : d.text = d'.text) :
    d = d' := by
  have hcut := congrArg String.toList h
  rw [toList_text, toList_text] at hcut
  obtain ⟨hfront, hlast⟩ := append_separator_inj (separator_not_mem_decimal _)
    (separator_not_mem_decimal _) hcut
  have hvalue := Word.decimal_injective (String.toList_inj.mp hlast)
  cases d with
  | crossing label contract method value =>
      have hmethod : separator ∉ method.toList := separator_not_mem_of_isName hd
      cases d' with
      | crossing label' contract' method' value' =>
          obtain ⟨hrest, hname⟩ :=
            append_separator_inj hmethod (separator_not_mem_of_isName hd') hfront
          obtain ⟨rfl, rfl⟩ := label_and_contract_inj hrest
          obtain rfl := String.toList_inj.mp hname
          exact congrArg _ hvalue
      | candidate label' contract' id =>
          obtain ⟨-, hname⟩ := append_separator_inj hmethod (separator_not_mem_checksum _) hfront
          exact (checksum_ne_of_isName hd _ hname).elim
  | candidate label contract id =>
      cases d' with
      | crossing label' contract' method value =>
          obtain ⟨-, hname⟩ := append_separator_inj (separator_not_mem_checksum _)
            (separator_not_mem_of_isName hd') hfront
          exact (checksum_ne_of_isName hd' _ hname.symm).elim
      | candidate label' contract' id' =>
          obtain ⟨rfl, rfl⟩ := label_and_contract_inj hfront
          exact congrArg _ hvalue

end Decision

/-! ## Transactions and their decisions -/

/-- In a run with these events, the rule for an entry queues the transaction in view of the decision:
the value that it has read, or a candidate that has passed its check. -/
inductive RuleEntry.Queues (context : RuleContext) (defaultLimit : Nat) (entry : RuleEntry)
    (trace : Trace system) : OutboundTransaction → Decision → Prop where
  | crossing {spec : ThresholdSpec} {value : Word} {data : Bytes}
      (hk : RuleKind.ofName? entry.kind = some .viewThreshold)
      (hs : ThresholdSpec.ofJson? entry.params = some spec)
      (ho : (spec.observe context).run.Runs trace (some (.ok (some (value, data))))) :
      Queues context defaultLimit entry trace
        (Outbox.stamp entry.stamp (spec.context entry.label value)
          (dedupKey (spec.decision entry.label value)) (.call spec.actor data))
        (.crossing entry.label spec.contract spec.method value)
  | candidate {spec : SweepSpec} {ids : List Word} {target : Abi.Contract} {id : Word} {data : Bytes}
      (hk : RuleKind.ofName? entry.kind = some .positionSweep)
      (hs : SweepSpec.ofJson? entry.params = some spec)
      (ho : (spec.observe (Batch.limit (spec.concurrency.getD defaultLimit)) context).run.Runs trace
        (some (.ok (some (ids, target)))))
      (hid : id ∈ ids) (hd : target.encodeAction spec.action id = .ok data) :
      Queues context defaultLimit entry trace
        (Outbox.stamp entry.stamp (spec.context entry.label id)
          (dedupKey (spec.decision entry.label id)) (.call spec.actor data))
        (.candidate entry.label spec.contract id)

namespace RuleEntry.Queues

variable {context : RuleContext} {defaultLimit : Nat} {entry : RuleEntry} {trace : Trace system}
  {tx : OutboundTransaction} {d : Decision}

theorem named (h : entry.Queues context defaultLimit trace tx d) : d.Named := by
  cases h with
  | crossing _ _ ho => exact ThresholdSpec.isName_of_observe ho
  | candidate => trivial

theorem dedupKey_eq (h : entry.Queues context defaultLimit trace tx d) : tx.dedupKey = d.key := by
  cases h <;> rfl

theorem kind_eq (h : entry.Queues context defaultLimit trace tx d) :
    RuleKind.ofName? entry.kind = some d.kind := by
  cases h <;> assumption

end RuleEntry.Queues

section Evaluations

variable {context : RuleContext} {owner : RuleMeta} {trace : Trace system} {box : Outbox}
  {result : Except RuleFault RuleStatus} {tx : OutboundTransaction}

/-- What a threshold rule has queued goes back to what it has read. -/
theorem ThresholdSpec.exists_observed {spec : ThresholdSpec}
    (hr : ((spec.rule owner context).evaluate (.empty owner)).Runs trace (some (box, result)))
    (htx : tx ∈ box.queue) :
    ∃ value data, (spec.observe context).run.Runs trace (some (.ok (some (value, data)))) ∧
      tx = Outbox.stamp owner (spec.context owner.label value)
        (dedupKey (spec.decision owner.label value)) (.call spec.actor data) := by
  obtain ⟨observed, early, late, ho, hl, rfl⟩ := Activity.runs_bind_some.mp hr
  rcases observed with fault | _ | ⟨value, data⟩
  · obtain ⟨-, h⟩ := Activity.runs_pure_some.mp hl
    cases h
    cases htx
  · obtain ⟨-, h⟩ := Activity.runs_pure_some.mp hl
    cases h
    cases htx
  · obtain ⟨rfl, h⟩ := Activity.runs_pure_some.mp hl
    cases h
    rw [List.append_nil]
    exact ⟨value, data, ho, List.mem_singleton.mp htx⟩

/-- What a sweep adds to an outbox stands for candidates whose call could be encoded. -/
theorem SweepSpec.exists_id_of_act {spec : SweepSpec} {target : Abi.Contract} {ids : List Word}
    (h : tx ∈ (spec.act target ids box).1.queue) :
    tx ∈ box.queue ∨ ∃ id ∈ ids, ∃ data, target.encodeAction spec.action id = .ok data ∧
      tx = Outbox.stamp box.owner (spec.context box.owner.label id)
        (dedupKey (spec.decision box.owner.label id)) (.call spec.actor data) := by
  induction ids generalizing box with
  | nil => exact .inl h
  | cons id ids ih =>
      unfold act at h
      cases hd : target.encodeAction spec.action id with
      | error fault => rw [hd] at h; exact .inl h
      | ok data =>
          rw [hd] at h
          rcases ih h with h | ⟨other, hmem, h⟩
          · rw [Outbox.queue_push, List.mem_append, List.mem_singleton] at h
            exact h.imp_right fun h => ⟨id, List.mem_cons_self, data, hd, h⟩
          · exact .inr ⟨other, List.mem_cons_of_mem _ hmem, h⟩

/-- What a sweep has queued goes back to a candidate that has passed. -/
theorem SweepSpec.exists_observed {spec : SweepSpec} {limit : Nat}
    (hr : ((spec.rule owner limit context).evaluate (.empty owner)).Runs trace (some (box, result)))
    (htx : tx ∈ box.queue) :
    ∃ ids target id data, (spec.observe limit context).run.Runs trace
        (some (.ok (some (ids, target)))) ∧ id ∈ ids ∧
      target.encodeAction spec.action id = .ok data ∧
      tx = Outbox.stamp owner (spec.context owner.label id)
        (dedupKey (spec.decision owner.label id)) (.call spec.actor data) := by
  obtain ⟨observed, early, late, ho, hl, rfl⟩ := Activity.runs_bind_some.mp hr
  rcases observed with fault | _ | ⟨ids, target⟩
  · obtain ⟨-, h⟩ := Activity.runs_pure_some.mp hl
    cases h
    cases htx
  · obtain ⟨-, h⟩ := Activity.runs_pure_some.mp hl
    cases h
    cases htx
  · obtain ⟨rfl, h⟩ := Activity.runs_pure_some.mp hl
    have hbox : box = (spec.act target ids (.empty owner)).1 := congrArg Prod.fst h
    rw [List.append_nil]
    rcases SweepSpec.exists_id_of_act (hbox ▸ htx) with h | ⟨id, hid, data, hd, htx⟩
    · cases h
    · exact ⟨ids, target, id, data, ho, hid, hd, htx⟩

end Evaluations

namespace RuleFactory

variable {context : RuleContext} {defaultLimit : Nat} {entry : RuleEntry} {rule : Rule}
  {trace : Trace system} {box : Outbox} {result : Except RuleFault RuleStatus}
  {tx : OutboundTransaction}

/-- Whatever a rule has queued when its evaluation ends, well or not, goes back to a decision. -/
theorem exists_decision (hb : standard context defaultLimit entry = .ok rule)
    (hr : (rule.evaluate (.empty rule.owner)).Runs trace (some (box, result)))
    (htx : tx ∈ box.queue) : ∃ d, entry.Queues context defaultLimit trace tx d := by
  unfold standard at hb
  split at hb
  · cases hb
  · split at hb
    · cases hb
    · cases hb
      obtain ⟨value, data, ho, rfl⟩ := ThresholdSpec.exists_observed hr htx
      exact ⟨_, .crossing ‹_› ‹_› ho⟩
  · split at hb
    · cases hb
    · cases hb
      obtain ⟨ids, target, id, data, ho, hid, hd, rfl⟩ := SweepSpec.exists_observed hr htx
      exact ⟨_, .candidate ‹_› ‹_› ho hid hd⟩

/-- Two transactions that rules have queued carry the digests of the texts of their decisions. These
texts are equal exactly if the decisions are the same: of the same kind, under the same label, about the
same contract and in view of the same reading or candidate. So equal keys of different decisions are two
texts with one digest. -/
theorem queued_texts_eq_iff {context' : RuleContext} {defaultLimit' : Nat} {entry' : RuleEntry}
    {rule' : Rule} {trace' : Trace system} {box' : Outbox} {result' : Except RuleFault RuleStatus}
    {tx' : OutboundTransaction}
    (hb : standard context defaultLimit entry = .ok rule)
    (hb' : standard context' defaultLimit' entry' = .ok rule')
    (hr : (rule.evaluate (.empty rule.owner)).Runs trace (some (box, result)))
    (hr' : (rule'.evaluate (.empty rule'.owner)).Runs trace' (some (box', result')))
    (htx : tx ∈ box.queue) (htx' : tx' ∈ box'.queue) :
    (∃ d, entry.Queues context defaultLimit trace tx d) ∧
      (∃ d', entry'.Queues context' defaultLimit' trace' tx' d') ∧
      ∀ d d', entry.Queues context defaultLimit trace tx d →
        entry'.Queues context' defaultLimit' trace' tx' d' →
        tx.dedupKey = (Keccak.digest (Bytes.ofString d.text)).toHex ∧
        tx'.dedupKey = (Keccak.digest (Bytes.ofString d'.text)).toHex ∧
        (d.text = d'.text ↔ d = d') ∧
        (tx.dedupKey = tx'.dedupKey → d = d' ∨ d.text ≠ d'.text ∧
          Keccak.digest (Bytes.ofString d.text) = Keccak.digest (Bytes.ofString d'.text)) := by
  refine ⟨exists_decision hb hr htx, exists_decision hb' hr' htx', fun d d' hd hd' => ?_⟩
  have htext : d.text = d'.text ↔ d = d' :=
    ⟨Decision.text_injective hd.named hd'.named, congrArg _⟩
  refine ⟨hd.dedupKey_eq, hd'.dedupKey_eq, htext, fun hkey => ?_⟩
  rw [← htext]
  refine or_iff_not_imp_left.mpr fun hne => ⟨hne, ?_⟩
  rw [hd.dedupKey_eq, hd'.dedupKey_eq] at hkey
  exact Bytes.toHex_injective hkey

end RuleFactory

/-! ## Two rules with labels that look alike -/

namespace Setting

/-- The interface of a contract with a number to watch. -/
def levelText : String :=
  "[\x7b\"type\":\"function\",\"name\":\"level\",\"inputs\":[]," ++
    "\"outputs\":[\x7b\"type\":\"uint256\"\x7d]\x7d]"

def levelSpec : ThresholdSpec := ⟨.zero, "level", 5, .above, none, "level"⟩

def levelEntry : RuleEntry :=
  { thresholdEntry with
    label := "rule"
    params := .object [("contract", .string "0x0000000000000000000000000000000000000000"),
      ("method", .string "level"), ("threshold", .ofNat 5), ("action", .string "level")] }

def dueSpec : SweepSpec := ⟨.zero, "ids", "due", "act", none, none⟩

/-- A label that spells out the first two parts of another decision. -/
def dueEntry : RuleEntry :=
  { sweepEntry .null with label := "rule\x1f0x0000000000000000000000000000000000000000" }

def onlooker : RuleContext := ⟨.pair, .absent⟩

theorem standard_levelEntry :
    RuleFactory.standard onlooker 8 levelEntry = .ok (levelSpec.rule levelEntry.stamp onlooker) := by
  have hs : ThresholdSpec.ofJson? levelEntry.params = some levelSpec := by decide +kernel
  unfold RuleFactory.standard
  rw [show RuleKind.ofName? levelEntry.kind = some .viewThreshold from rfl, hs]

theorem standard_dueEntry :
    RuleFactory.standard onlooker 8 dueEntry = .ok (dueSpec.rule dueEntry.stamp 8 onlooker) := by
  have hs : SweepSpec.ofJson? dueEntry.params = some dueSpec := by decide +kernel
  unfold RuleFactory.standard
  rw [show RuleKind.ofName? dueEntry.kind = some .positionSweep from rfl, hs]
  rfl

/-- Nothing has been read yet, and an interface of the contract is at hand. -/
def knowing (text : String) : World system Unit := ⟨⟨[], "", .idle, ⟨[(.zero, text)]⟩⟩, ()⟩

/-- A rule that queues one transaction when the contract has this interface. -/
theorem exists_ending_of_polled (rule : Rule) (text context : String)
    (h : ((rule.evaluate (.empty rule.owner)).poll (.ofReplies (fun _ => 0) candidates) 0
      (knowing text)).1.value?.map (fun ending => ending.1.queue.map (·.context)) = some [context]) :
    ∃ box result tx, ((rule.evaluate (.empty rule.owner)).run (.ofReplies (fun _ => 0) candidates) 0
      (knowing text)).value? = some (box, result) ∧ tx ∈ box.queue ∧ tx.context = context := by
  obtain ⟨⟨box, result⟩, hvalue, hqueue⟩ := Option.map_eq_some_iff.mp h
  obtain ⟨tx, hbox, hcontext⟩ := List.map_eq_singleton_iff.mp hqueue
  refine ⟨box, result, tx, ?_, hbox ▸ List.mem_singleton_self tx, hcontext⟩
  rw [← Activity.run_poll, Activity.run_of_value hvalue]

theorem exists_run_of_ending {rule : Rule} {text context : String}
    (h : ∃ box result tx, ((rule.evaluate (.empty rule.owner)).run
      (.ofReplies (fun _ => 0) candidates) 0 (knowing text)).value? = some (box, result) ∧
        tx ∈ box.queue ∧ tx.context = context) :
    ∃ trace box result tx, (rule.evaluate (.empty rule.owner)).Runs trace (some (box, result)) ∧
      tx ∈ box.queue ∧ tx.context = context := by
  obtain ⟨box, result, tx, hvalue, htx⟩ := h
  obtain ⟨trace, hr, -⟩ := Activity.exists_trace_of_run (.ofReplies (fun _ => 0) candidates) 0
    (rule.evaluate (.empty rule.owner)) (knowing text)
  exact ⟨trace, box, result, tx, hvalue ▸ hr, htx⟩

theorem exists_ending_of_level : ∃ box result tx,
    (((levelSpec.rule levelEntry.stamp onlooker).evaluate (.empty levelEntry.stamp)).run
      (.ofReplies (fun _ => 0) candidates) 0 (knowing levelText)).value? = some (box, result) ∧
      tx ∈ box.queue ∧ tx.context = "rule: level=32 above 5" :=
  exists_ending_of_polled (levelSpec.rule levelEntry.stamp onlooker) levelText
    "rule: level=32 above 5" (by decide +kernel)

set_option maxRecDepth 8000 in
theorem texts_of_lookalikes : ∃ trace trace' tx tx' d d',
    levelEntry.Queues onlooker 8 trace tx d ∧ dueEntry.Queues onlooker 8 trace' tx' d' ∧
      tx.context = "rule: level=32 above 5" ∧
      tx'.context = "rule\x1f0x0000000000000000000000000000000000000000: act id 3" ∧
      d.text ≠ d'.text := by
  obtain ⟨trace, box, result, tx, hr, htx, hcontext⟩ := exists_run_of_ending exists_ending_of_level
  obtain ⟨trace', box', result', tx', hr', htx', hcontext'⟩ :=
    exists_run_of_ending (exists_ending_of_polled (dueSpec.rule dueEntry.stamp 8 onlooker) dueText
      "rule\x1f0x0000000000000000000000000000000000000000: act id 3" (by decide +kernel))
  obtain ⟨⟨d, hd⟩, ⟨d', hd'⟩, hkeys⟩ := RuleFactory.queued_texts_eq_iff standard_levelEntry
    standard_dueEntry hr hr' htx htx'
  refine ⟨trace, trace', tx, tx', d, d', hd, hd', hcontext, hcontext', fun htext => ?_⟩
  obtain rfl := (hkeys d d' hd hd').2.2.1.mp htext
  have kinds : some RuleKind.viewThreshold = some .positionSweep :=
    hd.kind_eq.trans hd'.kind_eq.symm
  cases kinds

end Setting

end ChainWatch
