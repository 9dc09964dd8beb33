import ChainWatch.Proofs.Concurrency.Schedule
import ChainWatch.Proofs.Fleet.Start
import ChainWatch.Rehearsal.Stage

/-!
# The freshest answer counts

Of the endpoints whose view call and whose height both came back, the one with the greatest height
decides what a read of a view answers, and the first of these in fleet order where heights are equal.
It does not matter when the answers arrive.
-/

namespace ChainWatch

open Concurrency

/-! ## Readings -/

namespace Reading

variable {α : Type}

/-- The best reading of those that were seen so far, if any of them was complete. -/
def BestOf (seen : List (Reading α)) : Option (Complete α) → Prop
  | none => ∀ r ∈ seen, r.complete? = none
  | some best =>
    (∃ r ∈ seen, r.complete? = some best) ∧
      ∀ r ∈ seen, ∀ c, r.complete? = some c → c.fresher best = false

theorem fresher_eq_false {c best : Complete α} :
    c.fresher best = false ↔
      c.height < best.height ∨ c.height = best.height ∧ best.position ≤ c.position := by
  simp only [Complete.fresher, Bool.or_eq_false_iff, Bool.and_eq_false_iff, decide_eq_false_iff_not,
    beq_eq_false_iff_ne]
  omega

theorem fresher_eq_true {c best : Complete α} :
    c.fresher best = true ↔
      best.height < c.height ∨ c.height = best.height ∧ c.position < best.position := by
  simp [Complete.fresher]

theorem not_fresher_self (c : Complete α) : c.fresher c = false :=
  fresher_eq_false.mpr (.inr ⟨rfl, Nat.le_refl _⟩)

theorem BestOf.step {seen : List (Reading α)} {best : Option (Complete α)} (h : BestOf seen best)
    (r : Reading α) : BestOf (seen ++ [r]) (better best r) := by
  cases hr : r.complete? with
  | none =>
      have hb : better best r = best := by simp [better, hr]
      rw [hb]
      cases best with
      | none => simpa [BestOf, or_imp, forall_and, hr] using h
      | some best =>
          obtain ⟨⟨s, hs, hc⟩, hmax⟩ := h
          refine ⟨⟨s, by simp [hs], hc⟩, fun r' hr' c' hc' => ?_⟩
          rcases List.mem_append.mp hr' with hr' | hr'
          · exact hmax r' hr' c' hc'
          · obtain rfl : r' = r := by simpa using hr'
            simp [hr] at hc'
  | some c =>
      have last : ∀ c', r.complete? = some c' → c' = c := fun c' hc' => by
        simpa [hr] using hc'.symm
      cases best with
      | none =>
          have hb : better none r = some c := by simp [better, hr]
          rw [hb]
          refine ⟨⟨r, by simp, hr⟩, fun r' hr' c' hc' => ?_⟩
          rcases List.mem_append.mp hr' with hr' | hr'
          · simp [h r' hr'] at hc'
          · obtain rfl : r' = r := by simpa using hr'
            rw [last c' hc', not_fresher_self]
      | some best =>
          obtain ⟨⟨s, hs, hc⟩, hmax⟩ := h
          have hb : better (some best) r = if c.fresher best then some c else some best := by
            simp [better, hr]
          rw [hb]
          split
          · rename_i hf
            refine ⟨⟨r, by simp, hr⟩, fun r' hr' c' hc' => ?_⟩
            rcases List.mem_append.mp hr' with hr' | hr'
            · have hle := fresher_eq_false.mp (hmax r' hr' c' hc')
              have hlt := fresher_eq_true.mp hf
              exact fresher_eq_false.mpr (by omega)
            · obtain rfl : r' = r := by simpa using hr'
              rw [last c' hc', not_fresher_self]
          · rename_i hf
            refine ⟨⟨s, by simp [hs], hc⟩, fun r' hr' c' hc' => ?_⟩
            rcases List.mem_append.mp hr' with hr' | hr'
            · exact hmax r' hr' c' hc'
            · obtain rfl : r' = r := by simpa using hr'
              rw [last c' hc']
              simpa using hf

theorem bestOf_freshest (readings : List (Reading α)) : BestOf readings (freshest readings) := by
  have folded : ∀ (rest seen : List (Reading α)) (best : Option (Complete α)), BestOf seen best →
      BestOf (seen ++ rest) (rest.foldl better best) := by
    intro rest
    induction rest with
    | nil => simp
    | cons r rest ih =>
        intro seen best h
        simpa using ih (seen ++ [r]) (better best r) (h.step r)
  exact folded readings [] none (by simp [BestOf])

end Reading

/-! ## One endpoint -/

/-- An answer to everything that can be asked. -/
abbrev Replies : Type := (r : Request) → r.Answer

/-- The answers in the trace are those of the table. -/
def Concurrency.Trace.AnsweredBy (replies : Replies) (trace : Trace system) : Prop :=
  ∀ (r : Request) (answer : r.Answer), .answered r answer ∈ trace → answer = replies r

section Reads

variable {fleet : Fleet} {e : Endpoint} {trace : Trace system} {replies : Replies}
  {address : Address} {contract : Abi.Contract} {method : String} {inputs : List Abi.Value}

namespace Endpoint

/-- What a view call comes to when the node has answered it. -/
def decoded (function : Abi.Function) (method : String) :
    Except NodeFault Bytes → Except NodeFault (List Abi.Value)
  | .error fault => .error fault
  | .ok answer =>
    match function.decodeAnswer? answer with
    | none => .error (.badOutputs method)
    | some outputs => .ok outputs

/-- What a view call comes to at an endpoint that gives such answers. -/
def viewOutcome (e : Endpoint) (address : Address) (contract : Abi.Contract) (method : String)
    (inputs : List Abi.Value) (replies : Replies) : Except NodeFault (List Abi.Value) :=
  match contract.overload? method inputs.length with
  | none => .error (.noOverload method inputs.length)
  | some function =>
    match function.encodeCall? inputs with
    | none => .error (.badInputs method)
    | some data => decoded function method (replies (.chain e.position (.call address data)))

/-- The endpoint's own view call and its own height both come back. -/
def Sees (e : Endpoint) (address : Address) (contract : Abi.Contract) (method : String)
    (inputs : List Abi.Value) (replies : Replies) (outputs : List Abi.Value) (height : Nat) : Prop :=
  e.viewOutcome address contract method inputs replies = .ok outputs ∧
    replies (.chain e.position .blockNumber) = .ok height

theorem sees_iff_complete {outputs : List Abi.Value} {height : Nat} :
    e.Sees address contract method inputs replies outputs height ↔
      (⟨e.position, (e.viewOutcome address contract method inputs replies).toOption,
        (replies (.chain e.position .blockNumber)).toOption⟩ : Reading _).complete? =
          some ⟨e.position, outputs, height⟩ := by
  unfold Sees Reading.complete?
  cases e.viewOutcome address contract method inputs replies <;>
    cases replies (.chain e.position .blockNumber) <;> simp [Except.toOption]

theorem eq_reply_of_ask {r : ChainRequest} {answer : Except NodeFault r.Value}
    (hr : (e.ask r).run.Runs trace (some answer)) (ha : trace.AnsweredBy replies) :
    answer = replies (.chain e.position r) := by
  obtain ⟨m, rfl⟩ := runs_ask_some.mp hr
  exact ha (.chain e.position r) answer (by simp)

/-- A view call sends nothing, or it asks the node once and decodes what it is answered. -/
theorem runs_callView_some {outcome : Except NodeFault (List Abi.Value)} :
    (e.callView address contract method inputs).run.Runs trace (some outcome) ↔
      match contract.overload? method inputs.length with
      | none => trace = [] ∧ outcome = .error (.noOverload method inputs.length)
      | some function =>
        match function.encodeCall? inputs with
        | none => trace = [] ∧ outcome = .error (.badInputs method)
        | some data => ∃ answer, (e.ask (.call address data)).run.Runs trace (some answer) ∧
            outcome = decoded function method answer := by
  unfold callView
  cases contract.overload? method inputs.length with
  | none => exact runs_throw_some
  | some function =>
      dsimp only
      cases function.encodeCall? inputs with
      | none => exact runs_throw_some
      | some data =>
          have ended {answer : Bytes} {t : Trace system} :
              (match function.decodeAnswer? answer with
                | none => throw (.badOutputs method)
                | some outputs => return outputs : NodeJob (List Abi.Value)).run.Runs t
                  (some outcome) ↔ t = [] ∧ outcome = decoded function method (.ok answer) := by
            unfold decoded
            dsimp only
            cases function.decodeAnswer? answer <;> simp
          dsimp only
          rw [runs_exceptT_bind_some]
          constructor
          · rintro (⟨fault, hr, rfl⟩ | ⟨answer, early, late, hr, hl, rfl⟩)
            · exact ⟨.error fault, hr, rfl⟩
            · obtain ⟨rfl, rfl⟩ := ended.mp hl
              exact ⟨.ok answer, by simpa using hr, rfl⟩
          · rintro ⟨answer, hr, rfl⟩
            cases answer with
            | error fault => exact .inl ⟨fault, hr, rfl⟩
            | ok answer =>
                exact .inr ⟨answer, trace, [], hr, ended.mpr ⟨rfl, rfl⟩, by simp⟩

theorem eq_viewOutcome_of_runs {outcome : Except NodeFault (List Abi.Value)}
    (hr : (e.callView address contract method inputs).run.Runs trace (some outcome))
    (ha : trace.AnsweredBy replies) :
    outcome = e.viewOutcome address contract method inputs replies := by
  have h := runs_callView_some.mp hr
  unfold viewOutcome
  split at h
  · exact h.2
  · split at h
    · exact h.2
    · obtain ⟨answer, hask, rfl⟩ := h
      rw [eq_reply_of_ask hask ha]

end Endpoint

namespace Fleet

/-- What an endpoint contributes to a read depends on its answers only. -/
theorem eq_reading_of_runs {reading : Reading (List Abi.Value)}
    (hr : (readView address contract method inputs e).Runs trace (some reading))
    (ha : trace.AnsweredBy replies) :
    reading = ⟨e.position, (e.viewOutcome address contract method inputs replies).toOption,
      (replies (.chain e.position .blockNumber)).toOption⟩ := by
  obtain ⟨⟨value, height⟩, early, late, hb, hp, rfl⟩ := Activity.runs_bind_some.mp hr
  obtain ⟨rfl, rfl⟩ := Activity.runs_pure_some.mp hp
  obtain ⟨left, right, hl, hh, hs⟩ := Activity.runs_both_some.mp hb
  have hleft : left.AnsweredBy replies := fun r answer hm =>
    ha r answer (List.mem_append_left _ (hs.mem_iff.mpr (.inl hm)))
  have hright : right.AnsweredBy replies := fun r answer hm =>
    ha r answer (List.mem_append_left _ (hs.mem_iff.mpr (.inr hm)))
  rw [Endpoint.eq_viewOutcome_of_runs hl hleft, Endpoint.eq_reply_of_ask hh hright]

theorem confined_readView :
    (readView address contract method inputs e).Confined (e.Acts fun r =>
      (∃ data, r = .chain e.position (.call address data)) ∨ r = .chain e.position .blockNumber) :=
  (Activity.confined_both (Endpoint.confined_callView fun data => .inl ⟨data, rfl⟩)
    (Endpoint.confined_ask (.inr rfl))).bind fun _ => Activity.confined_pure _

theorem answer_unique_of_readView {reading : Reading (List Abi.Value)}
    (hr : (readView address contract method inputs e).Runs trace (some reading)) {r : Request}
    {x y : r.Answer} (hx : .answered r x ∈ trace) (hy : .answered r y ∈ trace) : x = y := by
  obtain ⟨⟨value, height⟩, early, late, hb, hp, rfl⟩ := Activity.runs_bind_some.mp hr
  obtain ⟨rfl, -⟩ := Activity.runs_pure_some.mp hp
  obtain ⟨left, right, hl, hh, hs⟩ := Activity.runs_both_some.mp hb
  rw [List.append_nil, hs.mem_iff] at hx hy
  have asked {q : ChainRequest} {answer : Except NodeFault q.Value} {t : Trace system}
      (ht : (e.ask q).run.Runs t (some answer)) {z : r.Answer} (hz : .answered r z ∈ t) :
      (⟨r, z⟩ : (r : Request) × r.Answer) = ⟨.chain e.position q, answer⟩ := by
    obtain ⟨m, rfl⟩ := Endpoint.runs_ask_some.mp ht
    obtain ⟨rfl, hz⟩ : r = .chain e.position q ∧ z ≍ answer := by simpa using hz
    rw [eq_of_heq hz]
  have called : ∃ q answer, q ≠ .blockNumber ∧ ∀ z : r.Answer, .answered r z ∈ left →
      (⟨r, z⟩ : (r : Request) × r.Answer) = ⟨.chain e.position q, answer⟩ := by
    have hl := Endpoint.runs_callView_some.mp hl
    split at hl
    · exact ⟨.reset "", .ok (), nofun, fun z hz => by simp [hl.1] at hz⟩
    · split at hl
      · exact ⟨.reset "", .ok (), nofun, fun z hz => by simp [hl.1] at hz⟩
      · obtain ⟨answer, hask, -⟩ := hl
        exact ⟨_, answer, nofun, fun z hz => asked hask hz⟩
  obtain ⟨q, answer, hq, hcall⟩ := called
  have apart : ∀ z z' : r.Answer, .answered r z ∈ left → .answered r z' ∉ right := by
    intro z z' hz hz'
    have hcalled := congrArg Sigma.fst (hcall z hz)
    have hasked := congrArg Sigma.fst (asked hh hz')
    simp only at hcalled hasked
    rw [hcalled] at hasked
    simp at hasked
    exact hq hasked
  have unique {a : (r : Request) × r.Answer} (ha : ⟨r, x⟩ = a) (hb : ⟨r, y⟩ = a) : x = y := by
    rw [← hb] at ha
    simpa using ha
  rcases hx with hx | hx <;> rcases hy with hy | hy
  · exact unique (hcall x hx) (hcall y hy)
  · exact (apart x y hx hy).elim
  · exact (apart y x hy hx).elim
  · exact unique (asked hh hx) (asked hh hy)

/-- What is answered in a read of a view is a question to the endpoint, and is answered once. -/
theorem answers_of_readView {reading : Reading (List Abi.Value)}
    (hr : (readView address contract method inputs e).Runs trace (some reading)) {r : Request}
    {x : r.Answer} (hx : .answered r x ∈ trace) :
    (∃ q, r = .chain e.position q) ∧ ∀ y, .answered r y ∈ trace → x = y := by
  refine ⟨?_, fun y hy => answer_unique_of_readView hr hx hy⟩
  cases confined_readView.runs hr _ hx with
  | answered h =>
      rcases h with ⟨data, h⟩ | h
      · exact ⟨_, h⟩
      · exact ⟨_, h⟩

/-- Without a request that is answered twice there is a table of the answers. -/
theorem exists_answeredBy (h : ∀ (r : Request) (x y : r.Answer),
    .answered r x ∈ trace → .answered r y ∈ trace → x = y) :
    ∃ replies, trace.AnsweredBy replies := by
  classical
  have some_answer : ∀ r : Request, Nonempty r.Answer := by
    intro r
    cases r with
    | chain => exact ⟨.error .exchange⟩
    | container => exact ⟨.error .unavailable⟩
    | explore => exact ⟨.unreachable⟩
    | deliver => exact ⟨.error .exchange⟩
    | enqueue => exact ⟨.error .notWritable⟩
  refine ⟨fun r => if hr : ∃ x : r.Answer, .answered r x ∈ trace then hr.choose
    else (some_answer r).some, fun r x hx => ?_⟩
  have hr : ∃ x : r.Answer, .answered r x ∈ trace := ⟨x, hx⟩
  exact (h r x _ hx hr.choose_spec).trans (dif_pos hr).symm

/-- Endpoints that do not ask anything twice side by side do not do so together either. -/
theorem exists_answeredBy_of_parts {own : Endpoint → Trace system}
    (hw : Shuffles (fleet.endpoints.map own) trace)
    (hown : ∀ e ∈ fleet.endpoints, ∀ (r : Request) (x : r.Answer), .answered r x ∈ own e →
      (∃ q, r = .chain e.position q) ∧ ∀ y, .answered r y ∈ own e → x = y) :
    ∃ replies, trace.AnsweredBy replies := by
  refine exists_answeredBy fun r x y hx hy => ?_
  obtain ⟨part, hpart, hx⟩ := hw.mem_iff.mp hx
  obtain ⟨part', hpart', hy⟩ := hw.mem_iff.mp hy
  obtain ⟨e, he, rfl⟩ := List.mem_map.mp hpart
  obtain ⟨e', he', rfl⟩ := List.mem_map.mp hpart'
  obtain ⟨⟨q, hq⟩, unique⟩ := hown e he r x hx
  obtain ⟨⟨q', hq'⟩, -⟩ := hown e' he' r y hy
  obtain rfl := fleet.eq_of_position_eq he he' (Request.chain.inj (hq.symm.trans hq')).1
  exact unique y hy

/-- The endpoint decides what a read answers: both its halves came back, and among the endpoints of
which that is true none saw a greater height, nor does one that comes earlier have the same. -/
def Decides (fleet : Fleet) (address : Address) (contract : Abi.Contract) (method : String)
    (inputs : List Abi.Value) (replies : Replies) (e : Endpoint) (outputs : List Abi.Value) : Prop :=
  e ∈ fleet.endpoints ∧ ∃ height, e.Sees address contract method inputs replies outputs height ∧
    ∀ e' ∈ fleet.endpoints, ∀ outputs' height',
      e'.Sees address contract method inputs replies outputs' height' →
        height' < height ∨ height' = height ∧ e.position ≤ e'.position

/-- What all endpoints contribute to a read when they give such answers. -/
def readingsOf (fleet : Fleet) (address : Address) (contract : Abi.Contract) (method : String)
    (inputs : List Abi.Value) (replies : Replies) : List (Reading (List Abi.Value)) :=
  fleet.endpoints.map fun e =>
    ⟨e.position, (e.viewOutcome address contract method inputs replies).toOption,
      (replies (.chain e.position .blockNumber)).toOption⟩

theorem complete_readingsOf_iff {c : Reading.Complete (List Abi.Value)} :
    (∃ r ∈ fleet.readingsOf address contract method inputs replies, r.complete? = some c) ↔
      ∃ e ∈ fleet.endpoints, c.position = e.position ∧
        e.Sees address contract method inputs replies c.value c.height := by
  constructor
  · rintro ⟨r, hr, hc⟩
    obtain ⟨e, he, rfl⟩ := List.mem_map.mp hr
    have hp : c.position = e.position := by
      unfold Reading.complete? at hc
      split at hc
      · cases hc
        rfl
      · cases hc
    refine ⟨e, he, hp, Endpoint.sees_iff_complete.mpr ?_⟩
    rw [hc, ← hp]
  · rintro ⟨e, he, hp, hs⟩
    refine ⟨_, List.mem_map_of_mem he, ?_⟩
    rw [Endpoint.sees_iff_complete.mp hs, ← hp]

/-- What a read of a view answers when the endpoints give such answers. -/
def viewAnswer (fleet : Fleet) (address : Address) (contract : Abi.Contract) (method : String)
    (inputs : List Abi.Value) (replies : Replies) : Except FleetFault (List Abi.Value) :=
  match Reading.freshest (fleet.readingsOf address contract method inputs replies) with
  | some best => .ok best.value
  | none => .error (.viewCall address method)

/-- The endpoint that decides is the one whose reading is the freshest. -/
theorem viewAnswer_eq_ok_iff {outputs : List Abi.Value} :
    fleet.viewAnswer address contract method inputs replies = .ok outputs ↔
      ∃ e, fleet.Decides address contract method inputs replies e outputs := by
  have hbest := Reading.bestOf_freshest (fleet.readingsOf address contract method inputs replies)
  unfold viewAnswer
  constructor
  · intro h
    cases hf : Reading.freshest (fleet.readingsOf address contract method inputs replies) with
    | none =>
        rw [hf] at h
        cases h
    | some best =>
        rw [hf] at h hbest
        obtain rfl : best.value = outputs := Except.ok.inj h
        obtain ⟨e, he, hp, hs⟩ := complete_readingsOf_iff.mp hbest.1
        refine ⟨e, he, best.height, hs, fun e' he' outputs' height' hs' => ?_⟩
        obtain ⟨r, hr, hc⟩ :=
          (complete_readingsOf_iff (c := ⟨e'.position, outputs', height'⟩)).mpr ⟨e', he', rfl, hs'⟩
        have hle := Reading.fresher_eq_false.mp (hbest.2 r hr _ hc)
        rw [hp] at hle
        exact hle
  · rintro ⟨e, he, height, hs, hmax⟩
    obtain ⟨r, hr, hc⟩ :=
      (complete_readingsOf_iff (c := ⟨e.position, outputs, height⟩)).mpr ⟨e, he, rfl, hs⟩
    cases hf : Reading.freshest (fleet.readingsOf address contract method inputs replies) with
    | none =>
        rw [hf] at hbest
        rw [hbest r hr] at hc
        cases hc
    | some best =>
        rw [hf] at hbest
        obtain ⟨e', he', hp, hs'⟩ := complete_readingsOf_iff.mp hbest.1
        have hle := Reading.fresher_eq_false.mp (hbest.2 r hr _ hc)
        have hge := hmax e' he' best.value best.height hs'
        dsimp only at hle
        have hpos : e'.position = e.position := by omega
        obtain rfl := fleet.eq_of_position_eq he' he hpos
        exact congrArg Except.ok (Except.ok.inj (hs'.1.symm.trans hs.1))

theorem viewAnswer_eq_error_iff {fault : FleetFault} :
    fleet.viewAnswer address contract method inputs replies = .error fault ↔
      fault = .viewCall address method ∧ ∀ e ∈ fleet.endpoints, ∀ outputs height,
        ¬ e.Sees address contract method inputs replies outputs height := by
  have hbest := Reading.bestOf_freshest (fleet.readingsOf address contract method inputs replies)
  unfold viewAnswer
  cases hf : Reading.freshest (fleet.readingsOf address contract method inputs replies) with
  | none =>
      rw [hf] at hbest
      have hnone : ∀ e ∈ fleet.endpoints, ∀ outputs height,
          ¬ e.Sees address contract method inputs replies outputs height := by
        intro e he outputs height hs
        obtain ⟨r, hr, hc⟩ :=
          (complete_readingsOf_iff (c := ⟨e.position, outputs, height⟩)).mpr ⟨e, he, rfl, hs⟩
        rw [hbest r hr] at hc
        cases hc
      exact ⟨fun h => ⟨(Except.error.inj h).symm, hnone⟩, fun h => h.1 ▸ rfl⟩
  | some best =>
      rw [hf] at hbest
      obtain ⟨e, he, -, hs⟩ := complete_readingsOf_iff.mp hbest.1
      exact ⟨nofun, fun h => (h.2 e he _ _ hs).elim⟩

theorem exists_viewAnswer_iff :
    (∃ outputs, fleet.viewAnswer address contract method inputs replies = .ok outputs) ↔
      ∃ e ∈ fleet.endpoints, ∃ outputs height,
        e.Sees address contract method inputs replies outputs height := by
  constructor
  · rintro ⟨outputs, h⟩
    obtain ⟨e, he, height, hs, -⟩ := viewAnswer_eq_ok_iff.mp h
    exact ⟨e, he, outputs, height, hs⟩
  · rintro ⟨e, he, outputs, height, hs⟩
    cases hv : fleet.viewAnswer address contract method inputs replies with
    | ok outputs => exact ⟨outputs, rfl⟩
    | error fault => exact ((viewAnswer_eq_error_iff.mp hv).2 e he outputs height hs).elim

/-- A read of a view is a start of the fleet, if that is still due, and then the reads of all endpoints
side by side. Of these only the answers count, not when they arrive. -/
theorem runs_callView_of_fleet {result : Except FleetFault (List Abi.Value)}
    (hr : (fleet.callView address contract method inputs).run.Runs trace (some result)) :
    ∃ starting reading, trace = starting ++ reading ∧
      fleet.ensureStarted.Runs starting (some ()) ∧
      (∃ replies, reading.AnsweredBy replies) ∧
      ∀ replies, reading.AnsweredBy replies →
        result = fleet.viewAnswer address contract method inputs replies := by
  obtain ⟨⟨⟩, starting, later, hs, hl, rfl⟩ := Activity.runs_bind_some.mp hr
  obtain ⟨readings, reading, last, hj, hp, rfl⟩ := Activity.runs_bind_some.mp hl
  have : Nonempty (Reading (List Abi.Value)) := ⟨⟨0, none, none⟩⟩
  obtain ⟨own, contributed, hown, hw, rfl⟩ :=
    Activity.exists_runs_of_joinAll fleet.nodup_endpoints hj
  have inside {e : Endpoint} (he : e ∈ fleet.endpoints) {event : Event system}
      (hm : event ∈ own e) : event ∈ reading :=
    hw.mem_iff.mpr ⟨own e, List.mem_map_of_mem he, hm⟩
  have ended : last = [] ∧ result = match Reading.freshest (fleet.endpoints.map contributed) with
      | some best => .ok best.value
      | none => .error (.viewCall address method) := by
    cases hf : Reading.freshest (fleet.endpoints.map contributed) with
    | none =>
        rw [hf] at hp
        exact Activity.runs_pure_some.mp hp
    | some best =>
        rw [hf] at hp
        exact Activity.runs_pure_some.mp hp
  obtain ⟨rfl, rfl⟩ := ended
  refine ⟨starting, reading, by simp, hs,
    exists_answeredBy_of_parts hw fun e he r x => answers_of_readView (hown e he), fun replies ha => ?_⟩
  · have hc : fleet.endpoints.map contributed =
        fleet.readingsOf address contract method inputs replies :=
      List.map_congr_left fun e he => eq_reading_of_runs (hown e he) fun r x hm =>
        ha r x (inside he hm)
    rw [hc]
    rfl

/-- A read of a view ends unless somebody else is busy starting the fleet. -/
theorem exists_value_of_callView {σ : Type} (h : Handler system σ) (now : Nat)
    (w : World system σ) (hs : w.memory.start ≠ .running) :
    ∃ result, ((fleet.callView address contract method inputs).run.run h now w).value? =
      some result := by
  refine exists_value_of_ensureStarted (fun _ => Activity.Confined.bind ?_ fun readings => ?_) h now w hs
  · refine Activity.confined_joinAll fun member hm => ?_
    obtain ⟨e, -, rfl⟩ := List.mem_map.mp hm
    exact Endpoint.waitFree_of_acts confined_readView
  · cases Reading.freshest readings with
    | none => exact Activity.confined_pure _
    | some best => exact Activity.confined_pure _

/-- Whatever the delays, a read of a view ends, and it answers what the endpoint says that decides;
it fails just when no endpoint gave both halves of an answer. -/
theorem callView_takes_freshest (fleet : Fleet) (address : Address) (contract : Abi.Contract)
    (method : String) (inputs : List Abi.Value) :
    (∀ {σ : Type} (h : Handler system σ) (now : Nat) (w : World system σ),
      w.memory.start ≠ .running → ∃ result trace,
        ((fleet.callView address contract method inputs).run.run h now w).value? = some result ∧
          (fleet.callView address contract method inputs).run.Runs trace (some result) ∧
          trace.Leads h w ((fleet.callView address contract method inputs).run.run h now w).world) ∧
    ∀ trace result,
      (fleet.callView address contract method inputs).run.Runs trace (some result) →
      ∃ starting reading, trace = starting ++ reading ∧
        fleet.ensureStarted.Runs starting (some ()) ∧
        (∃ replies, reading.AnsweredBy replies) ∧
        ∀ replies, reading.AnsweredBy replies →
          ((∃ outputs, result = .ok outputs) ↔ ∃ e ∈ fleet.endpoints, ∃ outputs height,
            e.Sees address contract method inputs replies outputs height) ∧
          (∀ outputs, result = .ok outputs ↔
            ∃ e, fleet.Decides address contract method inputs replies e outputs) ∧
          ∀ fault, result = .error fault ↔ fault = .viewCall address method ∧
            ∀ e ∈ fleet.endpoints, ∀ outputs height,
              ¬ e.Sees address contract method inputs replies outputs height := by
  constructor
  · intro σ h now w hs
    obtain ⟨result, hv⟩ := exists_value_of_callView h now w hs
    obtain ⟨trace, hr, hl⟩ := Activity.exists_trace_of_run h now
      (fleet.callView address contract method inputs).run w
    exact ⟨result, trace, hv, hv ▸ hr, hl⟩
  · intro trace result hr
    obtain ⟨starting, reading, ht, hs, hreplies, hresult⟩ := runs_callView_of_fleet hr
    refine ⟨starting, reading, ht, hs, hreplies, fun replies ha => ?_⟩
    rw [hresult replies ha]
    exact ⟨exists_viewAnswer_iff, fun _ => viewAnswer_eq_ok_iff, fun _ => viewAnswer_eq_error_iff⟩

end Fleet

end Reads

namespace Fleet

open Rehearsal

/-- Two endpoints without containers. -/
def pair : Fleet where
  endpoints := [⟨0, "first", .unmanaged, ⟨1, 0, 0⟩⟩, ⟨1, "second", .unmanaged, ⟨1, 0, 0⟩⟩]
  nonempty := by simp
  ordered := by simp

/-- A contract with a view that answers a truth value. -/
def switch : Abi.Contract := ⟨[⟨"on", [], [.mk "bool" []]⟩], [], [], false, false, false⟩

/-- The first endpoint of two is behind and calls the switch off, the second one calls it on. -/
def contested : World system Stage :=
  let node (height : Nat) (last : UInt8) : Node :=
    { Node.fresh with height, calls := [⟨none, none, 0, .ok (List.replicate 31 0 ++ [last])⟩] }
  ⟨.initial "" .empty, ⟨[node 5 0, node 7 1], [], false, .absent⟩⟩

set_option maxRecDepth 4000 in
theorem callView_takes_second_of_pair :
    contested.memory.start ≠ .running ∧ ∃ trace starting reading,
      (pair.callView .zero switch "on" []).run.Runs trace (some (.ok [.bool true])) ∧
        trace = starting ++ reading ∧ ∀ replies, reading.AnsweredBy replies →
          ∃ e, pair.Decides .zero switch "on" [] replies e [.bool true] := by
  obtain ⟨ends, described⟩ := callView_takes_freshest pair .zero switch "on" []
  have idle : contested.memory.start ≠ .running := by decide
  obtain ⟨result, trace, hv, hr, -⟩ := ends Stage.handler 0 contested idle
  have answered : ((pair.callView .zero switch "on" []).run.poll Stage.handler 0 contested).1 =
      .done (.ok [.bool true]) := by rfl
  rw [Activity.run_of_wake (by rfl), answered, Activity.run_done] at hv
  obtain rfl : .ok [.bool true] = result := Option.some.inj hv
  obtain ⟨starting, reading, ht, -, -, h⟩ := described trace _ hr
  exact ⟨idle, trace, starting, reading, hr, ht,
    fun replies ha => ((h replies ha).2.1 _).mp rfl⟩

end Fleet

end ChainWatch
