import ChainWatch.Proofs.Fleet.Bringup
import ChainWatch.Proofs.Fleet.Freshness

/-!
# A view call at one endpoint

The interface alone says what becomes of a view call before the node hears of it
(`Abi.Contract.Prepares`): it is turned away, or the data of one call and the overload that made them
are at hand. A call that is turned away leaves no mark. Any other is one question to the node, and the
overload that made the question decodes the answer.
-/

namespace ChainWatch

open Concurrency Rehearsal

namespace Abi

/-! ## Inputs -/

/-- The value is of the type that the parameter stands for. -/
def Param.Takes (p : Param) (v : Value) : Prop :=
  ∃ t, p.resolve? = some t ∧ Value.hasType t v = true

/-- The values are of the types of the inputs, one by one. -/
def Function.Takes (f : Function) (values : List Value) : Prop :=
  List.Forall₂ Param.Takes f.inputs values

theorem Param.resolveAll?_cons_eq_some_iff {p : Param} {rest : List Param} {types : List SolType} :
    Param.resolveAll? (p :: rest) = some types ↔
      ∃ t ts, p.resolve? = some t ∧ Param.resolveAll? rest = some ts ∧ types = t :: ts := by
  rw [Param.resolveAll?]
  cases p.resolve? <;> cases Param.resolveAll? rest <;> simp [eq_comm]

theorem takes_iff_haveTypes {params : List Param} {values : List Value} :
    List.Forall₂ Param.Takes params values ↔
      ∃ types, Param.resolveAll? params = some types ∧ Value.haveTypes types values = true := by
  induction params generalizing values with
  | nil => cases values <;> simp [Param.resolveAll?, Value.haveTypes]
  | cons p rest ih =>
      simp only [Param.resolveAll?_cons_eq_some_iff]
      cases values with
      | nil =>
          refine iff_of_false nofun ?_
          rintro ⟨_, ⟨t, ts, -, -, rfl⟩, hv⟩
          simp [Value.haveTypes] at hv
      | cons v values =>
          rw [List.forall₂_cons, ih]
          constructor
          · rintro ⟨⟨t, ht, hv⟩, ts, hts, hvs⟩
            exact ⟨_, ⟨t, ts, ht, hts, rfl⟩, by simp [Value.haveTypes, hv, hvs]⟩
          · rintro ⟨_, ⟨t, ts, ht, hts, rfl⟩, hv⟩
            obtain ⟨hv, hvs⟩ : Value.hasType t v = true ∧ Value.haveTypes ts values = true := by
              simpa [Value.haveTypes] using hv
            exact ⟨⟨t, ht, hv⟩, ts, hts, hvs⟩

namespace Function

variable {f : Function} {values : List Value}

theorem encodeCall?_eq_some_iff {data : Bytes} :
    f.encodeCall? values = some data ↔
      f.Takes values ∧ data = f.selector ++ Value.encodeAll values := by
  unfold Takes
  rw [takes_iff_haveTypes]
  unfold encodeCall?
  cases Param.resolveAll? f.inputs with
  | none => simp
  | some types =>
      simp only [Option.bind_eq_bind, Option.bind_some, Option.some.injEq, exists_eq_left']
      split
      · rename_i hv
        simpa [hv] using eq_comm
      · rename_i hv
        simp [hv]

theorem encodeCall?_eq_none_iff : f.encodeCall? values = none ↔ ¬ f.Takes values := by
  constructor
  · intro h ht
    rw [encodeCall?_eq_some_iff.mpr ⟨ht, rfl⟩] at h
    cases h
  · intro h
    cases hd : f.encodeCall? values with
    | none => rfl
    | some data => exact (h (encodeCall?_eq_some_iff.mp hd).1).elim

end Function

/-! ## Overloads -/

namespace Contract

variable {contract : Contract} {method : String} {arity : Nat} {f : Function}

theorem find?_overloads_eq_some_iff {p : Function → Bool} :
    (contract.overloads method).find? p = some f ↔ (f.name = method ∧ p f = true) ∧
      ∃ before after, contract.functions = before ++ f :: after ∧
        ∀ g ∈ before, ¬ (g.name = method ∧ p g = true) := by
  rw [overloads, List.find?_filter, List.find?_eq_some_iff_append]
  simp [imp_iff_not_or]

theorem find?_overloads_eq_none_iff {p : Function → Bool} :
    (contract.overloads method).find? p = none ↔
      ∀ f ∈ contract.functions, ¬ (f.name = method ∧ p f = true) := by
  rw [overloads, List.find?_filter, List.find?_eq_none]
  simp

/-- The function is the first one of the name that takes so many inputs. -/
def Picks (contract : Contract) (method : String) (arity : Nat) (f : Function) : Prop :=
  (f.name = method ∧ f.inputs.length = arity) ∧
    ∃ before after, contract.functions = before ++ f :: after ∧
      ∀ g ∈ before, ¬ (g.name = method ∧ g.inputs.length = arity)

theorem overload?_eq_some_iff :
    contract.overload? method arity = some f ↔ contract.Picks method arity f := by
  rw [overload?, find?_overloads_eq_some_iff]
  simp only [beq_iff_eq, Picks]

theorem overload?_eq_none_iff :
    contract.overload? method arity = none ↔
      ∀ f ∈ contract.functions, f.name = method → f.inputs.length ≠ arity := by
  rw [overload?, find?_overloads_eq_none_iff]
  simp

/-- What the interface makes of a call: the function to call with the data to send, or the fault that
keeps it from being sent. -/
inductive Prepares (contract : Contract) (method : String) (inputs : List Value) :
    Except NodeFault (Function × Bytes) → Prop where
  | unknown (h : ∀ f ∈ contract.functions, f.name = method → f.inputs.length ≠ inputs.length) :
      Prepares contract method inputs (.error (.noOverload method inputs.length))
  | unfit {f : Function} (picked : contract.Picks method inputs.length f) (h : ¬ f.Takes inputs) :
      Prepares contract method inputs (.error (.badInputs method))
  | ready {f : Function} (picked : contract.Picks method inputs.length f) (h : f.Takes inputs) :
      Prepares contract method inputs (.ok (f, f.selector ++ Value.encodeAll inputs))

theorem prepares_iff {inputs : List Value} {plan : Except NodeFault (Function × Bytes)} :
    contract.Prepares method inputs plan ↔
      plan = match contract.overload? method inputs.length with
        | none => .error (.noOverload method inputs.length)
        | some f =>
          match f.encodeCall? inputs with
          | none => .error (.badInputs method)
          | some data => .ok (f, data) := by
  constructor
  · intro h
    cases h with
    | unknown h => rw [overload?_eq_none_iff.mpr h]
    | unfit picked h =>
        rw [overload?_eq_some_iff.mpr picked]
        dsimp only
        rw [Function.encodeCall?_eq_none_iff.mpr h]
    | ready picked h =>
        rw [overload?_eq_some_iff.mpr picked]
        dsimp only
        rw [Function.encodeCall?_eq_some_iff.mpr ⟨h, rfl⟩]
  · rintro rfl
    cases hf : contract.overload? method inputs.length with
    | none => exact .unknown (overload?_eq_none_iff.mp hf)
    | some f =>
        have picked := overload?_eq_some_iff.mp hf
        dsimp only
        cases hd : f.encodeCall? inputs with
        | none => exact .unfit picked (Function.encodeCall?_eq_none_iff.mp hd)
        | some data =>
            obtain ⟨takes, rfl⟩ := Function.encodeCall?_eq_some_iff.mp hd
            exact .ready picked takes

end Contract

end Abi

/-! ## The call -/

namespace Endpoint

variable {e : Endpoint} {address : Address} {contract : Abi.Contract} {method : String}
  {inputs : List Abi.Value} {f : Abi.Function} {data : Bytes}

/-- What a call of the function comes to by the node's answer, and whether the node counts as healthy
from then on. An answer that cannot be decoded is an answer. -/
inductive Settles (f : Abi.Function) (method : String) :
    Except NodeFault Bytes → Except NodeFault (List Abi.Value) → Bool → Prop where
  | failed (fault : NodeFault) : Settles f method (.error fault) (.error fault) false
  | decoded {answer : Bytes} {outputs : List Abi.Value} (h : f.decodeAnswer? answer = some outputs) :
      Settles f method (.ok answer) (.ok outputs) true
  | unreadable {answer : Bytes} (h : f.decodeAnswer? answer = none) :
      Settles f method (.ok answer) (.error (.badOutputs method)) true

theorem settles_iff {answer : Except NodeFault Bytes} {outcome : Except NodeFault (List Abi.Value)}
    {healthy : Bool} :
    Settles f method answer outcome healthy ↔
      outcome = decoded f method answer ∧ healthy = answer.isOk := by
  constructor
  · intro h
    cases h with
    | failed fault => exact ⟨rfl, rfl⟩
    | decoded h => exact ⟨by simp [Endpoint.decoded, h], rfl⟩
    | unreadable h => exact ⟨by simp [Endpoint.decoded, h], rfl⟩
  · rintro ⟨rfl, rfl⟩
    cases answer with
    | error fault => exact .failed fault
    | ok answer =>
        unfold Endpoint.decoded
        dsimp only
        cases h : f.decodeAnswer? answer with
        | none => exact .unreadable h
        | some outputs => exact .decoded h

/-- A call that is turned away is no more than its fault. -/
theorem callView_of_refused {fault : NodeFault} (h : contract.Prepares method inputs (.error fault)) :
    e.callView address contract method inputs = throw fault := by
  unfold callView
  cases h with
  | unknown h => rw [Abi.Contract.overload?_eq_none_iff.mpr h]
  | unfit picked h =>
      rw [Abi.Contract.overload?_eq_some_iff.mpr picked]
      dsimp only
      rw [Abi.Function.encodeCall?_eq_none_iff.mpr h]

theorem overload?_of_ready (h : contract.Prepares method inputs (.ok (f, data))) :
    contract.overload? method inputs.length = some f ∧ f.encodeCall? inputs = some data := by
  cases h with
  | ready picked h =>
      exact ⟨Abi.Contract.overload?_eq_some_iff.mpr picked,
        Abi.Function.encodeCall?_eq_some_iff.mpr ⟨h, rfl⟩⟩

/-- A call that is sent has one exchange with the node. -/
theorem alone_callView {σ : Type} {h : Handler system σ} {now : Nat} {w : World system σ}
    {answer : Except NodeFault Bytes} (ready : contract.Prepares method inputs (.ok (f, data)))
    (ha : h.answer (.chain e.position (.call address data)) w.outside = answer) :
    (e.callView address contract method inputs).run.Alone h now w
      [⟨.chain e.position (.call address data), now, answer,
        now + h.lag (.chain e.position (.call address data)) w.outside⟩]
      ⟨some (decoded f method answer), now + h.lag (.chain e.position (.call address data)) w.outside,
        ⟨w.memory.mark e.position answer.isOk,
          h.after (.chain e.position (.call address data)) w.outside⟩⟩ := by
  obtain ⟨hf, hd⟩ := overload?_of_ready ready
  unfold callView
  rw [hf]
  dsimp only
  rw [hd]
  dsimp only
  cases answer with
  | error fault => exact Activity.alone_exceptT_bind_error (alone_ask ha)
  | ok answer =>
      change Activity.Alone _ _ _ _ ([_] ++ []) _
      refine Activity.alone_exceptT_bind (alone_ask ha) ?_
      unfold decoded
      dsimp only
      cases f.decodeAnswer? answer with
      | none => exact Activity.alone_pure ..
      | some outputs => exact Activity.alone_pure ..

/-- The first overload in order that takes so many inputs is called, or the call is turned away and
neither the node nor the health flag is touched. A call is sent once, its own answer sets the flag, and
the answer is decoded by the overload that was called. -/
theorem callView_follows_overload (e : Endpoint) (address : Address) (contract : Abi.Contract)
    (method : String) (inputs : List Abi.Value) :
    (∃! plan, contract.Prepares method inputs plan) ∧
      (∀ fault, contract.Prepares method inputs (.error fault) →
        (∀ trace outcome,
          (e.callView address contract method inputs).run.Runs trace (some outcome) ↔
            trace = [] ∧ outcome = .error fault) ∧
        ∀ {σ : Type} (h : Handler system σ) (now : Nat) (w : World system σ),
          (e.callView address contract method inputs).run.run h now w =
            ⟨some (.error fault), now, w⟩) ∧
      ∀ f data, contract.Prepares method inputs (.ok (f, data)) →
        (∀ trace outcome,
          (e.callView address contract method inputs).run.Runs trace (some outcome) ↔
            ∃ answer healthy m, Settles f method answer outcome healthy ∧
              trace = [.sent (.chain e.position (.call address data)),
                .answered (.chain e.position (.call address data)) answer,
                .touched m (m.mark e.position healthy)]) ∧
        ∀ {σ : Type} (h : Handler system σ) (now : Nat) (w : World system σ),
          ∃ answer outcome healthy, Settles f method answer outcome healthy ∧
            answer = h.answer (.chain e.position (.call address data)) w.outside ∧
            (e.callView address contract method inputs).run.Alone h now w
              [⟨.chain e.position (.call address data), now, answer,
                now + h.lag (.chain e.position (.call address data)) w.outside⟩]
              ⟨some outcome, now + h.lag (.chain e.position (.call address data)) w.outside,
                ⟨w.memory.mark e.position healthy,
                  h.after (.chain e.position (.call address data)) w.outside⟩⟩ := by
  refine ⟨⟨_, Abi.Contract.prepares_iff.mpr rfl, fun _ => Abi.Contract.prepares_iff.mp⟩,
    fun fault refused => ?_, fun f data ready => ⟨fun trace outcome => ?_, fun h now w => ?_⟩⟩
  · rw [callView_of_refused refused]
    exact ⟨fun trace outcome => runs_throw_some,
      fun h now w => (Activity.alone_pure h now (Except.error fault) w).run_eq⟩
  · obtain ⟨hf, hd⟩ := overload?_of_ready ready
    rw [runs_callView_some, hf]
    dsimp only
    rw [hd]
    dsimp only
    constructor
    · rintro ⟨answer, hask, rfl⟩
      obtain ⟨m, rfl⟩ := runs_ask_some.mp hask
      exact ⟨answer, _, m, settles_iff.mpr ⟨rfl, rfl⟩, rfl⟩
    · rintro ⟨answer, healthy, m, hs, rfl⟩
      obtain ⟨rfl, rfl⟩ := settles_iff.mp hs
      exact ⟨answer, runs_ask_some.mpr ⟨m, rfl⟩, rfl⟩
  · exact ⟨_, _, _, settles_iff.mpr ⟨rfl, rfl⟩, rfl, alone_callView ready rfl⟩

/-- Three functions of one name, of which two take nothing. -/
def toggles : Abi.Contract :=
  ⟨[⟨"on", [.mk "uint256" []], [.mk "bool" []]⟩, ⟨"on", [], [.mk "bool" []]⟩,
    ⟨"on", [], [.mk "uint256" []]⟩], [], [], false, false, false⟩

set_option maxRecDepth 4000 in
theorem callView_follows_overload_toggles :
    ∃ f data, toggles.Prepares "on" [] (.ok (f, data)) ∧
      toggles.Prepares "on" [.bool true] (.error (.badInputs "on")) ∧
      ((Fleet.soloist.callView .zero toggles "on" []).run.run Stage.handler 0 Fleet.contested).value? =
        some (.ok [.bool false]) ∧
      (Fleet.soloist.callView .zero toggles "on" [.bool true]).run.run Stage.handler 0 Fleet.contested =
        ⟨some (.error (.badInputs "on")), 0, Fleet.contested⟩ := by
  have ready : toggles.Prepares "on" [] (.ok (⟨"on", [], [.mk "bool" []]⟩, _)) :=
    .ready ⟨⟨rfl, rfl⟩, [_], [_], rfl, by simp⟩ .nil
  have refused : toggles.Prepares "on" [.bool true] (.error (.badInputs "on")) := by
    refine .unfit (f := ⟨"on", [.mk "uint256" []], [.mk "bool" []]⟩)
      ⟨⟨rfl, rfl⟩, [], [_, _], rfl, by simp⟩ ?_
    exact Abi.Function.encodeCall?_eq_none_iff.mp
      (Option.isNone_iff_eq_none.mp (by decide +kernel))
  obtain ⟨-, -, calls⟩ := callView_follows_overload Fleet.soloist .zero toggles "on" []
  obtain ⟨-, declines, -⟩ := callView_follows_overload Fleet.soloist .zero toggles "on" [.bool true]
  obtain ⟨answer, outcome, healthy, hs, ha, alone⟩ :=
    (calls _ _ ready).2 Stage.handler 0 Fleet.contested
  refine ⟨_, _, ready, refused, ?_, (declines _ refused).2 Stage.handler 0 Fleet.contested⟩
  have given : answer = .ok (List.replicate 31 0 ++ [0]) := ha.trans rfl
  rw [alone.run_eq, (settles_iff.mp hs).1, given]
  rfl

end Endpoint

end ChainWatch
