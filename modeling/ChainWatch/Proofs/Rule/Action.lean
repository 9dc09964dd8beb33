import ChainWatch.Proofs.Fleet.ViewCall
import ChainWatch.Proofs.Rule.Watching

/-!
# The call of an action

An action is called through the first function of its name that takes at most one input
(`Abi.Contract.Acts`), and the types of the inputs are looked at only afterwards. So an action can be
called exactly if this one takes nothing or a number of 256 bits, whatever functions of the name come
after it.
-/

namespace ChainWatch

theorem Keccak.length_digest (message : Bytes) : (digest message).length = 32 := by
  have lane : ∀ v : UInt64, (toLittleEndian v).length = 8 := fun v => by
    rw [toLittleEndian, List.length_map, List.length_range]
  simp [digest, List.length_flatMap, lane]

namespace Word

theorem toNat_toBytes (w : Word) : w.toBytes.toNat = w.toNat := by
  rw [toBytes, Bytes.toNat_ofNat]
  exact Nat.mod_eq_of_lt w.isLt

end Word

namespace Abi

/-! ## Data of a call -/

namespace Function

variable {f : Function} {v w : Word} {data : Bytes}

theorem length_selector (f : Function) : f.selector.length = 4 := by
  rw [selector, List.length_take, Keccak.length_digest]
  rfl

/-- The function takes nothing or a number. -/
def Callable (f : Function) : Prop :=
  f.inputs = [] ∨ ∃ p, f.inputs = [p] ∧ p.resolve? = some (.uint 256)

theorem exists_carries_iff : (∃ data, f.Carries v data) ↔ f.Callable := by
  constructor
  · rintro ⟨data, ⟨h, -⟩ | ⟨p, hp, ht, -⟩⟩
    · exact .inl h
    · exact .inr ⟨p, hp, ht⟩
  · rintro (h | ⟨p, hp, ht⟩)
    · exact ⟨_, .inl ⟨h, rfl⟩⟩
    · exact ⟨_, .inr ⟨p, hp, ht, rfl⟩⟩

/-- The data begin with the selector, and the number follows if the function takes one. -/
theorem Carries.split (h : f.Carries v data) : data.take 4 = f.selector ∧
    (f.inputs = [] ∧ data.drop 4 = [] ∨ f.inputs.length = 1 ∧ data.drop 4 = v.toBytes) := by
  have hlen := f.length_selector
  obtain ⟨hi, rfl⟩ | ⟨p, hi, -, rfl⟩ := h
  · exact ⟨List.take_of_length_le (by omega), .inl ⟨hi, List.drop_of_length_le (by omega)⟩⟩
  · exact ⟨List.take_left' hlen, .inr ⟨by rw [hi]; rfl, List.drop_left' hlen⟩⟩

theorem Carries.unique (hv : f.Carries v data) (hw : f.Carries w data) (hi : f.inputs.length = 1) :
    v = w := by
  have takes : f.inputs ≠ [] := fun h => by simp [h] at hi
  obtain ⟨-, ⟨h, -⟩ | ⟨-, hv⟩⟩ := hv.split
  · exact (takes h).elim
  obtain ⟨-, ⟨h, -⟩ | ⟨-, hw⟩⟩ := hw.split
  · exact (takes h).elim
  · exact Word.toBytes_injective (hv.symm.trans hw)

/-- The function has the name and takes at most one input. -/
def IsAction (f : Function) (method : String) : Prop :=
  f.name = method ∧ f.inputs.length ≤ 1

instance (f : Function) (method : String) : Decidable (f.IsAction method) :=
  inferInstanceAs (Decidable (_ ∧ _))

end Function

/-! ## The choice of the function -/

namespace Contract

variable {contract : Contract} {method : String} {f g : Function}

/-- The function is the first one of the name that takes at most one input. -/
def Acts (contract : Contract) (method : String) (f : Function) : Prop :=
  f.IsAction method ∧ ∃ before after, contract.functions = before ++ f :: after ∧
    ∀ g ∈ before, ¬ g.IsAction method

theorem action?_eq_some_iff : contract.action? method = some f ↔ contract.Acts method f := by
  rw [action?, find?_overloads_eq_some_iff]
  simp only [decide_eq_true_eq, Acts, Function.IsAction]

theorem action?_eq_none_iff :
    contract.action? method = none ↔ ∀ f ∈ contract.functions, ¬ f.IsAction method := by
  rw [action?, find?_overloads_eq_none_iff]
  simp only [decide_eq_true_eq, Function.IsAction]

theorem Acts.unique (hf : contract.Acts method f) (hg : contract.Acts method g) : f = g :=
  Option.some.inj ((action?_eq_some_iff.mpr hf).symm.trans (action?_eq_some_iff.mpr hg))

theorem Acts.mem (h : contract.Acts method f) : f ∈ contract.functions := by
  obtain ⟨-, before, after, hsplit, -⟩ := h
  simp [hsplit]

theorem exists_acts_iff :
    (∃ f, contract.Acts method f) ↔ ∃ f ∈ contract.functions, f.IsAction method := by
  constructor
  · rintro ⟨f, h⟩
    exact ⟨f, h.mem, h.1⟩
  · rintro ⟨f, hf, h⟩
    cases ha : contract.action? method with
    | none => exact (action?_eq_none_iff.mp ha f hf h).elim
    | some g => exact ⟨g, action?_eq_some_iff.mp ha⟩

theorem encodeAction_eq_ok_iff {v : Word} {data : Bytes} :
    contract.encodeAction method v = .ok data ↔ ∃ f, contract.Acts method f ∧ f.Carries v data := by
  rw [encodeAction_eq_ok]
  simp only [action?_eq_some_iff]

theorem exists_encodeAction_iff {v : Word} :
    (∃ data, contract.encodeAction method v = .ok data) ↔
      ∃ f, contract.Acts method f ∧ f.Callable := by
  simp only [encodeAction_eq_ok_iff, ← Function.exists_carries_iff (v := v)]
  exact ⟨fun ⟨data, f, h, hd⟩ => ⟨f, h, data, hd⟩, fun ⟨f, h, data, hd⟩ => ⟨data, f, h, hd⟩⟩

theorem encodeAction_of_none {v : Word} (h : ∀ f ∈ contract.functions, ¬ f.IsAction method) :
    contract.encodeAction method v = .error (.noAction method) := by
  rw [encodeAction, action?_eq_none_iff.mpr h]

theorem encodeAction_of_not_callable {v : Word} (h : contract.Acts method f) (hc : ¬ f.Callable) :
    contract.encodeAction method v = .error (.badAction method) := by
  have refused : ∀ data, contract.encodeAction method v ≠ .ok data := fun data hd => by
    obtain ⟨g, hg, hcallable⟩ := exists_encodeAction_iff.mp ⟨data, hd⟩
    exact hc (h.unique hg ▸ hcallable)
  rw [encodeAction, action?_eq_some_iff.mpr h] at refused ⊢
  dsimp only at refused ⊢
  split
  · rfl
  · rename_i data hd
    rw [hd] at refused
    exact (refused data rfl).elim

/-- An action fails for want of a function with at most one input, or because the first such function
takes something else than a number. -/
theorem encodeAction_eq_error_iff {v : Word} {fault : RuleFault} :
    contract.encodeAction method v = .error fault ↔
      (fault = .noAction method ∧ ∀ f ∈ contract.functions, ¬ f.IsAction method) ∨
        fault = .badAction method ∧ ∃ f, contract.Acts method f ∧ ¬ f.Callable := by
  constructor
  · intro h
    by_cases none : ∀ f ∈ contract.functions, ¬ f.IsAction method
    · rw [encodeAction_of_none none] at h
      exact .inl ⟨(Except.error.inj h).symm, none⟩
    · obtain ⟨f, hf⟩ : ∃ f, contract.Acts method f := exists_acts_iff.mpr (by simpa using none)
      have hc : ¬ f.Callable := fun hc => by
        obtain ⟨data, hd⟩ := exists_encodeAction_iff.mpr ⟨f, hf, hc⟩
        rw [h] at hd
        cases hd
      rw [encodeAction_of_not_callable hf hc] at h
      exact .inr ⟨(Except.error.inj h).symm, f, hf, hc⟩
  · rintro (⟨rfl, h⟩ | ⟨rfl, f, hf, hc⟩)
    · exact encodeAction_of_none h
    · exact encodeAction_of_not_callable hf hc

/-- An action is called through the first function of its name with at most one input. The call can be
encoded exactly if this one takes nothing or a number; the data are its selector, followed by the number
if it takes one, and tell numbers apart then. -/
theorem action_is_first_overload (contract : Contract) (method : String) :
    (∀ v, (∃ data, contract.encodeAction method v = .ok data) ↔
      ∃ f, contract.Acts method f ∧ f.Callable) ∧
    (∀ v fault, contract.encodeAction method v = .error fault ↔
      (fault = .noAction method ∧ ∀ f ∈ contract.functions, ¬ f.IsAction method) ∨
        fault = .badAction method ∧ ∃ f, contract.Acts method f ∧ ¬ f.Callable) ∧
    ∀ f, contract.Acts method f → f.selector.length = 4 ∧
      (∀ v data, contract.encodeAction method v = .ok data →
        f.inputs = [] ∧ data = f.selector ∨
          f.inputs.length = 1 ∧ ∃ word : Bytes, data = f.selector ++ word ∧ word.length = 32 ∧
            word.toNat = v.toNat) ∧
      (f.inputs.length = 1 → ∀ v w data, contract.encodeAction method v = .ok data →
        contract.encodeAction method w = .ok data → v = w) := by
  refine ⟨fun v => exists_encodeAction_iff, fun v fault => encodeAction_eq_error_iff, fun f hf => ?_⟩
  have carries {v data} (h : contract.encodeAction method v = .ok data) : f.Carries v data := by
    obtain ⟨g, hg, hcarries⟩ := encodeAction_eq_ok_iff.mp h
    exact hf.unique hg ▸ hcarries
  refine ⟨f.length_selector, fun v data h => ?_, fun hi v w data hv hw => ?_⟩
  · obtain ⟨hi, hd⟩ | ⟨p, hi, -, hd⟩ := carries h
    · exact .inl ⟨hi, hd⟩
    · exact .inr ⟨by rw [hi]; rfl, v.toBytes, hd, v.length_toBytes, v.toNat_toBytes⟩
  · exact (carries hv).unique (carries hw) hi

/-! ### Two overloads with one input each -/

/-- A function that takes an address, and after it one of the same name that takes a number. -/
def addressFirst : Contract :=
  ⟨[⟨"act", [.mk "address" []], []⟩, ⟨"act", [.mk "uint256" []], []⟩], [], [], false, false, false⟩

def numberFirst : Contract :=
  { addressFirst with functions := addressFirst.functions.reverse }

theorem callable_number : (Function.mk "act" [.mk "uint256" []] []).Callable :=
  .inr ⟨_, rfl, rfl⟩

theorem not_callable_address : ¬ (Function.mk "act" [.mk "address" []] []).Callable := by
  rintro (h | ⟨p, hp, ht⟩)
  · cases h
  · cases hp
    rw [show (Param.mk "address" []).resolve? = some .address from rfl] at ht
    cases ht

theorem acts_addressFirst : addressFirst.Acts "act" ⟨"act", [.mk "address" []], []⟩ :=
  ⟨by decide, [], [_], rfl, by simp⟩

theorem acts_numberFirst : numberFirst.Acts "act" ⟨"act", [.mk "uint256" []], []⟩ :=
  ⟨by decide, [], [_], rfl, by simp⟩

theorem action_is_first_overload_act :
    (∃ data : Bytes, numberFirst.encodeAction "act" 901 = .ok data ∧ data.length = 36 ∧
      Bytes.toNat (data.drop 4) = 901) ∧
    numberFirst.encodeAction "act" 900 ≠ numberFirst.encodeAction "act" 901 ∧
    addressFirst.encodeAction "act" 901 = .error (.badAction "act") := by
  obtain ⟨encodes, -, chosen⟩ := action_is_first_overload numberFirst "act"
  obtain ⟨-, fails, -⟩ := action_is_first_overload addressFirst "act"
  obtain ⟨hselector, hdata, unique⟩ := chosen _ acts_numberFirst
  obtain ⟨data, hd⟩ := (encodes 901).mpr ⟨_, acts_numberFirst, callable_number⟩
  refine ⟨⟨data, hd, ?_⟩, fun same => ?_, (fails 901 _).mpr (.inr ⟨rfl, _, acts_addressFirst, ?_⟩)⟩
  · obtain ⟨hi, -⟩ | ⟨-, word, rfl, hlen, hvalue⟩ := hdata 901 data hd
    · cases hi
    · rw [List.length_append, hselector, hlen, List.drop_left' hselector]
      exact ⟨rfl, hvalue⟩
  · exact absurd (unique rfl 900 901 data (same.trans hd) hd) (by decide)
  · exact not_callable_address

/-- A function of the name that takes a number is not found behind one that takes something else. -/
theorem later_overload_is_missed :
    ¬ ∀ (contract : Contract) (method : String) (v : Word),
      (∃ data, contract.encodeAction method v = .ok data) ↔
        ∃ f ∈ contract.functions, f.name = method ∧ f.Callable := by
  intro finds
  obtain ⟨data, hd⟩ := (finds addressFirst "act" 901).mpr
    ⟨_, List.mem_cons_of_mem _ (List.mem_singleton_self _), rfl, callable_number⟩
  rw [encodeAction_of_not_callable acts_addressFirst not_callable_address] at hd
  cases hd

end Contract

end Abi

end ChainWatch
