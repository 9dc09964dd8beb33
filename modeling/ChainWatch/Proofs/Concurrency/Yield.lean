import ChainWatch.Proofs.Concurrency.View

/-!
# What activities come to

Activities that share a memory may rely on an invariant of it, each on the others to uphold it. Where the
events of the outside are as expected, such an activity can come to one value only, whatever its
neighbours do meanwhile. `Activity.Yields` says so, with a rule for each way of composing.
-/

namespace ChainWatch.Concurrency

variable {I : Interface} {α β ε : Type} {Inv : I.Memory → Prop} {expected : Event I → Prop}

/-! ## Upholding an invariant -/

namespace Trace

/-- As long as every event finds the invariant it leaves it so. -/
def Upholds (Inv : I.Memory → Prop) : Trace I → Prop
  | [] => True
  | .touched before after :: rest => Inv before → Inv after ∧ Upholds Inv rest
  | .noticed _ :: rest => Upholds Inv rest
  | .sent _ :: rest => Upholds Inv rest
  | .answered _ _ :: rest => Upholds Inv rest

/-- Whenever the memory was touched it was found as the invariant says. -/
def Finds (Inv : I.Memory → Prop) (trace : Trace I) : Prop :=
  ∀ before after, .touched before after ∈ trace → Inv before

variable {trace early late : Trace I}

theorem Finds.mono {part : Trace I} (h : trace.Finds Inv) (hs : ∀ event ∈ part, event ∈ trace) :
    part.Finds Inv :=
  fun before after hm => h before after (hs _ hm)

theorem upholds_of_forall
    (h : ∀ before after, .touched before after ∈ trace → Inv before → Inv after) :
    trace.Upholds Inv := by
  induction trace with
  | nil => trivial
  | cons event trace ih =>
      have hrest : Upholds Inv trace := ih fun before after hm => h before after (by simp [hm])
      cases event with
      | touched before after => exact fun hb => ⟨h before after (by simp) hb, hrest⟩
      | _ => exact hrest

/-- What comes later may rely on what was found earlier. -/
theorem Upholds.append (he : early.Upholds Inv) (hl : early.Finds Inv → late.Upholds Inv) :
    (early ++ late).Upholds Inv := by
  induction early with
  | nil => exact hl fun _ _ hm => (List.not_mem_nil hm).elim
  | cons event early ih =>
      have later (hf : ∀ before after, event = .touched before after → Inv before) :
          Finds Inv early → late.Upholds Inv := by
        refine fun hearly => hl fun before after hm => ?_
        rcases List.mem_cons.mp hm with heq | hm
        · exact hf before after heq.symm
        · exact hearly before after hm
      cases event with
      | touched before after =>
          intro hb
          obtain ⟨ha, hrest⟩ := he hb
          exact ⟨ha, ih hrest (later fun b a heq => by cases heq; exact hb)⟩
      | _ => exact ih he (later nofun)

/-- From a memory that is as the invariant says it is always found so. -/
theorem Upholds.finds {m m' : I.Memory} (h : trace.Upholds Inv) (hf : trace.Follows id m m')
    (hm : Inv m) : trace.Finds Inv ∧ Inv m' := by
  induction trace generalizing m with
  | nil => exact ⟨fun _ _ hm => (List.not_mem_nil hm).elim, (show m' = m from hf) ▸ hm⟩
  | cons event trace ih =>
      cases event with
      | touched before after =>
          obtain ⟨rfl, hf⟩ := hf
          obtain ⟨ha, hrest⟩ := h hm
          obtain ⟨hfinds, hlast⟩ := ih hrest hf ha
          refine ⟨fun b a hmem => ?_, hlast⟩
          rcases List.mem_cons.mp hmem with heq | hmem
          · cases heq
            exact hm
          · exact hfinds b a hmem
      | noticed memory =>
          obtain ⟨hfinds, hlast⟩ := ih h hf.2 hm
          exact ⟨fun b a hmem => hfinds b a (by simpa using hmem), hlast⟩
      | sent | answered =>
          obtain ⟨hfinds, hlast⟩ := ih h hf hm
          exact ⟨fun b a hmem => hfinds b a (by simpa using hmem), hlast⟩

end Trace

open Trace

theorem Shuffle.upholds {a b c : Trace I} (h : Shuffle a b c) (ha : a.Upholds Inv)
    (hb : b.Upholds Inv) : c.Upholds Inv := by
  induction h with
  | nil => trivial
  | @left event a b c _ ih =>
      cases event with
      | touched before after => exact fun hi => ⟨(ha hi).1, ih (ha hi).2 hb⟩
      | _ => exact ih ha hb
  | @right event a b c _ ih =>
      cases event with
      | touched before after => exact fun hi => ⟨(hb hi).1, ih ha (hb hi).2⟩
      | _ => exact ih ha hb

theorem Shuffles.upholds {parts : List (Trace I)} {whole : Trace I} (h : Shuffles parts whole)
    (hp : ∀ part ∈ parts, part.Upholds Inv) : whole.Upholds Inv := by
  induction parts generalizing whole with
  | nil => exact (show whole = [] from h) ▸ trivial
  | cons part parts ih =>
      obtain ⟨others, ho, hs⟩ := h
      obtain ⟨hpart, hparts⟩ := List.forall_mem_cons.mp hp
      exact hs.upholds hpart (ih ho hparts)

/-! ## Coming to a value -/

/-- Among expected events the activity upholds the invariant, and if that is what it always finds it
comes to no other value. -/
def Activity.Yields (expected : Event I → Prop) (Inv : I.Memory → Prop) (p : Activity I α)
    (value : α) : Prop :=
  ∀ trace result, p.Runs trace (some result) → (∀ event ∈ trace, expected event) →
    trace.Upholds Inv ∧ (trace.Finds Inv → result = value)

namespace Activity

theorem Yields.eq {p : Activity I α} {value result : α} {trace : Trace I} {m m' : I.Memory}
    (hp : p.Yields expected Inv value) (hr : p.Runs trace (some result))
    (he : ∀ event ∈ trace, expected event) (hf : trace.Follows id m m') (hm : Inv m) :
    result = value ∧ Inv m' := by
  obtain ⟨hupholds, hvalue⟩ := hp trace result hr he
  obtain ⟨hfinds, hlast⟩ := hupholds.finds hf hm
  exact ⟨hvalue hfinds, hlast⟩

theorem yields_pure (value : α) : (pure value : Activity I α).Yields expected Inv value := by
  intro trace result hr _
  obtain ⟨rfl, rfl⟩ := runs_pure_some.mp hr
  exact ⟨trivial, fun _ => rfl⟩

theorem Yields.bind {p : Activity I α} {f : α → Activity I β} {a : α} {b : β}
    (hp : p.Yields expected Inv a) (hf : (f a).Yields expected Inv b) :
    (p >>= f).Yields expected Inv b := by
  intro trace result hr he
  obtain ⟨v, early, late, hearly, hlate, rfl⟩ := runs_bind_some.mp hr
  obtain ⟨hupholds, hvalue⟩ := hp early v hearly fun e hm => he e (by simp [hm])
  have second (hfinds : early.Finds Inv) := by
    obtain rfl := hvalue hfinds
    exact hf late result hlate fun e hm => he e (by simp [hm])
  refine ⟨hupholds.append fun hfinds => (second hfinds).1, fun hfinds => ?_⟩
  exact (second (hfinds.mono fun e hm => by simp [hm])).2 (hfinds.mono fun e hm => by simp [hm])

theorem Yields.map {p : Activity I α} {a : α} (hp : p.Yields expected Inv a) (g : α → β) :
    (g <$> p).Yields expected Inv (g a) := by
  rw [map_eq_pure_bind]
  exact hp.bind (yields_pure _)

theorem yields_joinBounded {members : List (Activity I β)} {values : List β} (limit : Nat)
    (hm : List.Forall₂ (Yields expected Inv) members values) :
    (joinBounded limit members).Yields expected Inv values := by
  intro trace results hr he
  have hcrew := runs_joinBounded_some.mp hr
  clear hr
  induction hm generalizing trace results with
  | nil =>
      obtain ⟨rfl, hresults⟩ := hcrew
      exact ⟨trivial, fun _ => Option.some.inj hresults⟩
  | @cons member value members values hmember _ ih =>
      obtain ⟨a, b, ra, rb, ha, hb, hs, hresults⟩ := hcrew
      cases ra with
      | none => cases hresults
      | some v =>
          cases rb with
          | none => cases hresults
          | some vs =>
              obtain rfl : results = v :: vs := Option.some.inj hresults
              obtain ⟨hua, hva⟩ := hmember a v ha fun e hm => he e (hs.mem_iff.mpr (.inl hm))
              obtain ⟨hub, hvb⟩ := ih b vs (fun e hm => he e (hs.mem_iff.mpr (.inr hm))) hb
              refine ⟨hs.upholds hua hub, fun hfinds => ?_⟩
              rw [hva (hfinds.mono fun e hm => hs.mem_iff.mpr (.inl hm)),
                hvb (hfinds.mono fun e hm => hs.mem_iff.mpr (.inr hm))]

theorem yields_joinAll {members : List (Activity I β)} {values : List β}
    (hm : List.Forall₂ (Yields expected Inv) members values) :
    (joinAll members).Yields expected Inv values :=
  yields_joinBounded _ hm

end Activity

/-! ## Activities that may fail -/

variable {x : ExceptT ε (Activity I) α}

theorem yields_exceptT_pure (value : α) :
    (pure value : ExceptT ε (Activity I) α).run.Yields expected Inv (.ok value) :=
  Activity.yields_pure _

theorem yields_throw (e : ε) :
    (throw e : ExceptT ε (Activity I) α).run.Yields expected Inv (.error e) :=
  Activity.yields_pure _

theorem yields_exceptT_bind {f : α → ExceptT ε (Activity I) β} {a : Except ε α}
    {g : α → Except ε β} (hx : x.run.Yields expected Inv a)
    (hf : ∀ value, a = .ok value → (f value).run.Yields expected Inv (g value)) :
    (x >>= f).run.Yields expected Inv (a >>= g) := by
  rw [ExceptT.run_bind]
  refine hx.bind ?_
  cases a with
  | error e => exact Activity.yields_pure _
  | ok value => exact hf value rfl

theorem yields_lift {p : Activity I α} {value : α} (hp : p.Yields expected Inv value) :
    (liftM p : ExceptT ε (Activity I) α).run.Yields expected Inv (.ok value) :=
  hp.bind (Activity.yields_pure _)

theorem yields_lift_bind {p : Activity I α} {f : α → ExceptT ε (Activity I) β} {a : α}
    {b : Except ε β} (hp : p.Yields expected Inv a) (hf : (f a).run.Yields expected Inv b) :
    (liftM p >>= f).run.Yields expected Inv b := by
  rw [ExceptT.run_bind]
  exact (yields_lift hp).bind hf

end ChainWatch.Concurrency
