import ChainWatch.Proofs.Concurrency.Trace

/-!
# Views of the memory

In the trace of a whole program the memory is found as it was left by the event before. A trace follows
a view of the memory when this holds of the part that the view shows. An activity whose neighbours
leave that part alone follows the view on its own, whatever else they do.
-/

namespace ChainWatch.Concurrency

variable {I : Interface} {X A B : Type}

/-- The event is a look at the memory, which stays as it is. -/
def Event.Still : Event I → Prop
  | .touched before after => after = before
  | .noticed _ => True
  | _ => False

namespace Trace

/-- From the view `x` to the view `x'`, each event finds the view as it was left before. -/
def Follows (view : I.Memory → X) : Trace I → X → X → Prop
  | [], x, x' => x' = x
  | .touched before after :: rest, x, x' => view before = x ∧ Follows view rest (view after) x'
  | .noticed memory :: rest, x, x' => view memory = x ∧ Follows view rest x x'
  | .sent _ :: rest, x, x' => Follows view rest x x'
  | .answered _ _ :: rest, x, x' => Follows view rest x x'

/-- No event of the trace changes the view. -/
def Keeps (view : I.Memory → X) (trace : Trace I) : Prop :=
  ∀ before after, Event.touched before after ∈ trace → view after = view before

variable {view : I.Memory → X} {trace early late : Trace I} {x y : X}

theorem follows_append :
    (early ++ late).Follows view x y ↔ ∃ z, early.Follows view x z ∧ late.Follows view z y := by
  induction early generalizing x with
  | nil => simp [Follows]
  | cons event early ih =>
      cases event <;> simp only [List.cons_append, Follows, ih, exists_and_left, and_assoc]

theorem Follows.through {m m' : I.Memory} (h : trace.Follows id m m') (view : I.Memory → X) :
    trace.Follows view (view m) (view m') := by
  induction trace generalizing m with
  | nil => exact congrArg view h
  | cons event trace ih =>
      cases event with
      | sent | answered => exact ih h
      | touched before after =>
          obtain ⟨rfl, h⟩ := h
          exact ⟨rfl, ih h⟩
      | noticed memory =>
          obtain ⟨rfl, h⟩ := h
          exact ⟨rfl, ih h⟩

theorem Keeps.mono {part : Trace I} (h : trace.Keeps view) (hs : ∀ e ∈ part, e ∈ trace) :
    part.Keeps view :=
  fun before after hm => h before after (hs _ hm)

theorem Follows.eq_of_keeps (h : trace.Follows view x y) (hk : trace.Keeps view) : y = x := by
  induction trace generalizing x with
  | nil => exact h
  | cons event trace ih =>
      have hk' : Keeps view trace := hk.mono fun e he => List.mem_cons_of_mem event he
      cases event with
      | sent | answered => exact ih h hk'
      | touched before after =>
          obtain ⟨rfl, h⟩ := h
          rw [ih h hk', hk before after (by simp)]
      | noticed memory =>
          obtain ⟨rfl, h⟩ := h
          exact ih h hk'

/-- What holds of a view and is never given up still holds at the end. -/
theorem Follows.stable {P : X → Prop} (h : trace.Follows view x y) (hx : P x)
    (hs : ∀ before after, Event.touched before after ∈ trace → P (view before) → P (view after)) :
    P y := by
  induction trace generalizing x with
  | nil => exact h ▸ hx
  | cons event trace ih =>
      have hs' : ∀ before after, Event.touched before after ∈ trace →
          P (view before) → P (view after) := fun b a hm => hs b a (by simp [hm])
      cases event with
      | sent | answered => exact ih h hx hs'
      | touched before after =>
          obtain ⟨rfl, h⟩ := h
          exact ih h (hs before after (by simp) hx) hs'
      | noticed memory =>
          obtain ⟨rfl, h⟩ := h
          exact ih h hx hs'

/-- What holds of a view and is never given up was found to hold whenever the memory was touched. -/
theorem Follows.found {P : X → Prop} (h : trace.Follows view x y) (hx : P x)
    (hs : ∀ before after, Event.touched before after ∈ trace → P (view before) → P (view after))
    {before after : I.Memory} (hm : Event.touched before after ∈ trace) : P (view before) := by
  obtain ⟨early, late, rfl⟩ := List.append_of_mem hm
  obtain ⟨z, he, hl⟩ := follows_append.mp h
  rw [show view before = z from hl.1]
  exact he.stable hx fun b a hm => hs b a (List.mem_append_left _ hm)

/-- What was brought about at some time and is never given up holds at the end. -/
theorem Follows.reached {P : X → Prop} (h : trace.Follows view x y)
    (hs : ∀ before after, Event.touched before after ∈ trace → P (view before) → P (view after))
    {before after : I.Memory} (hm : Event.touched before after ∈ trace) (hp : P (view after)) :
    P y := by
  obtain ⟨early, late, rfl⟩ := List.append_of_mem hm
  obtain ⟨z, -, hl⟩ := follows_append.mp h
  exact hl.2.stable hp fun b a hm => hs b a (by simp [hm])

/-- What was seen at the end of a wait and is never given up holds at the end. -/
theorem Follows.noticed {P : X → Prop} (h : trace.Follows view x y)
    (hs : ∀ before after, Event.touched before after ∈ trace → P (view before) → P (view after))
    {memory : I.Memory} (hm : Event.noticed memory ∈ trace) (hp : P (view memory)) : P y := by
  obtain ⟨early, late, rfl⟩ := List.append_of_mem hm
  obtain ⟨z, -, hl⟩ := follows_append.mp h
  rw [show view memory = z from hl.1] at hp
  exact hl.2.stable hp fun b a hm => hs b a (by simp [hm])

/-- The event brings it about that the view has the property. -/
def Brings (view : I.Memory → X) (P : X → Prop) [DecidablePred P] : Event I → Bool
  | .touched before after => !decide (P (view before)) && decide (P (view after))
  | _ => false

theorem not_brings_of_still {P : X → Prop} [DecidablePred P] {event : Event I} (h : event.Still) :
    Brings view P event = false := by
  cases event with
  | touched before after =>
      obtain rfl : after = before := h
      simp [Brings]
  | _ => rfl

/-- What is never given up is brought about at most once. -/
theorem Follows.countP_brings_le_one {P : X → Prop} [DecidablePred P]
    (h : trace.Follows view x y)
    (hs : ∀ before after, Event.touched before after ∈ trace → P (view before) → P (view after)) :
    trace.countP (Brings view P) ≤ 1 := by
  have once : ∀ {z : X} {rest : Trace I}, (∀ e ∈ rest, e ∈ trace) → rest.Follows view z y → P z →
      rest.countP (Brings view P) = 0 := by
    intro z rest hrest hf hz
    refine List.countP_eq_zero.mpr fun event hm => ?_
    cases event with
    | sent | answered | noticed => simp [Brings]
    | touched before after =>
        have hp := hf.found hz (fun b a hm => hs b a (hrest _ hm)) hm
        simp [Brings, hp]
  have upTo : ∀ {rest : Trace I} {z : X}, (∀ e ∈ rest, e ∈ trace) → rest.Follows view z y →
      rest.countP (Brings view P) ≤ 1 := by
    intro rest
    induction rest with
    | nil => simp
    | cons event rest ih =>
        intro z hrest hf
        have htail : ∀ e ∈ rest, e ∈ trace := fun e he => hrest e (by simp [he])
        rw [List.countP_cons]
        cases event with
        | sent | answered => simpa [Brings] using ih htail hf
        | noticed => simpa [Brings] using ih htail hf.2
        | touched before after =>
            by_cases hp : P (view after)
            · rw [once htail hf.2 hp]
              split <;> omega
            · simpa [Brings, hp] using ih htail hf.2
  exact upTo (fun _ h => h) h

/-- What did not hold at first and was found later has been brought about. -/
theorem Follows.exists_brings {P : X → Prop} [DecidablePred P] (h : trace.Follows view x y)
    (hx : ¬ P x) {before after : I.Memory} (hm : Event.touched before after ∈ trace)
    (hp : P (view after)) : ∃ event ∈ trace, Brings view P event = true := by
  induction trace generalizing x with
  | nil => cases hm
  | cons event trace ih =>
      have later (hrest : Event.touched before after ∈ trace) {z : X} (hf : Follows view trace z y)
          (hz : ¬ P z) : ∃ e ∈ event :: trace, Brings view P e = true := by
        obtain ⟨e, he, hb⟩ := ih hf hz hrest
        exact ⟨e, by simp [he], hb⟩
      cases event with
      | sent | answered => exact later (by simpa using hm) h hx
      | noticed => exact later (by simpa using hm) h.2 hx
      | touched b a =>
          obtain ⟨rfl, hf⟩ := h
          by_cases ha : P (view a)
          · exact ⟨.touched b a, by simp, by simp [Brings, hx, ha]⟩
          · refine later ?_ hf ha
            rcases List.mem_cons.mp hm with heq | hm
            · cases heq
              exact (ha hp).elim
            · exact hm

/-- Neither found nor left is the property seen of the view. -/
def Misses (view : I.Memory → X) (P : X → Prop) : Event I → Prop
  | .touched before after => ¬ P (view before) ∧ ¬ P (view after)
  | .noticed memory => ¬ P (view memory)
  | _ => True

/-- What was seen at some time and did not hold before was brought about for a first time. -/
theorem Follows.exists_first {P : X → Prop} [DecidablePred P] (h : trace.Follows view x y)
    (hx : ¬ P x) {event : Event I} (hm : event ∈ trace) (hn : ¬ Misses view P event) :
    ∃ early event late, trace = early ++ event :: late ∧ Brings view P event = true ∧
      ∀ event ∈ early, Misses view P event := by
  induction trace generalizing x with
  | nil => cases hm
  | cons first trace ih =>
      by_cases hfirst : Brings view P first = true
      · exact ⟨[], first, trace, rfl, hfirst, by simp⟩
      · have missed : ∃ z, Follows view trace z y ∧ ¬ P z ∧ Misses view P first := by
          cases first with
          | sent | answered => exact ⟨x, h, hx, trivial⟩
          | noticed memory =>
              obtain ⟨rfl, h⟩ := h
              exact ⟨_, h, hx, hx⟩
          | touched before after =>
              obtain ⟨rfl, h⟩ := h
              have hafter : ¬ P (view after) := by simpa [Brings, hx] using hfirst
              exact ⟨_, h, hafter, hx, hafter⟩
        obtain ⟨z, hz, hpz, hmiss⟩ := missed
        have hrest : event ∈ trace := by
          refine List.mem_of_ne_of_mem ?_ hm
          rintro rfl
          exact hn hmiss
        obtain ⟨early, event, late, rfl, hbrings, hearly⟩ := ih hz hpz hrest
        exact ⟨first :: early, event, late, rfl, hbrings, List.forall_mem_cons.mpr ⟨hmiss, hearly⟩⟩

end Trace

open Trace

variable {view : I.Memory → X} {x y : X}

theorem Shuffle.follows {a b c : Trace I} (h : Shuffle a b c) (hb : b.Keeps view)
    (hc : c.Follows view x y) : a.Follows view x y := by
  induction h generalizing x with
  | nil => exact hc
  | @left event a b c _ ih =>
      cases event with
      | sent | answered => exact ih hb hc
      | touched | noticed => exact ⟨hc.1, ih hb hc.2⟩
  | @right event a b c _ ih =>
      have hb' : Keeps view b := hb.mono fun e he => List.mem_cons_of_mem event he
      cases event with
      | sent | answered => exact ih hb' hc
      | touched before after =>
          obtain ⟨rfl, hc⟩ := hc
          rw [hb before after (by simp)] at hc
          exact ih hb' hc
      | noticed memory => exact ih hb' hc.2

theorem Shuffles.keeps {parts : List (Trace I)} {whole : Trace I} (h : Shuffles parts whole)
    (hp : ∀ part ∈ parts, part.Keeps view) : whole.Keeps view := by
  intro before after hm
  obtain ⟨part, hpart, hm⟩ := h.mem_iff.mp hm
  exact hp part hpart before after hm

/-- A member of a crew whose other members keep the view follows it alone. -/
theorem Shuffles.follows {xs : List B} {own : B → Trace I} {whole : Trace I} {i : B}
    (h : Shuffles (xs.map own) whole) (hd : xs.Nodup) (hi : i ∈ xs)
    (hk : ∀ j ∈ xs, j ≠ i → (own j).Keeps view) (hw : whole.Follows view x y) :
    (own i).Follows view x y := by
  induction xs generalizing whole with
  | nil => simp at hi
  | cons j xs ih =>
      obtain ⟨others, ho, hs⟩ := h
      obtain ⟨hj, hd⟩ := List.nodup_cons.mp hd
      rcases List.mem_cons.mp hi with rfl | hi
      · refine hs.follows (ho.keeps fun part hp => ?_) hw
        obtain ⟨k, hk', rfl⟩ := List.mem_map.mp hp
        exact hk k (by simp [hk']) fun heq => hj (heq ▸ hk')
      · have hji : j ≠ i := fun heq => hj (heq ▸ hi)
        exact ih ho hd hi (fun k hk' => hk k (by simp [hk']))
          (hs.swap.follows (hk j (by simp) hji) hw)

end ChainWatch.Concurrency
