/-!
# Shuffles

A shuffle of some lists takes from each of them in its own order. It is how the traces of activities
that run side by side lie in the trace of the whole.
-/

namespace ChainWatch.Concurrency

variable {A : Type}

/-- The third list takes from the first two, each in its own order. -/
inductive Shuffle : List A → List A → List A → Prop where
  | nil : Shuffle [] [] []
  | left {x : A} {a b c : List A} : Shuffle a b c → Shuffle (x :: a) b (x :: c)
  | right {x : A} {a b c : List A} : Shuffle a b c → Shuffle a (x :: b) (x :: c)

namespace Shuffle

theorem swap {a b c : List A} (h : Shuffle a b c) : Shuffle b a c := by
  induction h with
  | nil => exact .nil
  | left _ ih => exact .right ih
  | right _ ih => exact .left ih

theorem nil_right (a : List A) : Shuffle a [] a := by
  induction a with
  | nil => exact .nil
  | cons x a ih => exact .left ih

theorem eq_of_nil_right {a c : List A} (h : Shuffle a [] c) : c = a := by
  induction a generalizing c with
  | nil => cases h; rfl
  | cons x a ih =>
      cases h with
      | left h => rw [ih h]

theorem eq_of_singletons {x : A} {c : List A} (h : Shuffle [x] [x] c) : c = [x, x] := by
  cases h with
  | left h => rw [h.swap.eq_of_nil_right]
  | right h => rw [h.eq_of_nil_right]

theorem append {a b c a' b' c' : List A} (h : Shuffle a b c) (h' : Shuffle a' b' c') :
    Shuffle (a ++ a') (b ++ b') (c ++ c') := by
  induction h with
  | nil => exact h'
  | left _ ih => exact .left ih
  | right _ ih => exact .right ih

theorem concat (a b : List A) : Shuffle a b (a ++ b) := by
  simpa using (nil_right a).append (nil_right b).swap

theorem mem_iff {a b c : List A} (h : Shuffle a b c) {x : A} : x ∈ c ↔ x ∈ a ∨ x ∈ b := by
  induction h with
  | nil => simp
  | left _ ih => simp [ih, or_assoc]
  | right _ ih => simp [ih, or_left_comm]

theorem filterMap {B : Type} (f : A → Option B) {a b c : List A} (h : Shuffle a b c) :
    Shuffle (a.filterMap f) (b.filterMap f) (c.filterMap f) := by
  induction h with
  | nil => exact .nil
  | @left x _ _ _ _ ih =>
      cases hx : f x with
      | none => simpa [List.filterMap_cons, hx] using ih
      | some y => simpa [List.filterMap_cons, hx] using ih.left
  | @right x _ _ _ _ ih =>
      cases hx : f x with
      | none => simpa [List.filterMap_cons, hx] using ih
      | some y => simpa [List.filterMap_cons, hx] using ih.right

theorem exists_of_map {B : Type} {f : B → A} {a b : List B} {c : List A}
    (h : Shuffle (a.map f) (b.map f) c) : ∃ whole, Shuffle a b whole ∧ whole.map f = c := by
  generalize ha : a.map f = a' at h
  generalize hb : b.map f = b' at h
  induction h generalizing a b with
  | nil =>
      rw [List.map_eq_nil_iff.mp ha, List.map_eq_nil_iff.mp hb]
      exact ⟨[], .nil, rfl⟩
  | left _ ih =>
      obtain ⟨x, a, rfl, rfl, rfl⟩ := List.map_eq_cons_iff.mp ha
      obtain ⟨whole, hw, rfl⟩ := ih rfl hb
      exact ⟨x :: whole, hw.left, rfl⟩
  | right _ ih =>
      obtain ⟨x, b, rfl, rfl, rfl⟩ := List.map_eq_cons_iff.mp hb
      obtain ⟨whole, hw, rfl⟩ := ih ha rfl
      exact ⟨x :: whole, hw.right, rfl⟩

/-- Where the whole is cut, the parts are cut. -/
theorem split {a b early late : List A} (h : Shuffle a b (early ++ late)) :
    ∃ a₁ a₂ b₁ b₂, a = a₁ ++ a₂ ∧ b = b₁ ++ b₂ ∧ Shuffle a₁ b₁ early ∧ Shuffle a₂ b₂ late := by
  induction early generalizing a b with
  | nil => exact ⟨[], a, [], b, rfl, rfl, .nil, h⟩
  | cons x early ih =>
      cases h with
      | left h =>
          obtain ⟨a₁, a₂, b₁, b₂, rfl, rfl, he, hl⟩ := ih h
          exact ⟨x :: a₁, a₂, b₁, b₂, rfl, rfl, he.left, hl⟩
      | right h =>
          obtain ⟨a₁, a₂, b₁, b₂, rfl, rfl, he, hl⟩ := ih h
          exact ⟨a₁, a₂, x :: b₁, b₂, rfl, rfl, he.right, hl⟩

/-- What comes first in one part cuts the other part and the whole. -/
theorem uncons_right {x : A} {a b c : List A} (h : Shuffle a (x :: b) c) :
    ∃ a₁ a₂ c₂, a = a₁ ++ a₂ ∧ c = a₁ ++ x :: c₂ ∧ Shuffle a₂ b c₂ := by
  generalize hxb : x :: b = xb at h
  induction h with
  | nil => cases hxb
  | left _ ih =>
      obtain ⟨a₁, a₂, c₂, rfl, rfl, h⟩ := ih hxb
      exact ⟨_ :: a₁, a₂, c₂, rfl, rfl, h⟩
  | right h =>
      cases hxb
      exact ⟨[], _, _, rfl, rfl, h⟩

/-- Of three lists, any one may be taken out first. -/
theorem exchange {a b c bc whole : List A} (h : Shuffle a bc whole) (hbc : Shuffle b c bc) :
    ∃ ac, Shuffle a c ac ∧ Shuffle b ac whole := by
  induction h generalizing b c with
  | nil => cases hbc; exact ⟨[], .nil, .nil⟩
  | left _ ih =>
      obtain ⟨ac, hac, hw⟩ := ih hbc
      exact ⟨_ :: ac, hac.left, hw.right⟩
  | right _ ih =>
      cases hbc with
      | left hbc =>
          obtain ⟨ac, hac, hw⟩ := ih hbc
          exact ⟨ac, hac, hw.left⟩
      | right hbc =>
          obtain ⟨ac, hac, hw⟩ := ih hbc
          exact ⟨_ :: ac, hac.right, hw.right⟩

theorem countP (f : A → Bool) {a b c : List A} (h : Shuffle a b c) :
    c.countP f = a.countP f + b.countP f := by
  induction h with
  | nil => rfl
  | @left x _ _ _ _ ih =>
      rw [List.countP_cons, List.countP_cons, ih]
      omega
  | @right x _ _ _ _ ih =>
      rw [List.countP_cons, List.countP_cons, ih]
      omega

end Shuffle

/-- A shuffle of any number of lists. -/
def Shuffles : List (List A) → List A → Prop
  | [], whole => whole = []
  | part :: parts, whole => ∃ others, Shuffles parts others ∧ Shuffle part others whole

namespace Shuffles

theorem mem_iff {parts : List (List A)} {whole : List A} (h : Shuffles parts whole) {x : A} :
    x ∈ whole ↔ ∃ part ∈ parts, x ∈ part := by
  induction parts generalizing whole with
  | nil => simp [show whole = [] from h]
  | cons part parts ih =>
      obtain ⟨others, ho, hw⟩ := h
      simp [hw.mem_iff, ih ho]

theorem nil_of_forall_nil {parts : List (List A)} {whole : List A} (h : Shuffles parts whole)
    (hn : ∀ part ∈ parts, part = []) : whole = [] := by
  rw [List.eq_nil_iff_forall_not_mem]
  intro x hx
  obtain ⟨part, hp, hx⟩ := h.mem_iff.mp hx
  simp [hn part hp] at hx

theorem filterMap {B : Type} (f : A → Option B) {parts : List (List A)} {whole : List A}
    (h : Shuffles parts whole) : Shuffles (parts.map (List.filterMap f)) (whole.filterMap f) := by
  induction parts generalizing whole with
  | nil => simp [Shuffles, show whole = [] from h]
  | cons part parts ih =>
      obtain ⟨others, ho, hw⟩ := h
      exact ⟨others.filterMap f, ih ho, hw.filterMap f⟩

theorem exists_of_map {B : Type} {f : B → A} {parts : List (List B)} {whole : List A}
    (h : Shuffles (parts.map (List.map f)) whole) :
    ∃ items, Shuffles parts items ∧ items.map f = whole := by
  induction parts generalizing whole with
  | nil => exact ⟨[], rfl, (show whole = [] from h).symm⟩
  | cons part parts ih =>
      obtain ⟨images, hi, hw⟩ := h
      obtain ⟨others, ho, rfl⟩ := ih hi
      obtain ⟨items, hs, rfl⟩ := hw.exists_of_map
      exact ⟨items, ⟨others, ho, hs⟩, rfl⟩

theorem split {B : Type} {xs : List B} {own : B → List A} {early late : List A}
    (h : Shuffles (xs.map own) (early ++ late)) :
    ∃ cuts : List (B × List A × List A), cuts.map (·.1) = xs ∧
      (∀ c ∈ cuts, own c.1 = c.2.1 ++ c.2.2) ∧ Shuffles (cuts.map (·.2.1)) early ∧
      Shuffles (cuts.map (·.2.2)) late := by
  induction xs generalizing early late with
  | nil =>
      obtain ⟨rfl, rfl⟩ := List.append_eq_nil_iff.mp (show early ++ late = [] from h)
      exact ⟨[], rfl, by simp, rfl, rfl⟩
  | cons x xs ih =>
      obtain ⟨others, ho, hw⟩ := h
      obtain ⟨a₁, a₂, b₁, b₂, ha, rfl, he, hl⟩ := hw.split
      obtain ⟨cuts, rfl, hcuts, hearly, hlate⟩ := ih ho
      refine ⟨(x, a₁, a₂) :: cuts, rfl, ?_, ⟨b₁, hearly, he⟩, ⟨b₂, hlate, hl⟩⟩
      exact List.forall_mem_cons.mpr ⟨ha, hcuts⟩

/-- What comes first in the whole comes first in one of the parts. -/
theorem uncons {B : Type} {xs : List B} {own : B → List A} {y : A} {whole : List A}
    (h : Shuffles (xs.map own) (y :: whole)) :
    ∃ l x r part, xs = l ++ x :: r ∧ own x = y :: part ∧
      Shuffles (l.map own ++ part :: r.map own) whole := by
  induction xs generalizing whole with
  | nil => simp [Shuffles] at h
  | cons x xs ih =>
      obtain ⟨others, ho, hw⟩ := h
      generalize hx : own x = first at hw
      cases hw with
      | left hw => exact ⟨[], x, xs, _, rfl, hx, others, ho, hw⟩
      | right hw =>
          obtain ⟨l, z, r, part, rfl, hz, hs⟩ := ih ho
          refine ⟨x :: l, z, r, part, rfl, hz, _, hs, ?_⟩
          rw [hx]
          exact hw

theorem perm {parts parts' : List (List A)} {whole : List A} (h : Shuffles parts whole)
    (hp : parts.Perm parts') : Shuffles parts' whole := by
  induction hp generalizing whole with
  | nil => exact h
  | cons part _ ih =>
      obtain ⟨others, ho, hw⟩ := h
      exact ⟨others, ih ho, hw⟩
  | swap a b parts =>
      obtain ⟨others, ⟨rest, hr, ho⟩, hw⟩ := h
      obtain ⟨others', ho', hw'⟩ := hw.exchange ho
      exact ⟨others', ⟨rest, hr, ho'⟩, hw'⟩
  | trans _ _ ih ih' => exact ih' (ih h)

theorem exists_perm_of_cons {parts : List (List A)} {y : A} {whole : List A}
    (h : Shuffles parts (y :: whole)) :
    ∃ part others, parts.Perm ((y :: part) :: others) ∧ Shuffles (part :: others) whole := by
  rw [← List.map_id parts] at h
  obtain ⟨l, _, r, part, rfl, rfl, hw⟩ := h.uncons
  rw [List.map_id, List.map_id] at hw
  exact ⟨part, l ++ r, List.perm_middle, hw.perm List.perm_middle⟩

/-- If all parts around one are empty, the whole is that one. -/
theorem eq_of_around_nil {l r : List (List A)} {part whole : List A}
    (h : Shuffles (l ++ part :: r) whole) (hn : ∀ other ∈ l ++ r, other = []) : whole = part := by
  induction l generalizing whole with
  | nil =>
      obtain ⟨others, ho, hw⟩ := h
      rw [ho.nil_of_forall_nil hn] at hw
      exact hw.eq_of_nil_right
  | cons first l ih =>
      obtain ⟨others, ho, hw⟩ := h
      obtain ⟨rfl, hrest⟩ := List.forall_mem_cons.mp hn
      rw [hw.swap.eq_of_nil_right]
      exact ih ho hrest

theorem countP_le {parts : List (List A)} {whole : List A} (h : Shuffles parts whole)
    (f : A → Bool) : ∀ part ∈ parts, part.countP f ≤ whole.countP f := by
  induction parts generalizing whole with
  | nil => simp
  | cons part parts ih =>
      obtain ⟨others, ho, hw⟩ := h
      rw [hw.countP f]
      intro part' hp
      rcases List.mem_cons.mp hp with rfl | hp
      · exact Nat.le_add_right _ _
      · exact Nat.le_trans (ih ho part' hp) (Nat.le_add_left _ _)

theorem countP_eq_zero {f : A → Bool} {parts : List (List A)} {whole : List A}
    (h : Shuffles parts whole) (hz : whole.countP f = 0) : ∀ part ∈ parts, part.countP f = 0 :=
  fun part hp => Nat.le_zero.mp (hz ▸ h.countP_le f part hp)

/-- An item of a kind that occurs once in the whole occurs in one part only. -/
theorem countP_around {l r : List (List A)} {part whole : List A} {f : A → Bool}
    (h : Shuffles (l ++ part :: r) whole) (hone : whole.countP f ≤ 1) (hpos : 0 < part.countP f) :
    ∀ other ∈ l ++ r, other.countP f = 0 := by
  induction l generalizing whole with
  | nil =>
      obtain ⟨others, ho, hw⟩ := h
      have hsum := hw.countP f
      exact ho.countP_eq_zero (by omega)
  | cons first l ih =>
      obtain ⟨others, ho, hw⟩ := h
      have hsum := hw.countP f
      have hle := ho.countP_le f part (by simp)
      exact List.forall_mem_cons.mpr ⟨by omega, ih ho (by omega)⟩

/-- Where an item of one kind occurs once, and each part needs one for its items of another kind, the
latter all come from the part that has it. -/
theorem filterMap_eq_of_countP {B : Type} {f : A → Bool} {g : A → Option B}
    {parts : List (List A)} {whole part : List A} (h : Shuffles parts whole)
    (hone : whole.countP f ≤ 1)
    (hneeds : ∀ part ∈ parts, part.countP f = 0 → part.filterMap g = []) (hp : part ∈ parts)
    (hpos : 0 < part.countP f) : whole.filterMap g = part.filterMap g := by
  induction parts generalizing whole with
  | nil => simp at hp
  | cons first parts ih =>
      obtain ⟨others, ho, hw⟩ := h
      have hsum := hw.countP f
      have hg := hw.filterMap g
      have needs : ∀ part ∈ parts, part.countP f = 0 → part.filterMap g = [] :=
        fun part hp => hneeds part (by simp [hp])
      rcases List.mem_cons.mp hp with rfl | hp
      · have hothers : others.filterMap g = [] := (ho.filterMap g).nil_of_forall_nil fun q hq => by
          obtain ⟨part', hp', rfl⟩ := List.mem_map.mp hq
          exact needs part' hp' (ho.countP_eq_zero (by omega) part' hp')
        rw [hothers] at hg
        exact hg.eq_of_nil_right
      · have hle := ho.countP_le f part hp
        rw [hneeds first (by simp) (by omega)] at hg
        rw [hg.swap.eq_of_nil_right]
        exact ih ho (by omega) needs hp

/-- If all parts but one are empty, the whole is that one. -/
theorem eq_of_others_nil {B : Type} {xs : List B} {own : B → List A} {whole : List A} {x : B}
    (h : Shuffles (xs.map own) whole) (hd : xs.Nodup) (hx : x ∈ xs)
    (hn : ∀ y ∈ xs, y ≠ x → own y = []) : whole = own x := by
  induction xs generalizing whole with
  | nil => simp at hx
  | cons y xs ih =>
      obtain ⟨others, ho, hw⟩ := h
      obtain ⟨hy, hd⟩ := List.nodup_cons.mp hd
      rcases List.mem_cons.mp hx with rfl | hx
      · have hnil : others = [] := ho.nil_of_forall_nil fun part hp => by
          obtain ⟨z, hz, rfl⟩ := List.mem_map.mp hp
          exact hn z (by simp [hz]) (fun heq => hy (heq ▸ hz))
        rw [hnil] at hw
        exact hw.eq_of_nil_right
      · have hyx : y ≠ x := fun heq => hy (heq ▸ hx)
        rw [hn y (by simp) hyx] at hw
        rw [hw.swap.eq_of_nil_right]
        exact ih ho hd hx fun z hz => hn z (by simp [hz])

end Shuffles

/-! ## Tagged lists -/

/-- The items that bear a tag, in their order. -/
def ownedBy (i : Nat) (tagged : List (Nat × A)) : List A :=
  tagged.filterMap fun item => if item.1 = i then some item.2 else none

section Tags

variable {i j : Nat} {x : A} {tagged early late : List (Nat × A)}

@[simp] theorem ownedBy_nil : ownedBy i ([] : List (Nat × A)) = [] := rfl

@[simp] theorem ownedBy_cons_self : ownedBy i ((i, x) :: tagged) = x :: ownedBy i tagged := by
  simp [ownedBy]

theorem ownedBy_cons_of_ne (h : j ≠ i) : ownedBy i ((j, x) :: tagged) = ownedBy i tagged := by
  simp [ownedBy, h]

@[simp] theorem ownedBy_append : ownedBy i (early ++ late) = ownedBy i early ++ ownedBy i late :=
  List.filterMap_append

theorem mem_ownedBy : x ∈ ownedBy i tagged ↔ (i, x) ∈ tagged := by
  simp [ownedBy]

/-- The items of a whole can be tagged such that one part bears the first tag and the other one its
own tags, each moved on by one. -/
theorem Shuffle.exists_tagged {a c : List A} (h : Shuffle a (tagged.map Prod.snd) c) :
    ∃ whole : List (Nat × A), whole.map Prod.snd = c ∧ ownedBy 0 whole = a ∧
      ∀ i, ownedBy (i + 1) whole = ownedBy i tagged := by
  generalize hb : tagged.map Prod.snd = b at h
  induction h generalizing tagged with
  | nil =>
      obtain rfl := List.map_eq_nil_iff.mp hb
      exact ⟨[], rfl, rfl, fun _ => rfl⟩
  | @left x a b c _ ih =>
      obtain ⟨whole, rfl, rfl, hlater⟩ := ih hb
      refine ⟨(0, x) :: whole, rfl, ownedBy_cons_self, fun i => ?_⟩
      rw [ownedBy_cons_of_ne (by omega), hlater]
  | @right x a b c _ ih =>
      obtain ⟨⟨j, x⟩, tagged, rfl, rfl, rfl⟩ := List.map_eq_cons_iff.mp hb
      obtain ⟨whole, rfl, rfl, hlater⟩ := ih rfl
      refine ⟨(j + 1, x) :: whole, rfl, ownedBy_cons_of_ne (by omega), fun i => ?_⟩
      by_cases hj : j = i
      · rw [hj, ownedBy_cons_self, ownedBy_cons_self, hlater]
      · rw [ownedBy_cons_of_ne (by omega), ownedBy_cons_of_ne hj, hlater]

/-- The items of a whole can be tagged with the places of the parts that they come from. -/
theorem Shuffles.exists_tagged {parts : List (List A)} {whole : List A} (h : Shuffles parts whole) :
    ∃ tagged : List (Nat × A), tagged.map Prod.snd = whole ∧
      ∀ i, ownedBy i tagged = parts.getD i [] := by
  induction parts generalizing whole with
  | nil => exact ⟨[], (show whole = [] from h).symm, fun _ => rfl⟩
  | cons part parts ih =>
      obtain ⟨others, ho, hw⟩ := h
      obtain ⟨tagged, rfl, hparts⟩ := ih ho
      obtain ⟨whole, rfl, hfirst, hlater⟩ := hw.exists_tagged
      refine ⟨whole, rfl, fun i => ?_⟩
      cases i with
      | zero => exact hfirst
      | succ i => rw [hlater, hparts, List.getD_cons_succ]

end Tags

end ChainWatch.Concurrency
