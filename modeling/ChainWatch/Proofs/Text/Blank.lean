import ChainWatch.Text.Blank
import Mathlib.Data.List.TakeWhile

/-!
# Texts with blanks around them

What is left of a text without the blanks at its ends: the one text without a blank at an end that the
longer one has blanks around (`trim_eq_iff`).
-/

namespace ChainWatch.Text

/-- The longer text is the shorter one with blanks in front of it and behind it. -/
def Pads (core text : List Char) : Prop :=
  ∃ left right, text = left ++ core ++ right ∧ (∀ c ∈ left, isBlank c = true) ∧
    ∀ c ∈ right, isBlank c = true

section TrimEnd

variable {p : Char → Bool} {text rest : List Char} {c : Char}

theorem trimEnd_cons_of_neg (h : p c = false) : trimEnd p (c :: rest) = c :: trimEnd p rest := by
  rw [trimEnd]
  split
  · rename_i hrest
    rw [if_neg (by simp [h]), hrest]
  · rfl

theorem trimEnd_append_of_forall_neg (h : ∀ c ∈ text, p c = false) :
    trimEnd p (text ++ rest) = text ++ trimEnd p rest := by
  induction text with
  | nil => rfl
  | cons c text ih =>
      obtain ⟨hc, htext⟩ := List.forall_mem_cons.mp h
      rw [List.cons_append, trimEnd_cons_of_neg hc, ih htext, List.cons_append]

theorem trimEnd_eq_nil_iff : trimEnd p text = [] ↔ ∀ c ∈ text, p c = true := by
  induction text with
  | nil => simp [trimEnd]
  | cons c rest ih =>
      rw [trimEnd]
      split
      · rename_i hrest
        rw [List.forall_mem_cons, and_iff_left (ih.mp hrest)]
        simp
      · rename_i hrest
        refine iff_of_false (List.cons_ne_nil _ _) fun h => hrest (ih.mpr fun d hd => ?_)
        exact h d (List.mem_cons_of_mem c hd)

theorem trimEnd_append_of_forall_pos (h : ∀ c ∈ rest, p c = true) :
    trimEnd p (text ++ rest) = trimEnd p text := by
  induction text with
  | nil => exact trimEnd_eq_nil_iff.mpr h
  | cons c text ih => rw [List.cons_append, trimEnd, ih, trimEnd]

/-- What is taken off at the end belongs to the class. -/
theorem exists_trimEnd_append (p : Char → Bool) (text : List Char) :
    ∃ right, text = trimEnd p text ++ right ∧ ∀ c ∈ right, p c = true := by
  induction text with
  | nil => exact ⟨[], rfl, by simp⟩
  | cons c rest ih =>
      obtain ⟨right, hrest, hright⟩ := ih
      rw [trimEnd]
      split
      · rename_i hnil
        have hall := trimEnd_eq_nil_iff.mp hnil
        by_cases hc : p c = true
        · exact ⟨c :: rest, by simp [hc], List.forall_mem_cons.mpr ⟨hc, hall⟩⟩
        · exact ⟨rest, by simp [hc], hall⟩
      · exact ⟨right, congrArg (c :: ·) hrest, hright⟩

theorem trimEnd_of_getLast? (h : ∀ c ∈ text.getLast?, p c = false) : trimEnd p text = text := by
  obtain ⟨right, htext, hright⟩ := exists_trimEnd_append p text
  rcases List.eq_nil_or_concat right with rfl | ⟨front, c, rfl⟩
  · rw [List.append_nil] at htext
    exact htext.symm
  · rw [List.concat_eq_append, ← List.append_assoc] at htext
    have last : text.getLast? = some c := by
      rw [htext, List.getLast?_concat]
    have neg := h c last
    rw [hright c (by simp)] at neg
    cases neg

theorem neg_of_getLast?_trimEnd (h : (trimEnd p text).getLast? = some c) : p c = false := by
  induction text with
  | nil => cases h
  | cons d rest ih =>
      rw [trimEnd] at h
      split at h
      · split at h
        · cases h
        · rename_i hd
          obtain rfl : d = c := by simpa using h
          simpa using hd
      · rw [List.getLast?_cons_of_ne_nil ‹_›] at h
        exact ih h

end TrimEnd

/-- No blank stands at an end of the text. -/
def Tight (text : List Char) : Prop :=
  (∀ c ∈ text.head?, isBlank c = false) ∧ ∀ c ∈ text.getLast?, isBlank c = false

instance (text : List Char) : Decidable (Tight text) :=
  @instDecidableAnd _ _ text.head?.decidableForallMem text.getLast?.decidableForallMem

section Trim

variable {core text : List Char}

theorem tight_of_forall (h : ∀ c ∈ text, isBlank c = false) : Tight text :=
  ⟨fun c hc => h c (List.mem_of_head? hc), fun c hc => h c (List.mem_of_getLast? hc)⟩

theorem Tight.reverse (h : Tight text) : Tight text.reverse := by
  rw [Tight, List.head?_reverse, List.getLast?_reverse]
  exact h.symm

theorem tight_trim (text : List Char) : Tight (trim text) := by
  refine ⟨fun c hc => ?_, fun c hc => neg_of_getLast?_trimEnd hc⟩
  rw [trim] at hc
  cases hdrop : text.dropWhile isBlank with
  | nil =>
      rw [hdrop] at hc
      cases hc
  | cons d rest =>
      have hd : isBlank d = false := by
        have front := List.head?_dropWhile_not isBlank text
        rw [hdrop] at front
        simpa using front
      rw [hdrop, trimEnd_cons_of_neg hd, List.head?_cons, Option.mem_some] at hc
      rw [← hc]
      exact hd

theorem Pads.reverse (h : Pads core text) : Pads core.reverse text.reverse := by
  obtain ⟨left, right, rfl, hleft, hright⟩ := h
  refine ⟨right.reverse, left.reverse, by simp, ?_, ?_⟩
  · exact fun c hc => hright c (List.mem_reverse.mp hc)
  · exact fun c hc => hleft c (List.mem_reverse.mp hc)

theorem pads_self (text : List Char) : Pads text text :=
  ⟨[], [], by simp, by simp, by simp⟩

theorem pads_trim (text : List Char) : Pads (trim text) text := by
  obtain ⟨right, hcore, hright⟩ := exists_trimEnd_append isBlank (text.dropWhile isBlank)
  refine ⟨text.takeWhile isBlank, right, ?_, fun c hc => List.mem_takeWhile_imp hc, hright⟩
  rw [trim, List.append_assoc, ← hcore, List.takeWhile_append_dropWhile]

theorem trim_of_tight (hp : Pads core text) (ht : Tight core) : trim text = core := by
  obtain ⟨left, right, rfl, hleft, hright⟩ := hp
  rw [trim, List.append_assoc, List.dropWhile_append_of_pos hleft]
  cases core with
  | nil =>
      rw [List.nil_append, List.dropWhile_eq_nil_iff.mpr hright]
      rfl
  | cons c rest =>
      rw [List.cons_append, List.dropWhile_cons_of_neg (by simp [ht.1 c rfl]), ← List.cons_append,
        trimEnd_append_of_forall_pos hright, trimEnd_of_getLast? ht.2]

theorem trim_eq_iff : trim text = core ↔ Pads core text ∧ Tight core := by
  constructor
  · rintro rfl
    exact ⟨pads_trim text, tight_trim text⟩
  · exact fun h => trim_of_tight h.1 h.2

theorem trim_reverse (text : List Char) : trim text.reverse = (trim text).reverse :=
  trim_of_tight (pads_trim text).reverse (tight_trim text).reverse

theorem trim_append_of_blank {right : List Char} (h : ∀ c ∈ right, isBlank c = true) :
    trim (text ++ right) = trim text := by
  obtain ⟨front, behind, htext, hfront, hbehind⟩ := pads_trim text
  refine trim_of_tight ⟨front, behind ++ right, ?_, hfront, ?_⟩ (tight_trim text)
  · rw [← List.append_assoc, ← htext]
  · exact fun c hc => (List.mem_append.mp hc).elim (hbehind c) (h c)

theorem trim_of_pads (h : Pads core text) (hcore : ∀ c ∈ core, isBlank c = false) :
    trim text = core :=
  trim_of_tight h (tight_of_forall hcore)

end Trim

end ChainWatch.Text
