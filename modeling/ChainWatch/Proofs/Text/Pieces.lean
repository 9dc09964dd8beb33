import ChainWatch.Proofs.Text.Blank
import Mathlib.Data.List.Basic

/-!
# Texts in pieces

Cutting a text at a separator undoes joining it with the separator (`pieces_intercalate`,
`intercalate_pieces`). A text is made of lines if each but the last has an end behind it (`MadeOf`), and
a word stands in front of a text if nothing but blanks comes before it and only a separator ends it
(`Leads`), or at its end likewise (`Trails`).
-/

namespace ChainWatch.Text

/-! ## Separators -/

section Separator

variable {separator : Char} {text : List Char} {parts : List (List Char)}

theorem pieces_eq_splitOn (separator : Char) (text : List Char) :
    pieces separator text = text.splitOn separator := by
  induction text with
  | nil => rfl
  | cons c rest ih =>
      rw [pieces, List.splitOn_cons_eq_if_modifyHead, ih]
      by_cases hc : c = separator
      · rw [if_pos hc, if_pos (beq_iff_eq.mpr hc)]
      · rw [if_neg hc, if_neg (by simpa using hc)]
        cases hrest : rest.splitOn separator with
        | nil => exact absurd hrest (List.splitOn_ne_nil separator rest)
        | cons => rfl

theorem pieces_intercalate (hne : parts ≠ []) (h : ∀ part ∈ parts, separator ∉ part) :
    pieces separator ([separator].intercalate parts) = parts := by
  rw [pieces_eq_splitOn, List.splitOn_intercalate separator h hne]

theorem intercalate_pieces (separator : Char) (text : List Char) :
    [separator].intercalate (pieces separator text) = text := by
  rw [pieces_eq_splitOn, List.intercalate_splitOn]

theorem not_mem_of_mem_pieces {piece : List Char} (h : piece ∈ pieces separator text) :
    separator ∉ piece := by
  induction text generalizing piece with
  | nil => simp_all [pieces]
  | cons c rest ih =>
      rw [pieces] at h
      split at h
      · rcases List.mem_cons.mp h with rfl | h
        · exact List.not_mem_nil
        · exact ih h
      · rename_i hc
        split at h
        · rw [List.mem_singleton.mp h, List.mem_singleton]
          exact Ne.symm hc
        · rename_i first more hrest
          rw [hrest] at ih
          rcases List.mem_cons.mp h with rfl | h
          · exact List.not_mem_cons_of_ne_of_not_mem (Ne.symm hc) (ih List.mem_cons_self)
          · exact ih (List.mem_cons_of_mem _ h)

/-- The word stands in front of the text, blanks before it left aside: behind it the separator comes, or
nothing but blanks. -/
def Leads (separator : Char) (word text : List Char) : Prop :=
  ∃ blanks behind, text = blanks ++ word ++ behind ∧ (∀ c ∈ blanks, isBlank c = true) ∧
    ((∀ c ∈ behind, isBlank c = true) ∨ behind.head? = some separator)

/-- The word stands at the end of the text, blanks behind it left aside: before it the separator comes, or
nothing but blanks. -/
def Trails (separator : Char) (word text : List Char) : Prop :=
  ∃ front blanks, text = front ++ word ++ blanks ∧ (∀ c ∈ blanks, isBlank c = true) ∧
    ((∀ c ∈ front, isBlank c = true) ∨ front.getLast? = some separator)

theorem trails_iff_leads_reverse {word : List Char} :
    Trails separator word text ↔ Leads separator word.reverse text.reverse := by
  constructor
  · rintro ⟨front, blanks, rfl, hblanks, hfront⟩
    refine ⟨blanks.reverse, front.reverse, by simp, by simpa using hblanks, ?_⟩
    rw [List.head?_reverse]
    simpa using hfront
  · rintro ⟨blanks, behind, htext, hblanks, hbehind⟩
    refine ⟨behind.reverse, blanks.reverse, ?_, by simpa using hblanks, ?_⟩
    · rw [← List.reverse_inj, htext]
      simp
    · rw [List.getLast?_reverse]
      simpa using hbehind

theorem leads_before_trim (separator : Char) (text : List Char) :
    Leads separator (before separator (trim text)) text := by
  obtain ⟨left, right, htext, hleft, hright⟩ := pads_trim text
  refine ⟨left, (trim text).dropWhile (· != separator) ++ right, ?_, hleft, ?_⟩
  · rw [before, List.append_assoc, ← List.append_assoc (List.takeWhile _ _),
      List.takeWhile_append_dropWhile, ← List.append_assoc]
    exact htext
  · cases hdrop : (trim text).dropWhile (· != separator) with
    | nil => exact .inl hright
    | cons c rest =>
        have hc := List.head?_dropWhile_not (· != separator) (trim text)
        rw [hdrop] at hc
        exact .inr (by simpa using hc)

/-- Only one word without a blank and a separator stands in front of a text. -/
theorem before_trim_of_leads {word : List Char} (h : Leads separator word text) (hne : word ≠ [])
    (hword : ∀ c ∈ word, isBlank c = false ∧ c ≠ separator) (hs : isBlank separator = false) :
    before separator (trim text) = word := by
  obtain ⟨blanks, behind, rfl, hblanks, hbehind⟩ := h
  have visible : ∀ c ∈ word, isBlank c = false := fun c hc => (hword c hc).1
  have passed : ∀ c ∈ word, (c != separator) = true := fun c hc => bne_iff_ne.mpr (hword c hc).2
  have hdrop : (blanks ++ word ++ behind).dropWhile isBlank = word ++ behind := by
    rw [List.append_assoc, List.dropWhile_append_of_pos hblanks]
    cases word with
    | nil => exact absurd rfl hne
    | cons c rest => rw [List.cons_append, List.dropWhile_cons_of_neg (by simp [visible])]
  rw [trim, hdrop, trimEnd_append_of_forall_neg visible, before, List.takeWhile_append_of_pos passed]
  suffices (trimEnd isBlank behind).takeWhile (· != separator) = [] by
    rw [this, List.append_nil]
  rcases hbehind with hblank | hhead
  · rw [trimEnd_eq_nil_iff.mpr hblank]
    rfl
  · cases behind with
    | nil => cases hhead
    | cons c rest =>
        obtain rfl : c = separator := Option.some.inj hhead
        rw [trimEnd_cons_of_neg hs, List.takeWhile_cons_of_neg (by simp)]

theorem afterLast_trim (separator : Char) (text : List Char) :
    afterLast separator (trim text) = (before separator (trim text.reverse)).reverse := by
  rw [trim_reverse, before, afterLast]

theorem trails_afterLast_trim (separator : Char) (text : List Char) :
    Trails separator (afterLast separator (trim text)) text := by
  rw [trails_iff_leads_reverse, afterLast_trim, List.reverse_reverse]
  exact leads_before_trim separator text.reverse

theorem afterLast_trim_of_trails {word : List Char} (h : Trails separator word text) (hne : word ≠ [])
    (hword : ∀ c ∈ word, isBlank c = false ∧ c ≠ separator) (hs : isBlank separator = false) :
    afterLast separator (trim text) = word := by
  rw [afterLast_trim, before_trim_of_leads (trails_iff_leads_reverse.mp h) (by simpa using hne)
    (by simpa using hword) hs, List.reverse_reverse]

end Separator

/-! ## Lines -/

/-- The text is made of the lines: a line feed ends each of them, a carriage return may stand before it,
and the last may be without an end. -/
inductive MadeOf : List (List Char) → List Char → Prop
  | nil : MadeOf [] []
  | last (line : List Char) : MadeOf [line] line
  | feed {lines : List (List Char)} {text : List Char} (line : List Char) (h : MadeOf lines text) :
      MadeOf (line :: lines) (line ++ '\n' :: text)
  | returnFeed {lines : List (List Char)} {text : List Char} (line : List Char)
      (h : MadeOf lines text) : MadeOf (line :: lines) (line ++ '\r' :: '\n' :: text)

section Lines

variable {line text : List Char}

theorem lines_append_feed (h : '\n' ∉ line) :
    lines (line ++ '\n' :: text) = dropReturn line :: lines text := by
  have hne := pieces_ne_nil '\n' text
  have hall : pieces '\n' (line ++ '\n' :: text) = line :: pieces '\n' text := by
    rw [pieces_eq_splitOn, pieces_eq_splitOn, List.splitOn_append_cons_self_of_not_mem h]
  simp only [lines, hall, List.dropLast_cons_of_ne_nil hne, List.getLast?_cons_of_ne_nil hne,
    List.map_cons, List.cons_append]

theorem lines_of_not_mem (h : '\n' ∉ line) : lines line = if line = [] then [] else [line] := by
  have hall : pieces '\n' line = [line] := by
    rw [pieces_eq_splitOn, List.splitOn_eq_singleton h]
  cases line with
  | nil => rfl
  | cons c rest => simp [lines, hall]

theorem dropReturn_concat (line : List Char) : dropReturn (line ++ ['\r']) = line := by
  rw [dropReturn, if_pos List.getLast?_concat, List.dropLast_concat]

/-- The line is the one without a carriage return at its end, perhaps with it. -/
theorem eq_or_eq_dropReturn (line : List Char) :
    line = dropReturn line ∨ line = dropReturn line ++ ['\r'] := by
  rw [dropReturn]
  split
  · rename_i h
    exact .inr (List.dropLast_append_getLast? '\r' h).symm
  · exact .inl rfl

end Lines

end ChainWatch.Text
