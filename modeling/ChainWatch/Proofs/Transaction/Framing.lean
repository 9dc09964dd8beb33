import ChainWatch.Bytes

/-!
# Lines of a file

A file that is only ever appended to consists of lines which have come to their end and of what was
written after the last of these ends. Appending leaves the former as they are and goes on with the latter
(`Lines.of_append`).
-/

namespace ChainWatch

/-- The lines of a file that have come to their end, without these ends, and what stands behind them. -/
structure Lines where
  complete : List Bytes
  rest : Bytes
  deriving DecidableEq, Repr

namespace Lines

/-- The byte that ends a line. -/
def lineEnd : UInt8 := 10

/-- Put a byte in front of what was read. -/
def put (b : UInt8) (read : Lines) : Lines :=
  if b = lineEnd then { read with complete := [] :: read.complete }
  else match read.complete with
    | [] => { read with rest := b :: read.rest }
    | line :: lines => { read with complete := (b :: line) :: lines }

def of : Bytes → Lines
  | [] => ⟨[], []⟩
  | b :: bytes => put b (of bytes)

variable {line : Bytes} {lines : List Bytes}

/-- Nothing is lost or added by reading. -/
theorem flatMap_of (bytes : Bytes) :
    (of bytes).complete.flatMap (· ++ [lineEnd]) ++ (of bytes).rest = bytes := by
  induction bytes with
  | nil => rfl
  | cons b bytes ih =>
      rw [of, put]
      split
      · rename_i hb
        simp [hb, ih]
      · split
        · rename_i hnil
          simpa [hnil] using ih
        · rename_i hcons
          simpa [hcons] using ih

example : of [97, 98, 10, 10, 99] = ⟨[[97, 98], []], [99]⟩ := by decide

theorem lineEnd_not_mem_rest (bytes : Bytes) : lineEnd ∉ (of bytes).rest := by
  induction bytes with
  | nil => exact List.not_mem_nil
  | cons b bytes ih =>
      rw [of, put]
      split
      · exact ih
      · split
        · exact List.not_mem_cons_of_ne_of_not_mem (Ne.symm ‹_›) ih
        · exact ih

/-- What is appended goes on with what had not come to its end; all other lines stay. -/
theorem of_append (bytes more : Bytes) : of (bytes ++ more) =
    ⟨(of bytes).complete ++ (of ((of bytes).rest ++ more)).complete,
      (of ((of bytes).rest ++ more)).rest⟩ := by
  induction bytes with
  | nil => rfl
  | cons b bytes ih =>
      rw [List.cons_append, of, ih, of]
      generalize of bytes = read
      obtain ⟨complete, rest⟩ := read
      by_cases hb : b = lineEnd
      · simp [put, hb]
      · cases complete with
        | nil => simp [put, hb, of]
        | cons => simp [put, hb]

theorem of_line (h : lineEnd ∉ line) : of (line ++ [lineEnd]) = ⟨[line], []⟩ := by
  induction line with
  | nil => rfl
  | cons b line ih =>
      have hb : b ≠ lineEnd := (List.ne_of_not_mem_cons h).symm
      rw [List.cons_append, of, ih (List.not_mem_of_not_mem_cons h), put, if_neg hb]

/-- What is read when lines are appended, each with its end: the first of them goes on with what had not
come to its end. -/
def extended (read : Lines) : List Bytes → Lines
  | [] => read
  | line :: lines => ⟨read.complete ++ (read.rest ++ line) :: lines, []⟩

@[simp] theorem extended_empty (lines : List Bytes) : extended ⟨[], []⟩ lines = ⟨lines, []⟩ := by
  cases lines <;> rfl

theorem of_append_flatMap (bytes : Bytes) (h : ∀ line ∈ lines, lineEnd ∉ line) :
    of (bytes ++ lines.flatMap (· ++ [lineEnd])) = (of bytes).extended lines := by
  induction lines generalizing bytes with
  | nil => simp [extended]
  | cons line lines ih =>
      obtain ⟨hline, hlines⟩ := List.forall_mem_cons.mp h
      have hfirst : of (bytes ++ (line ++ [lineEnd])) =
          ⟨(of bytes).complete ++ [(of bytes).rest ++ line], []⟩ := by
        rw [of_append, ← List.append_assoc (of bytes).rest]
        rw [of_line (by simp [lineEnd_not_mem_rest, hline])]
      rw [List.flatMap_cons, ← List.append_assoc, ih _ hlines, hfirst]
      cases lines <;> simp [extended]

/-- Whether something had not come to its end decides whether the lines that are appended are lines of
their own. -/
theorem sublist_extended_iff (read : Lines) (lines : List Bytes) :
    (∃ added, (read.extended lines).complete = read.complete ++ added ∧ lines.Sublist added) ↔
      lines = [] ∨ read.rest = [] := by
  cases lines with
  | nil => simp [extended]
  | cons line lines =>
      constructor
      · rintro ⟨added, hcomplete, hsub⟩
        have hadded : (read.rest ++ line) :: lines = added := List.append_cancel_left hcomplete
        have heq : line :: lines = (read.rest ++ line) :: lines :=
          (hadded ▸ hsub).eq_of_length rfl
        exact .inr (by simpa using (List.cons.inj heq).1)
      · rintro (h | h)
        · cases h
        · exact ⟨line :: lines, by simp [extended, h], .refl _⟩

end Lines

end ChainWatch
