import ChainWatch.Proofs.Text.Blank
import ChainWatch.Proofs.Text.Notation
import ChainWatch.Word.Text
import Mathlib.Data.List.Induction
import Mathlib.Tactic.IntervalCases

/-!
# Numerals

The texts that spell a number in a radix: its numeral with zeros in front, with underscores and with
letters of either case. A text of digits and underscores spells exactly one number unless it has no digit
(`number?_eq_some_iff`), and any other text is refused (`number?_eq_none_iff`). A word is read off the
digits behind the mark of a radix, and there is none for a number that is too great.
-/

namespace ChainWatch

namespace Text

/-- The text is the number's numeral, with zeros in front of it, underscores anywhere and letters of
either case. -/
def Spells (radix : Nat) (text : List Char) (n : Nat) : Prop :=
  ∃ zeros, (text.filter (· != '_')).map Char.toLower =
    List.replicate zeros '0' ++ Nat.toDigits radix n

/-- The character is a digit of the radix, in either case if it is a letter. -/
def IsDigitOf (radix : Nat) (c : Char) : Prop :=
  ∃ d < radix, c.toLower = Nat.digitChar d

instance (radix : Nat) (c : Char) : Decidable (IsDigitOf radix c) :=
  inferInstanceAs (Decidable (∃ d < radix, c.toLower = Nat.digitChar d))

/-! ## Digits -/

/-- The case of a letter does not count. -/
theorem digitValue?_toLower (c : Char) : digitValue? c.toLower = digitValue? c := by
  unfold Char.toLower
  split
  · rename_i hupper
    obtain ⟨hlow, hhigh⟩ := hupper
    rw [ge_iff_le, UInt32.le_iff_toNat_le] at hlow
    rw [UInt32.le_iff_toNat_le] at hhigh
    simp only [digitValue?, Char.le_def, UInt32.le_iff_toNat_le, Char.toNat, UInt32.toNat_add]
    simp at hlow hhigh ⊢
    have hlowered : (c.toNat + 32) % 4294967296 = c.toNat + 32 := by omega
    rw [hlowered]
    grind
  · rfl

theorem toLower_of_digitValue? {c : Char} {d : Nat} (h : digitValue? c = some d) :
    d < 16 ∧ c.toLower = Nat.digitChar d := by
  have hc : c = Char.ofNat c.toNat := by simp
  have range := range_of_digitValue? h
  generalize c.toNat = n at *
  subst hc
  obtain ⟨hlow, hhigh, rfl⟩ | ⟨hlow, hhigh, rfl⟩ | ⟨hlow, hhigh, rfl⟩ := range <;>
    interval_cases n <;> decide

theorem digitChar_eq_digitChar : ∀ d < 16, digitChar d = Nat.digitChar d := by
  decide

theorem digitValue?_of_toLower {c : Char} {d : Nat} (hd : d < 16) (h : c.toLower = Nat.digitChar d) :
    digitValue? c = some d := by
  rw [← digitValue?_toLower, h, ← digitChar_eq_digitChar d hd]
  exact digitValue?_digitChar d hd

theorem digitIn?_toLower (radix : Nat) (c : Char) : digitIn? radix c.toLower = digitIn? radix c := by
  rw [digitIn?, digitValue?_toLower, digitIn?]

section Radix

variable {radix : Nat} {text : List Char} {c : Char}

theorem digitIn?_eq_some_iff {d : Nat} (hr : radix ≤ 16) :
    digitIn? radix c = some d ↔ d < radix ∧ c.toLower = Nat.digitChar d := by
  rw [digitIn?, Option.filter_eq_some_iff, decide_eq_true_eq]
  constructor
  · rintro ⟨hvalue, hd⟩
    exact ⟨hd, (toLower_of_digitValue? hvalue).2⟩
  · rintro ⟨hd, hc⟩
    exact ⟨digitValue?_of_toLower (by omega) hc, hd⟩

theorem digitIn?_eq_none_iff (hr : radix ≤ 16) : digitIn? radix c = none ↔ ¬ IsDigitOf radix c := by
  rw [Option.eq_none_iff_forall_ne_some, IsDigitOf, not_exists]
  exact forall_congr' fun d => not_congr (digitIn?_eq_some_iff hr)

theorem isBlank_of_isDigitOf (hr : radix ≤ 16) (h : IsDigitOf radix c) : isBlank c = false := by
  obtain ⟨d, hd, hc⟩ := h
  have range := range_of_digitValue? (digitValue?_of_toLower (by omega) hc)
  simp [isBlank]
  omega

/-! ## Texts of digits -/

theorem digits?_cons (radix : Nat) (c : Char) (text : List Char) :
    digits? radix (c :: text) =
      (digitIn? radix c).bind fun d => (digits? radix text).map (d :: ·) := by
  rw [digits?, List.mapM_cons]
  cases digitIn? radix c <;> cases h : digits? radix text <;> simp_all [digits?]

theorem digits?_map_toLower (radix : Nat) (text : List Char) :
    digits? radix (text.map Char.toLower) = digits? radix text := by
  induction text with
  | nil => rfl
  | cons c text ih => rw [List.map_cons, digits?_cons, digits?_cons, digitIn?_toLower, ih]

theorem digits?_concat_eq_some_iff {digits : List Nat} :
    digits? radix (text ++ [c]) = some digits ↔
      ∃ front d, digits? radix text = some front ∧ digitIn? radix c = some d ∧ digits = front ++ [d] := by
  unfold digits?
  rw [List.mapM_append]
  cases List.mapM (digitIn? radix) text <;> cases h : digitIn? radix c <;> simp [h, eq_comm]

theorem digits?_eq_none_iff (hr : radix ≤ 16) :
    digits? radix text = none ↔ ∃ c ∈ text, ¬ IsDigitOf radix c := by
  induction text with
  | nil => simp [digits?]
  | cons c text ih =>
      rw [digits?_cons, List.exists_mem_cons_iff, ← digitIn?_eq_none_iff hr, ← ih]
      cases digitIn? radix c <;> simp

theorem digits?_replicate_zero (hr : 0 < radix) (zeros : Nat) :
    digits? radix (List.replicate zeros '0') = some (List.replicate zeros 0) := by
  have zero : digitIn? radix '0' = some 0 := by
    rw [digitIn?, show digitValue? '0' = some 0 from rfl]
    simp [hr]
  induction zeros with
  | zero => rfl
  | succ zeros ih => rw [List.replicate_succ, digits?_cons, zero, ih, List.replicate_succ]; rfl

theorem ofDigits_replicate_zero_append (radix zeros : Nat) (digits : List Nat) :
    ofDigits radix (List.replicate zeros 0 ++ digits) = ofDigits radix digits := by
  induction zeros with
  | zero => rfl
  | succ zeros ih =>
      rw [← ih, ofDigits, ofDigits, List.replicate_succ, List.cons_append, List.foldl_cons]
      simp

/-- The numeral of a number denotes it. -/
theorem exists_digits?_toDigits (hr : 1 < radix) (hr' : radix ≤ 16) (n : Nat) :
    ∃ digits, digits? radix (Nat.toDigits radix n) = some digits ∧ ofDigits radix digits = n := by
  have single {d : Nat} (hd : d < radix) : digits? radix [Nat.digitChar d] = some [d] := by
    have lower : ∀ d < 16, (Nat.digitChar d).toLower = Nat.digitChar d := by decide
    rw [digits?_cons, (digitIn?_eq_some_iff hr').mpr ⟨hd, lower d (by omega)⟩]
    rfl
  induction n using Nat.strong_induction_on with
  | _ n ih =>
      by_cases hn : n < radix
      · rw [Nat.toDigits_of_lt_base hn]
        exact ⟨[n], single hn, by simp [ofDigits]⟩
      · have hpos : 0 < n := by omega
        obtain ⟨digits, hdigits, hvalue⟩ := ih (n / radix) (Nat.div_lt_self hpos hr)
        rw [Nat.toDigits_of_base_le hr (by omega)]
        refine ⟨digits ++ [n % radix],
          digits?_append hdigits (single (Nat.mod_lt n (by omega))), ?_⟩
        rw [ofDigits_append_singleton, hvalue, Nat.mul_comm]
        exact Nat.div_add_mod n radix

/-- The digits of a text are the numeral of the number they denote, behind some zeros. -/
theorem exists_map_toLower_of_digits? (hr : 1 < radix) (hr' : radix ≤ 16) {digits : List Nat}
    (hne : text ≠ []) (h : digits? radix text = some digits) :
    ∃ zeros, text.map Char.toLower =
      List.replicate zeros '0' ++ Nat.toDigits radix (ofDigits radix digits) := by
  induction text using List.reverseRecOn generalizing digits with
  | nil => exact absurd rfl hne
  | append_singleton text c ih =>
      obtain ⟨front, d, hfront, hd, rfl⟩ := digits?_concat_eq_some_iff.mp h
      obtain ⟨hlt, hc⟩ := (digitIn?_eq_some_iff hr').mp hd
      rw [List.map_append, List.map_singleton, hc, ofDigits_append_singleton]
      by_cases hnil : text = []
      · subst hnil
        cases hfront
        exact ⟨0, by simp [ofDigits, Nat.toDigits_of_lt_base hlt]⟩
      · obtain ⟨zeros, hzeros⟩ := ih hnil hfront
        rw [hzeros]
        -- Only in front of a number other than zero does a further digit lengthen the numeral.
        rcases Nat.eq_zero_or_pos (ofDigits radix front) with hzero | hpos
        · refine ⟨zeros + 1, ?_⟩
          rw [hzero, Nat.zero_mul, Nat.zero_add, Nat.toDigits_of_lt_base hlt, Nat.toDigits_zero,
            List.replicate_succ']
        · refine ⟨zeros, ?_⟩
          rw [List.append_assoc, ← Nat.toDigits_of_lt_base hlt,
            Nat.toDigits_append_toDigits hr hpos hlt, Nat.mul_comm]

/-! ## Digits and underscores -/

/-- The number that digits between underscores denote; zero if there is no digit. -/
def number? (radix : Nat) (text : List Char) : Option Nat :=
  (digits? radix (text.filter (· != '_'))).map (ofDigits radix)

theorem number?_of_spells (hr : 1 < radix) (hr' : radix ≤ 16) {n : Nat} (h : Spells radix text n) :
    number? radix text = some n := by
  obtain ⟨zeros, hzeros⟩ := h
  obtain ⟨digits, hdigits, hvalue⟩ := exists_digits?_toDigits hr hr' n
  rw [number?, ← digits?_map_toLower, hzeros,
    digits?_append (digits?_replicate_zero (by omega) zeros) hdigits, Option.map_some,
    ofDigits_replicate_zero_append, hvalue]

theorem number?_eq_some_iff (hr : 1 < radix) (hr' : radix ≤ 16) {n : Nat} :
    number? radix text = some n ↔ Spells radix text n ∨ (∀ c ∈ text, c = '_') ∧ n = 0 := by
  have blank : text.filter (· != '_') = [] ↔ ∀ c ∈ text, c = '_' := by
    simp [List.filter_eq_nil_iff]
  constructor
  · intro h
    obtain ⟨digits, hdigits, rfl⟩ := Option.map_eq_some_iff.mp h
    by_cases hnil : text.filter (· != '_') = []
    · rw [hnil] at hdigits
      cases hdigits
      exact .inr ⟨blank.mp hnil, rfl⟩
    · exact .inl (exists_map_toLower_of_digits? hr hr' hnil hdigits)
  · rintro (hs | ⟨hall, rfl⟩)
    · exact number?_of_spells hr hr' hs
    · rw [number?, blank.mpr hall]
      rfl

theorem number?_eq_none_iff (hr : radix ≤ 16) :
    number? radix text = none ↔ ∃ c ∈ text, c ≠ '_' ∧ ¬ IsDigitOf radix c := by
  rw [number?, Option.map_eq_none_iff, digits?_eq_none_iff hr]
  simp [and_assoc]

/-- Nothing but digits and underscores spells a number. -/
theorem Spells.digit_of_mem (hr : 1 < radix) (hr' : radix ≤ 16) {n : Nat} (h : Spells radix text n)
    (hc : c ∈ text) : c = '_' ∨ IsDigitOf radix c := by
  by_contra hneither
  have hnone := (number?_eq_none_iff hr').mpr ⟨c, hc, not_or.mp hneither⟩
  rw [number?_of_spells hr hr' h] at hnone
  cases hnone

theorem Spells.isBlank_eq_false (hr : 1 < radix) (hr' : radix ≤ 16) {n : Nat}
    (h : Spells radix text n) (hc : c ∈ text) : isBlank c = false := by
  obtain rfl | hdigit := h.digit_of_mem hr hr' hc
  · rfl
  · exact isBlank_of_isDigitOf hr' hdigit

/-! ## Numerals as they are written -/

theorem exists_of_mem_toDigits (hr : 1 < radix) {n : Nat} (h : c ∈ Nat.toDigits radix n) :
    ∃ d < radix, c = Nat.digitChar d := by
  induction n using Nat.strong_induction_on with
  | _ n ih =>
      by_cases hn : n < radix
      · rw [Nat.toDigits_of_lt_base hn, List.mem_singleton] at h
        exact ⟨n, hn, h⟩
      · rw [Nat.toDigits_of_base_le hr (by omega), List.mem_append, List.mem_singleton] at h
        rcases h with h | rfl
        · exact ih (n / radix) (Nat.div_lt_self (by omega) hr) h
        · exact ⟨n % radix, Nat.mod_lt n (by omega), rfl⟩

theorem spells_toDigits (hr : 1 < radix) (hr' : radix ≤ 16) (n : Nat) :
    Spells radix (Nat.toDigits radix n) n := by
  have plain : ∀ d < 16, Nat.digitChar d ≠ '_' ∧ (Nat.digitChar d).toLower = Nat.digitChar d := by
    decide
  have each : ∀ c ∈ Nat.toDigits radix n, c ≠ '_' ∧ c.toLower = c := by
    intro c hc
    obtain ⟨d, hd, rfl⟩ := exists_of_mem_toDigits hr hc
    exact plain d (by omega)
  refine ⟨0, ?_⟩
  rw [List.filter_eq_self.mpr fun c hc => bne_iff_ne.mpr (each c hc).1,
    List.map_congr_left fun c hc => (each c hc).2]
  simp

theorem decimal_eq_toDigits (n : Nat) : decimal n = Nat.toDigits 10 n := by
  rw [decimal, decimalDigits]
  split
  · rename_i h
    rw [List.map_singleton, digitChar_eq_digitChar n (by omega), Nat.toDigits_of_lt_base h]
  · rw [List.map_append, ← decimal, decimal_eq_toDigits (n / 10), List.map_singleton,
      digitChar_eq_digitChar _ (by omega), ← Nat.toDigits_of_base_le (by decide) (by omega)]
termination_by n

theorem toLower_of_isDigitOf_ten (h : IsDigitOf 10 c) : c.toLower = c := by
  obtain ⟨d, hd, hc⟩ := h
  have range := range_of_digitValue? (digitValue?_of_toLower (by omega) hc)
  have hchar : c = Char.ofNat c.toNat := by simp
  have hbounds : 48 ≤ c.toNat ∧ c.toNat ≤ 57 := by omega
  clear hc range
  generalize c.toNat = n at *
  subst hchar
  obtain ⟨hlow, hhigh⟩ := hbounds
  interval_cases n <;> decide

/-- What is read in decimal notation is the numeral of a number, with zeros in front of it. -/
theorem decimal?_eq_some_iff {n : Nat} :
    decimal? text = some n ↔ ∃ zeros, text = List.replicate zeros '0' ++ Nat.toDigits 10 n := by
  constructor
  · intro h
    rw [decimal?] at h
    split at h
    · cases h
    · rename_i hne
      obtain ⟨digits, hdigits, rfl⟩ := Option.map_eq_some_iff.mp h
      have each : ∀ c ∈ text, IsDigitOf 10 c := by
        by_contra hother
        simp only [not_forall, exists_prop] at hother
        rw [(digits?_eq_none_iff (by decide)).mpr hother] at hdigits
        cases hdigits
      have same : text.map Char.toLower = text :=
        (List.map_congr_left fun c hc => toLower_of_isDigitOf_ten (each c hc)).trans (List.map_id text)
      obtain ⟨zeros, hzeros⟩ := exists_map_toLower_of_digits? (show 1 < 10 by decide)
        (show 10 ≤ 16 by decide) (by simpa using hne) hdigits
      exact ⟨zeros, same ▸ hzeros⟩
  · rintro ⟨zeros, rfl⟩
    obtain ⟨digits, hdigits, hvalue⟩ := exists_digits?_toDigits (show 1 < 10 by decide)
      (show 10 ≤ 16 by decide) n
    have hne : (List.replicate zeros '0' ++ Nat.toDigits 10 n).isEmpty = false := by
      simp [Nat.toDigits_ne_nil]
    rw [decimal?, hne, digits?_append (digits?_replicate_zero (by decide) zeros) hdigits]
    simp [ofDigits_replicate_zero_append, hvalue]

theorem hexadecimal_eq_toDigits (n : Nat) : hexadecimal n = Nat.toDigits 16 n := by
  rw [hexadecimal]
  split
  · rename_i h
    rw [digitChar_eq_digitChar n h, Nat.toDigits_of_lt_base h]
  · rw [hexadecimal_eq_toDigits (n / 16), digitChar_eq_digitChar _ (by omega),
      ← Nat.toDigits_of_base_le (by decide) (by omega)]
termination_by n

/-- Digits and underscores spell a number as soon as there is a digit. -/
theorem exists_spells (hr : 1 < radix) (hr' : radix ≤ 16)
    (hall : ∀ c ∈ text, c = '_' ∨ IsDigitOf radix c) (hsome : ∃ c ∈ text, c ≠ '_') :
    ∃ n, Spells radix text n := by
  cases h : number? radix text with
  | none =>
      obtain ⟨c, hc, hne, hdigit⟩ := (number?_eq_none_iff hr').mp h
      exact ((hall c hc).elim hne hdigit).elim
  | some n =>
      obtain ⟨c, hc, hne⟩ := hsome
      exact ⟨n, ((number?_eq_some_iff hr hr').mp h).resolve_right fun hnone => hne (hnone.1 c hc)⟩

end Radix

end Text

open Text

namespace Word

/-- The letters that mark a radix other than ten, behind a zero. -/
def marks : List (Nat × Char) :=
  [(16, 'x'), (16, 'X'), (8, 'o'), (8, 'O'), (2, 'b'), (2, 'B')]

/-- The text is digits of the radix behind its mark; without a mark the radix is ten. -/
inductive Marked : Nat → List Char → List Char → Prop
  | behind {radix : Nat} {mark : Char} (h : (radix, mark) ∈ marks) (digits : List Char) :
      Marked radix digits ('0' :: mark :: digits)
  | decimal {text : List Char}
      (h : ∀ mark digits, text = '0' :: mark :: digits → ∀ radix, (radix, mark) ∉ marks) :
      Marked 10 text text

section Marked

variable {radix n : Nat} {digits text : List Char}

theorem marked_radixMark (text : List Char) : Marked (radixMark text).1 (radixMark text).2 text := by
  unfold radixMark
  split
  case h_7 h₁ h₂ h₃ h₄ h₅ h₆ =>
    refine .decimal fun mark digits heq radix hmark => ?_
    simp only [marks, List.mem_cons, Prod.mk.injEq, List.not_mem_nil, or_false] at hmark
    rcases hmark with ⟨-, rfl⟩ | ⟨-, rfl⟩ | ⟨-, rfl⟩ | ⟨-, rfl⟩ | ⟨-, rfl⟩ | ⟨-, rfl⟩
    · exact h₁ digits heq
    · exact h₂ digits heq
    · exact h₃ digits heq
    · exact h₄ digits heq
    · exact h₅ digits heq
    · exact h₆ digits heq
  all_goals exact .behind (by simp [marks]) _

theorem Marked.radixMark_eq (h : Marked radix digits text) : radixMark text = (radix, digits) := by
  cases h with
  | behind h digits =>
      simp only [marks, List.mem_cons, Prod.mk.injEq, List.not_mem_nil, or_false] at h
      rcases h with ⟨rfl, rfl⟩ | ⟨rfl, rfl⟩ | ⟨rfl, rfl⟩ | ⟨rfl, rfl⟩ | ⟨rfl, rfl⟩ | ⟨rfl, rfl⟩ <;> rfl
  | decimal h =>
      unfold radixMark
      split
      case h_7 => rfl
      case h_1 | h_2 => exact absurd (by decide) (h _ _ rfl 16)
      case h_3 | h_4 => exact absurd (by decide) (h _ _ rfl 8)
      case h_5 | h_6 => exact absurd (by decide) (h _ _ rfl 2)

theorem Marked.radix_bounds (h : Marked radix digits text) : 1 < radix ∧ radix ≤ 16 := by
  have bounds : ∀ p ∈ marks, 1 < p.1 ∧ p.1 ≤ 16 := by decide
  cases h with
  | behind h digits => exact bounds _ h
  | decimal h => decide

/-- A mark brings no blanks along. -/
theorem Marked.isBlank_eq_false (h : Marked radix digits text)
    (hdigits : ∀ c ∈ digits, isBlank c = false) : ∀ c ∈ text, isBlank c = false := by
  have visible : ∀ p ∈ marks, isBlank p.2 = false := by decide
  cases h with
  | behind h digits =>
      have hmark := visible _ h
      rw [List.forall_mem_cons, List.forall_mem_cons]
      exact ⟨rfl, hmark, hdigits⟩
  | decimal h => exact hdigits

/-- Decimal digits are not taken for a mark. -/
theorem marked_of_spells (h : Spells 10 text n) : Marked 10 text text := by
  have letters : ∀ p ∈ marks, ¬ (p.2 = '_' ∨ IsDigitOf 10 p.2) := by decide
  refine .decimal fun mark digits heq radix hmark => letters _ hmark ?_
  exact h.digit_of_mem (by decide) (by decide) (by rw [heq]; simp)

theorem ofText?_of_marked (h : Marked radix digits text) :
    ofText? text = ((number? radix digits).filter (· < size)).map (BitVec.ofNat 256) := by
  rw [ofText?, ofTextBelow?, h.radixMark_eq]
  rfl

/-- A number that is too great is refused, not cut down. -/
theorem ofText?_of_spells (hm : Marked radix digits text) (hs : Spells radix digits n) :
    ofText? text = if n < 2 ^ 256 then some (BitVec.ofNat 256 n) else none := by
  have hsize : size = 2 ^ 256 := rfl
  obtain ⟨hr, hr'⟩ := hm.radix_bounds
  rw [ofText?_of_marked hm, number?_of_spells hr hr' hs, Option.filter_some, hsize]
  by_cases hn : n < 2 ^ 256
  · rw [if_pos (by simpa using hn), if_pos hn, Option.map_some]
  · rw [if_neg (by simpa using hn), if_neg hn, Option.map_none]

theorem ofText?_eq_some_iff {w : Word} : ofText? text = some w ↔
    ∃ radix digits, Marked radix digits text ∧
      (Spells radix digits w.toNat ∨ (∀ c ∈ digits, c = '_') ∧ w = 0) := by
  constructor
  · intro h
    have hm := marked_radixMark text
    obtain ⟨hr, hr'⟩ := hm.radix_bounds
    rw [ofText?_of_marked hm] at h
    obtain ⟨n, hn, rfl⟩ := Option.map_eq_some_iff.mp h
    obtain ⟨hnumber, hlt⟩ := Option.filter_eq_some_iff.mp hn
    have hvalue : (BitVec.ofNat 256 n).toNat = n :=
      BitVec.toNat_ofNat .. ▸ Nat.mod_eq_of_lt (of_decide_eq_true hlt)
    refine ⟨_, _, hm, ?_⟩
    rw [hvalue]
    exact ((number?_eq_some_iff hr hr').mp hnumber).imp_right fun h => ⟨h.1, by rw [h.2]; rfl⟩
  · rintro ⟨radix, digits, hm, hs | ⟨hall, rfl⟩⟩
    · rw [ofText?_of_spells hm hs, if_pos w.isLt, BitVec.ofNat_toNat, BitVec.setWidth_eq]
    · obtain ⟨hr, hr'⟩ := hm.radix_bounds
      rw [ofText?_of_marked hm, (number?_eq_some_iff hr hr').mpr (.inr ⟨hall, rfl⟩)]
      rfl

theorem ofText?_eq_none_of_not_digit {c : Char} (hm : Marked radix digits text) (hc : c ∈ digits)
    (hne : c ≠ '_') (hdigit : ¬ IsDigitOf radix c) : ofText? text = none := by
  rw [ofText?_of_marked hm, (number?_eq_none_iff hm.radix_bounds.2).mpr ⟨c, hc, hne, hdigit⟩]
  rfl

end Marked

end Word

end ChainWatch
