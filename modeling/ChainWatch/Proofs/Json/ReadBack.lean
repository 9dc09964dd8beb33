import ChainWatch.Json.Parser
import ChainWatch.Json.Printer
import Mathlib.Algebra.Ring.Nat
import Mathlib.Data.List.Basic
import Mathlib.Data.List.TakeDrop

/-!
# Written values are read back

The compact text of a value is read as this value, whatever follows it, if the value nests no deeper
than allowed and its numbers are integers of 64 bits. There is no control character in such a text, so
it is one line.
-/

namespace ChainWatch.Json

open Text

/-! ## Strings -/

theorem hexQuad?_of_lt {n : Nat} (h : n < 32) (rest : List Char) :
    hexQuad? ('0' :: '0' :: digitChar (n / 16) :: digitChar (n % 16) :: rest) = some (n, rest) := by
  have zero : digitValue? '0' = some 0 := by decide
  have high := digitValue?_digitChar (n / 16) (by omega)
  have low := digitValue?_digitChar (n % 16) (by omega)
  have value : ofDigits 16 [0, 0, n / 16, n % 16] = n := by
    simp only [ofDigits, List.foldl_cons, List.foldl_nil]
    omega
  simp [hexQuad?, zero, high, low, value]

theorem stringBody?_backslash {budget : Nat} {c : Char} {text rest : List Char}
    (h : escaped? text = some (c, rest)) :
    stringBody? (budget + 1) ('\\' :: text) =
      (stringBody? budget rest).map fun (body, rest) => (c :: body, rest) := by
  cases hs : stringBody? budget rest <;> simp [stringBody?, h, hs]

/-- A control character without a short escape is escaped by its number. -/
theorem escaped?_of_lt {c : Char} (h : c.toNat < 32) (rest : List Char) :
    escaped? ('u' :: '0' :: '0' :: digitChar (c.toNat / 16) :: digitChar (c.toNat % 16) :: rest) =
      some (c, rest) := by
  have below : ¬ (0xD800 ≤ c.toNat ∧ c.toNat < 0xDC00) := by omega
  have beyond : ¬ (0xDC00 ≤ c.toNat ∧ c.toNat < 0xE000) := by omega
  simp [escaped?, hexQuad?_of_lt h, below, beyond]

theorem stringBody?_escape (budget : Nat) (c : Char) (rest : List Char) :
    stringBody? (budget + 1) (escape c ++ rest) =
      (stringBody? budget rest).map fun (body, rest) => (c :: body, rest) := by
  unfold escape
  split
  · exact stringBody?_backslash rfl
  · exact stringBody?_backslash rfl
  · exact stringBody?_backslash rfl
  · exact stringBody?_backslash rfl
  · exact stringBody?_backslash rfl
  · rename_i hquote hslash _ _ _
    split
    · rename_i h
      exact stringBody?_backslash (by rw [← Char.ofNat_toNat c, h]; rfl)
    · split
      · rename_i h
        exact stringBody?_backslash (by rw [← Char.ofNat_toNat c, h]; rfl)
      · split
        · rename_i h
          exact stringBody?_backslash (escaped?_of_lt h rest)
        · rename_i h
          cases hs : stringBody? budget rest <;> simp [stringBody?, h, hs]
/-- A written text is read up to its closing quote. -/
theorem stringBody?_escaped {budget : Nat} (body rest : List Char) (h : body.length < budget) :
    stringBody? budget (body.flatMap escape ++ '"' :: rest) = some (body, rest) := by
  induction body generalizing budget with
  | nil =>
      cases budget with
      | zero => simp at h
      | succ budget => rfl
  | cons c body ih =>
      cases budget with
      | zero => simp at h
      | succ budget =>
          rw [List.flatMap_cons, List.append_assoc, stringBody?_escape, ih (by simpa using h)]
          rfl

theorem length_le_flatMap_escape (body : List Char) : body.length ≤ (body.flatMap escape).length := by
  have longer (c : Char) : 1 ≤ (escape c).length := by
    unfold escape
    split
    all_goals first | decide | (split <;> [decide; (split <;> [decide; (split <;> simp)])])
  induction body with
  | nil => simp
  | cons c body ih =>
      have := longer c
      simp only [List.flatMap_cons, List.length_append, List.length_cons]
      omega

theorem string?_quoted {budget : Nat} (text : String) (rest : List Char)
    (h : text.toList.length < budget) :
    string? budget (text.toList.flatMap escape ++ '"' :: rest) = some (text, rest) := by
  simp [string?, stringBody?_escaped _ _ h]

/-! ## Numbers -/

theorem digitChar_eq_zero : ∀ d < 16, digitChar d = '0' → d = 0 := by decide

theorem isDigit_digitChar : ∀ d < 10, (digitChar d).isDigit = true := by decide

theorem isDigit_of_mem_decimal {n : Nat} {c : Char} (h : c ∈ decimal n) : c.isDigit = true := by
  obtain ⟨d, hd, rfl⟩ := List.mem_map.mp h
  exact isDigit_digitChar d (lt_of_mem_decimalDigits hd)

theorem valueOf_decimal (n : Nat) : valueOf (decimal n) = n := by
  have values : (decimal n).filterMap digitValue? = decimalDigits n := by
    rw [decimal, List.filterMap_map]
    refine (List.filterMap_congr fun d hd => ?_).trans List.filterMap_some
    exact digitValue?_digitChar d (Nat.lt_trans (lt_of_mem_decimalDigits hd) (by decide))
  rw [valueOf, values, ofDigits_decimalDigits]

/-- No zero stands in front of other digits. -/
theorem exists_decimalDigits_cons {n : Nat} (h : 0 < n) :
    ∃ d digits, decimalDigits n = d :: digits ∧ d ≠ 0 := by
  rw [decimalDigits]
  split
  · exact ⟨n, [], rfl, by omega⟩
  · obtain ⟨d, digits, hdigits, hd⟩ := exists_decimalDigits_cons (n := n / 10) (by omega)
    exact ⟨d, digits ++ [n % 10], by rw [hdigits, List.cons_append], hd⟩
termination_by n

theorem length_decimalDigits_le {n k : Nat} (h : n < 10 ^ (k + 1)) :
    (decimalDigits n).length ≤ k + 1 := by
  induction k generalizing n with
  | zero =>
      rw [decimalDigits, if_pos (by omega)]
      simp
  | succ k ih =>
      rw [decimalDigits]
      split
      · simp
      · have := ih (n := n / 10) (by rw [Nat.pow_succ] at h; omega)
        simp only [List.length_append, List.length_singleton]
        omega

/-- What follows a number without being a part of it. -/
def Delimits (rest : List Char) : Prop :=
  ∀ c ∈ rest.head?, c.isDigit = false ∧ c ≠ '.' ∧ c ≠ 'e' ∧ c ≠ 'E'

theorem delimits_nil : Delimits [] := nofun

theorem delimits_cons {c : Char} {rest : List Char}
    (h : c.isDigit = false ∧ c ≠ '.' ∧ c ≠ 'e' ∧ c ≠ 'E') : Delimits (c :: rest) := by
  intro d hd
  obtain rfl : c = d := by simpa using hd
  exact h

section Numbers

variable {rest : List Char} {n : Nat}

theorem digitRun_decimal (hr : Delimits rest) : digitRun (decimal n ++ rest) = (decimal n, rest) := by
  have stops : rest.takeWhile Char.isDigit = [] ∧ rest.dropWhile Char.isDigit = rest := by
    cases rest with
    | nil => exact ⟨rfl, rfl⟩
    | cons c rest => simp [(hr c rfl).1]
  have digits : ∀ c ∈ decimal n, c.isDigit = true := fun c h => isDigit_of_mem_decimal h
  rw [digitRun, List.span_eq_takeWhile_dropWhile, List.takeWhile_append_of_pos digits,
    List.dropWhile_append_of_pos digits, stops.1, stops.2, List.append_nil]

theorem wholePart?_decimal (hr : Delimits rest) :
    wholePart? (decimal n ++ rest) = some (decimal n, rest) := by
  unfold wholePart?
  rw [digitRun_decimal hr]
  rcases Nat.eq_zero_or_pos n with rfl | hn
  · have hzero : decimal 0 = ['0'] := by
      rw [decimal, decimalDigits]
      rfl
    rw [hzero]
    rfl
  · obtain ⟨d, digits, hdigits, hd⟩ := exists_decimalDigits_cons hn
    have hlead : digitChar d ≠ '0' := fun h => hd (digitChar_eq_zero d
      (Nat.lt_trans (lt_of_mem_decimalDigits (n := n) (by simp [hdigits])) (by decide)) h)
    rw [decimal, hdigits, List.map_cons]
    split <;> simp_all

theorem fractionPart?_of_delimits (hr : Delimits rest) : fractionPart? rest = some (none, rest) := by
  unfold fractionPart?
  split
  · exact ((hr _ rfl).2.1 rfl).elim
  · rfl

theorem exponentPart?_of_delimits (hr : Delimits rest) : exponentPart? rest = some (none, rest) := by
  cases rest with
  | nil => rfl
  | cons c rest =>
      obtain ⟨-, -, he, hE⟩ := hr c rfl
      simp [exponentPart?, he, hE]

theorem inRange_of_lt (h : n < UInt64.size) : inRange n 0 = true := by
  have short : (decimal n).length ≤ 20 := by
    rw [decimal, List.length_map]
    exact length_decimalDigits_le (Nat.lt_trans h (by decide))
  unfold inRange
  rw [if_pos (.inr (by simp; omega))]

theorem unsignedNumber?_decimal (negative : Bool) (h : n < UInt64.size) (hr : Delimits rest) :
    unsignedNumber? negative (decimal n ++ rest) = some (ofInteger negative n, rest) := by
  simp [unsignedNumber?, wholePart?_decimal hr, fractionPart?_of_delimits hr,
    exponentPart?_of_delimits hr, valueOf_decimal, inRange_of_lt h]

theorem exists_decimal_cons (n : Nat) :
    ∃ c text, decimal n = c :: text ∧ c.isDigit = true := by
  cases h : decimal n with
  | nil => exact (decimalDigits_ne_nil n (List.map_eq_nil_iff.mp h)).elim
  | cons c text => exact ⟨c, text, rfl, isDigit_of_mem_decimal (n := n) (by simp [h])⟩

/-- The integers that numbers stand for: those of 64 bits, with a sign or without. -/
def IsInteger (n : Int) : Prop :=
  Int64.minValue.toInt ≤ n ∧ n < UInt64.size

theorem number?_integerText {n : Int} (h : IsInteger n) (hr : Delimits rest) :
    number? (integerText n ++ rest) = some (.integer n, rest) := by
  obtain ⟨hlow, hhigh⟩ := h
  have hmin : Int64.minValue.toInt = -9223372036854775808 := by decide
  have hmax : Int64.maxValue.toInt = 9223372036854775807 := by decide
  have bounded : n.natAbs < UInt64.size := by
    simp only [UInt64.size] at *
    omega
  unfold integerText
  split
  · have hsigned : isSigned (-(n.natAbs : Int)) = true := by
      simp only [isSigned, Bool.and_eq_true, decide_eq_true_eq]
      omega
    have hnegative : -(n.natAbs : Int) = n := by omega
    show unsignedNumber? true (decimal n.natAbs ++ rest) = _
    rw [unsignedNumber?_decimal true bounded hr, ofInteger, if_pos rfl,
      if_pos ⟨by omega, hsigned⟩, hnegative]
  · have hpositive : (n.natAbs : Int) = n := by omega
    obtain ⟨c, text, hc, hdigit⟩ := exists_decimal_cons n.natAbs
    have hread : number? (decimal n.natAbs ++ rest) =
        unsignedNumber? false (decimal n.natAbs ++ rest) := by
      rw [hc, List.cons_append]
      unfold number?
      split
      · simp_all
      · rfl
    rw [hread, unsignedNumber?_decimal false bounded hr, ofInteger, if_neg nofun, if_pos bounded,
      hpositive]

end Numbers

/-! ## Values -/

/-- The value nests no deeper than so, and its numbers are integers. -/
inductive Fits : Nat → Json → Prop where
  | null {depth : Nat} : Fits depth .null
  | bool {depth : Nat} (value : Bool) : Fits depth (.bool value)
  | integer {depth : Nat} {n : Int} (h : IsInteger n) : Fits depth (.number (.integer n))
  | string {depth : Nat} (text : String) : Fits depth (.string text)
  | array {depth : Nat} {items : List Json} (h : ∀ item ∈ items, Fits depth item) :
    Fits (depth + 1) (.array items)
  | object {depth : Nat} {members : List (String × Json)} (h : ∀ m ∈ members, Fits depth m.2) :
    Fits (depth + 1) (.object members)

/-- With as much budget as its text is long, the value is read off the front of what holds it. -/
def ReadsBack (depth : Nat) (value : Json) : Prop :=
  ∀ (budget : Nat) (rest : List Char), value.render.length ≤ budget → Delimits rest →
    value? budget depth (value.render ++ rest) = some (value, rest)

variable {depth budget : Nat} {value : Json}

theorem ne_of_isDigit {c d : Char} (hc : c.isDigit = true) (hd : d.isDigit = false) : c ≠ d := by
  rintro rfl
  exact Bool.false_ne_true (hd.symm.trans hc)

theorem isBlank_of_isDigit {c : Char} (h : c.isDigit = true) : isBlank c = false := by
  simp [isBlank, ne_of_isDigit h]

theorem Fits.exists_render_cons (h : Fits depth value) :
    ∃ c text, value.render = c :: text ∧ isBlank c = false ∧ c ≠ ']' := by
  cases h with
  | null => exact ⟨_, _, rfl, by decide, by decide⟩
  | bool value => cases value <;> exact ⟨_, _, rfl, by decide, by decide⟩
  | string text => exact ⟨_, _, rfl, by decide, by decide⟩
  | array => exact ⟨_, _, rfl, by decide, by decide⟩
  | object => exact ⟨_, _, rfl, by decide, by decide⟩
  | @integer _ n _ =>
      obtain ⟨c, text, hc, hdigit⟩ := exists_decimal_cons n.natAbs
      simp only [render, numberText, integerText]
      split
      · exact ⟨_, _, rfl, by decide, by decide⟩
      · exact ⟨c, text, hc, isBlank_of_isDigit hdigit, ne_of_isDigit hdigit rfl⟩

/-- What begins with a digit is read as a number. -/
theorem value?_of_isDigit {c : Char} (text : List Char) (h : c.isDigit = true) :
    value? (budget + 1) depth (c :: text) =
      (number? (c :: text)).map fun (n, rest) => (.number n, rest) := by
  rw [value?, skipBlanks, List.dropWhile_cons_of_neg (by simp [isBlank_of_isDigit h])]
  split
  case h_8 => rfl
  case h_1 heq => cases heq
  all_goals
    rename_i heq
    exact (ne_of_isDigit h rfl (List.cons.inj heq).1).elim

theorem items?_render {items : List Json} (hne : items ≠ [])
    (h : ∀ item ∈ items, ReadsBack depth item) (hb : (renderItems items).length < budget)
    (rest : List Char) :
    items? budget depth (renderItems items ++ ']' :: rest) = some (items, rest) := by
  induction items generalizing budget with
  | nil => exact (hne rfl).elim
  | cons item items ih =>
      obtain ⟨hitem, hitems⟩ := List.forall_mem_cons.mp h
      cases budget with
      | zero => simp at hb
      | succ budget =>
          cases items with
          | nil =>
              simp only [renderItems] at hb ⊢
              rw [items?, hitem budget _ (by omega) (delimits_cons (by decide))]
              rfl
          | cons next items =>
              simp only [renderItems, List.length_append, List.length_cons] at hb
              simp only [renderItems, List.append_assoc, List.cons_append]
              rw [items?, hitem budget _ (by omega) (delimits_cons (by decide))]
              have hrest := ih nofun hitems (show (renderItems (next :: items)).length < budget by omega)
              simp [skipBlanks, isBlank, hrest]

/-- What begins behind a bracket with something else than a bracket is read as items. -/
theorem value?_of_items {c : Char} (text : List Char) (hvisible : isBlank c = false) (hopen : c ≠ ']') :
    value? (budget + 1) (depth + 1) ('[' :: c :: text) =
      (items? budget depth (c :: text)).map fun (items, rest) => (.array items, rest) := by
  have hskip : skipBlanks (c :: text) = c :: text :=
    List.dropWhile_cons_of_neg (by simp [hvisible])
  have hopened : skipBlanks ('[' :: c :: text) = '[' :: c :: text := rfl
  simp only [value?, hopened, hskip]
  split
  · rename_i heq
    exact (hopen (List.cons.inj heq).1).elim
  · rfl

theorem exists_renderItems_cons {item : Json} (h : Fits depth item) (items : List Json) :
    ∃ c text, renderItems (item :: items) = c :: text ∧ isBlank c = false ∧ c ≠ ']' := by
  obtain ⟨c, text, hc, hvisible⟩ := h.exists_render_cons
  cases items with
  | nil => exact ⟨c, text, hc, hvisible⟩
  | cons next items => exact ⟨c, _, by rw [renderItems, hc, List.cons_append], hvisible⟩

theorem exists_renderMembers_cons (member : String × Json) (members : List (String × Json)) :
    ∃ text, renderMembers (member :: members) = '"' :: text := by
  cases members <;> exact ⟨_, rfl⟩

theorem members?_render {members : List (String × Json)} (hne : members ≠ [])
    (h : ∀ m ∈ members, ReadsBack depth m.2) (hb : (renderMembers members).length < budget)
    (rest : List Char) :
    members? budget depth (renderMembers members ++ '\x7d' :: rest) = some (members, rest) := by
  induction members generalizing budget with
  | nil => exact (hne rfl).elim
  | cons member members ih =>
      obtain ⟨name, value⟩ := member
      obtain ⟨hvalue, hmembers⟩ : ReadsBack depth value ∧ ∀ m ∈ members, ReadsBack depth m.2 :=
        List.forall_mem_cons.mp h
      have hname := length_le_flatMap_escape name.toList
      cases budget with
      | zero => simp at hb
      | succ budget =>
          cases members with
          | nil =>
              simp only [renderMembers, quoted, List.length_append, List.length_cons] at hb
              have hread := hvalue budget ('\x7d' :: rest) (by omega) (delimits_cons (by decide))
              have hquoted := string?_quoted name (':' :: (value.render ++ '\x7d' :: rest))
                (show name.toList.length < budget by omega)
              simp [members?, renderMembers, quoted, skipBlanks, isBlank, hquoted, hread]
          | cons next members =>
              simp only [renderMembers, quoted, List.length_append, List.length_cons] at hb
              have hothers := ih nofun hmembers
                (show (renderMembers (next :: members)).length < budget by omega)
              have hread := hvalue budget (',' :: (renderMembers (next :: members) ++ '\x7d' :: rest))
                (by omega) (delimits_cons (by decide))
              have hquoted := string?_quoted name
                (':' :: (value.render ++ ',' :: (renderMembers (next :: members) ++ '\x7d' :: rest)))
                (show name.toList.length < budget by omega)
              simp [members?, renderMembers, quoted, skipBlanks, isBlank, hquoted, hread, hothers]

/-- Every text of a value has a first character, so the budget for it is not used up. -/
theorem readsBack_of_succ (h : Fits depth value) (hr : ∀ (budget : Nat) (rest : List Char),
    value.render.length ≤ budget + 1 → Delimits rest →
      value? (budget + 1) depth (value.render ++ rest) = some (value, rest)) :
    ReadsBack depth value := by
  intro budget rest hb hd
  cases budget with
  | zero =>
      obtain ⟨c, text, hc, -⟩ := h.exists_render_cons
      simp [hc] at hb
  | succ budget => exact hr budget rest hb hd

theorem readsBack_integer {n : Int} (hn : IsInteger n) :
    ReadsBack depth (.number (.integer n)) := by
  refine readsBack_of_succ (.integer hn) fun budget rest _ hd => ?_
  have hread := number?_integerText hn hd
  rw [render, numberText]
  by_cases hsign : n < 0
  · simp only [integerText, if_pos hsign, List.cons_append] at hread ⊢
    simp [value?, skipBlanks, isBlank, hread]
  · obtain ⟨c, text, hc, hdigit⟩ := exists_decimal_cons n.natAbs
    simp only [integerText, if_neg hsign, hc, List.cons_append] at hread ⊢
    rw [value?_of_isDigit _ hdigit, hread]
    rfl

/-- What fits is read back. -/
theorem readsBack_of_fits (h : Fits depth value) : ReadsBack depth value := by
  induction h with
  | null =>
      refine readsBack_of_succ .null fun budget rest _ _ => ?_
      simp [render, value?, skipBlanks, isBlank, expect?]
  | bool value =>
      refine readsBack_of_succ (.bool value) fun budget rest _ _ => ?_
      cases value <;> simp [render, value?, skipBlanks, isBlank, expect?]
  | integer hn => exact readsBack_integer hn
  | string text =>
      refine readsBack_of_succ (.string text) fun budget rest hb _ => ?_
      have hlength := length_le_flatMap_escape text.toList
      simp only [render, quoted, List.length_append, List.length_cons] at hb
      have hread := string?_quoted text rest (show text.toList.length < budget by omega)
      simp [render, quoted, value?, skipBlanks, isBlank, hread]
  | @array depth items hitems ih =>
      refine readsBack_of_succ (.array hitems) fun budget rest hb _ => ?_
      cases items with
      | nil => simp [render, renderItems, value?, skipBlanks, isBlank]
      | cons item items =>
          simp only [render, List.length_append, List.length_cons] at hb
          have hread := items?_render (List.cons_ne_nil item items) ih
            (show (renderItems (item :: items)).length < budget by omega) rest
          obtain ⟨c, text, hc, hvisible, hopen⟩ :=
            exists_renderItems_cons (hitems item (List.mem_cons_self ..)) items
          rw [hc, List.cons_append] at hread
          simp only [render, hc, List.cons_append, List.append_assoc, List.nil_append]
          rw [value?_of_items _ hvisible hopen, hread]
          rfl
  | @object depth members hmembers ih =>
      refine readsBack_of_succ (.object hmembers) fun budget rest hb _ => ?_
      cases members with
      | nil => simp [render, renderMembers, value?, skipBlanks, isBlank]
      | cons member members =>
          simp only [render, List.length_append, List.length_cons] at hb
          have hread := members?_render (List.cons_ne_nil member members) ih
            (show (renderMembers (member :: members)).length < budget by omega) rest
          obtain ⟨text, htext⟩ := exists_renderMembers_cons member members
          rw [htext, List.cons_append] at hread
          simp [render, htext, value?, skipBlanks, isBlank, hread]

/-- The text of a value that does not nest too deep is read as this value. -/
theorem parse?_text (h : Fits maxDepth value) : parse? value.text = some value := by
  have hread := readsBack_of_fits h (2 * value.render.length + 2) [] (by omega) delimits_nil
  rw [List.append_nil] at hread
  simp [parse?, text, hread, skipBlanks]

/-! ## One line -/

/-- There is no control character in the text. -/
def Printable (text : List Char) : Prop :=
  ∀ c ∈ text, 32 ≤ c.toNat

namespace Printable

variable {a b : List Char} {c d : Char}

theorem nil : Printable [] := nofun

theorem cons (hc : 32 ≤ c.toNat) (ha : Printable a) : Printable (c :: a) :=
  List.forall_mem_cons.mpr ⟨hc, ha⟩

theorem append (ha : Printable a) (hb : Printable b) : Printable (a ++ b) :=
  List.forall_mem_append.mpr ⟨ha, hb⟩

theorem pair (hc : 32 ≤ c.toNat) (hd : 32 ≤ d.toNat) : Printable [c, d] :=
  cons hc (cons hd nil)

theorem enclosed (hc : 32 ≤ c.toNat) (ha : Printable a) (hd : 32 ≤ d.toNat) :
    Printable (c :: a ++ [d]) :=
  (cons hc ha).append (cons hd nil)

theorem flatMap {A : Type} {f : A → List Char} {items : List A}
    (h : ∀ item ∈ items, Printable (f item)) : Printable (items.flatMap f) := fun c hc => by
  obtain ⟨item, hi, hc⟩ := List.mem_flatMap.mp hc
  exact h item hi c hc

end Printable

theorem printable_digitChar : ∀ d < 16, 32 ≤ (digitChar d).toNat := by decide

theorem printable_escape (c : Char) : Printable (escape c) := by
  have hhigh := printable_digitChar (c.toNat / 16)
  have hlow := printable_digitChar (c.toNat % 16) (Nat.mod_lt _ (by decide))
  have short (d : Char) (hd : 32 ≤ d.toNat) : Printable ['\\', d] := .pair (by decide) hd
  unfold escape
  split
  · exact short _ (by decide)
  · exact short _ (by decide)
  · exact short _ (by decide)
  · exact short _ (by decide)
  · exact short _ (by decide)
  · split
    · exact short _ (by decide)
    · split
      · exact short _ (by decide)
      · split
        · have hdigits : Printable [digitChar (c.toNat / 16), digitChar (c.toNat % 16)] :=
            .pair (hhigh (by omega)) hlow
          have hzeros : Printable ['0', '0'] := .pair (by decide) (by decide)
          exact (short 'u' (by decide)).append (hzeros.append hdigits)
        · exact .cons (by omega) .nil

theorem printable_quoted (text : String) : Printable (quoted text) :=
  .enclosed (by decide) (.flatMap fun c _ => printable_escape c) (by decide)

theorem printable_integerText (n : Int) : Printable (integerText n) := by
  have printable_decimal {n : Nat} : Printable (decimal n) := fun c h => by
    obtain ⟨d, hd, rfl⟩ := List.mem_map.mp h
    exact printable_digitChar d (Nat.lt_trans (lt_of_mem_decimalDigits hd) (by decide))
  unfold integerText
  split
  · exact printable_decimal.cons (by decide)
  · exact printable_decimal

theorem printable_renderItems {items : List Json} (h : ∀ item ∈ items, Printable item.render) :
    Printable (renderItems items) := by
  induction items with
  | nil => exact .nil
  | cons item items ih =>
      obtain ⟨hitem, hitems⟩ := List.forall_mem_cons.mp h
      cases items with
      | nil => exact hitem
      | cons next items => exact hitem.append ((ih hitems).cons (by decide))

theorem printable_renderMembers {members : List (String × Json)}
    (h : ∀ m ∈ members, Printable m.2.render) : Printable (renderMembers members) := by
  induction members with
  | nil => exact .nil
  | cons member members ih =>
      obtain ⟨name, value⟩ := member
      obtain ⟨hvalue, hmembers⟩ := List.forall_mem_cons.mp h
      have first : Printable (quoted name ++ ':' :: value.render) :=
        (printable_quoted name).append (hvalue.cons (by decide))
      cases members with
      | nil => exact first
      | cons next members => exact first.append ((ih hmembers).cons (by decide))

theorem printable_render (h : Fits depth value) : Printable value.render := by
  have word (text : String) (h : text.toList.all (32 ≤ ·.toNat) = true) : Printable text.toList :=
    fun c hc => of_decide_eq_true (List.all_eq_true.mp h c hc)
  induction h with
  | null => exact word "null" (by decide)
  | bool value =>
      cases value with
      | false => exact word "false" (by decide)
      | true => exact word "true" (by decide)
  | integer => exact printable_integerText _
  | string text => exact printable_quoted text
  | array _ ih => exact .enclosed (by decide) (printable_renderItems ih) (by decide)
  | object _ ih => exact .enclosed (by decide) (printable_renderMembers ih) (by decide)

end ChainWatch.Json
