import ChainWatch.Proofs.Fleet.Start
import ChainWatch.Proofs.Text.Numeral
import ChainWatch.Rule.Engine

/-!
# Thresholds as they are given

A threshold is given as an integer of 64 bits or as a text. Blanks around the text do not count; what is
left is digits behind the mark of their radix, with underscores, and denotes a number below `2 ^ 256`
(`ThresholdSpec.Denotes`). A text without a digit denotes none, and passes as well: it stands for zero, so
that a threshold that was left blank is not noticed.
-/

namespace ChainWatch

open Json Text Word

namespace ThresholdSpec

/-! ## Values that give a threshold -/

/-- The value is a number that fits, as an integer or as the digits of a text. -/
inductive Denotes : Json → Word → Prop
  | integer {n : Nat} (h : n < 2 ^ 64) : Denotes (.number (.integer n)) (BitVec.ofNat 256 n)
  | numeral {text : String} {core digits : List Char} {radix n : Nat} (hp : Pads core text.toList)
      (hm : Marked radix digits core) (hs : Spells radix digits n) (h : n < 2 ^ 256) :
      Denotes (.string text) (BitVec.ofNat 256 n)

/-- The value is a text with underscores alone, or nothing at all, behind the mark of a radix. -/
def Digitless (value : Json) : Prop :=
  ∃ (text : String) (core : List Char) (radix : Nat) (digits : List Char), value = .string text ∧
    Pads core text.toList ∧ Marked radix digits core ∧ ∀ c ∈ digits, c = '_'

/-- The value gives this threshold. -/
def Gives (value : Json) (w : Word) : Prop :=
  Denotes value w ∨ Digitless value ∧ w = 0

variable {value : Json} {text : String} {w : Word}

theorem threshold?_integer (i : Int) : threshold? (.number (.integer i)) =
    if 0 ≤ i ∧ i < 2 ^ 64 then some (BitVec.ofNat 256 i.toNat) else none := by
  have hsize : ((UInt64.size : Nat) : Int) = 2 ^ 64 := rfl
  rw [threshold?, asUInt64, asNatBelow, hsize]
  · split <;> rfl
  · exact nofun

theorem isBlank_of_underscores {core digits : List Char} {radix : Nat} (hm : Marked radix digits core)
    (hall : ∀ c ∈ digits, c = '_') : ∀ c ∈ core, Text.isBlank c = false :=
  hm.isBlank_eq_false fun c hc => by
    rw [hall c hc]
    rfl

theorem threshold?_string_eq_some_iff : threshold? (.string text) = some w ↔
    ∃ core radix digits, Pads core text.toList ∧ Marked radix digits core ∧
      (Spells radix digits w.toNat ∨ (∀ c ∈ digits, c = '_') ∧ w = 0) := by
  rw [threshold?, ofText?_eq_some_iff]
  constructor
  · rintro ⟨radix, digits, hm, h⟩
    exact ⟨_, radix, digits, pads_trim _, hm, h⟩
  · rintro ⟨core, radix, digits, hp, hm, h⟩
    obtain ⟨hr, hr'⟩ := hm.radix_bounds
    have visible : ∀ c ∈ core, Text.isBlank c = false := by
      obtain hs | ⟨hall, -⟩ := h
      · exact hm.isBlank_eq_false fun c hc => hs.isBlank_eq_false hr hr' hc
      · exact isBlank_of_underscores hm hall
    rw [trim_of_pads hp visible]
    exact ⟨radix, digits, hm, h⟩

theorem threshold?_eq_some_iff : threshold? value = some w ↔ Gives value w := by
  constructor
  · intro h
    match value with
    | .number (.integer i) =>
        rw [threshold?_integer] at h
        obtain ⟨⟨hpos, hlt⟩, heq⟩ := Option.ite_none_right_eq_some.mp h
        obtain ⟨n, rfl⟩ := Int.eq_ofNat_of_zero_le hpos
        cases heq
        exact .inl (.integer (by omega))
    | .string text =>
        obtain ⟨core, radix, digits, hp, hm, hs | ⟨hall, hw⟩⟩ := threshold?_string_eq_some_iff.mp h
        · have hd := Denotes.numeral hp hm hs w.isLt
          rw [BitVec.ofNat_toNat, BitVec.setWidth_eq] at hd
          exact .inl hd
        · exact .inr ⟨⟨text, core, radix, digits, rfl, hp, hm, hall⟩, hw⟩
    | .null | .bool _ | .number (.fraction _) | .number .notFinite | .array _ | .object _ =>
        cases h
  · rintro (h | ⟨⟨text, core, radix, digits, rfl, hp, hm, hall⟩, hw⟩)
    · cases h with
      | @integer n h =>
          rw [threshold?_integer, if_pos ⟨Int.natCast_nonneg n, by exact_mod_cast h⟩,
            Int.toNat_natCast]
      | @numeral text core digits radix n hp hm hs h =>
          have hvalue : (BitVec.ofNat 256 n).toNat = n :=
            (BitVec.toNat_ofNat ..).trans (Nat.mod_eq_of_lt h)
          exact threshold?_string_eq_some_iff.mpr
            ⟨core, radix, digits, hp, hm, .inl (by rwa [hvalue])⟩
    · exact threshold?_string_eq_some_iff.mpr ⟨core, radix, digits, hp, hm, .inr ⟨hall, hw⟩⟩

/-- A text without a digit denotes no number. -/
theorem Digitless.not_denotes (h : Digitless value) (w : Word) : ¬ Denotes value w := by
  obtain ⟨text, core, radix, digits, rfl, hp, hm, hall⟩ := h
  intro hd
  cases hd with
  | @numeral _ core' digits' radix' n hp' hm' hs' h' =>
      obtain ⟨hr, hr'⟩ := hm'.radix_bounds
      have visible : ∀ c ∈ core', Text.isBlank c = false :=
        hm'.isBlank_eq_false fun c hc => hs'.isBlank_eq_false hr hr' hc
      obtain rfl : core = core' := (trim_of_pads hp (isBlank_of_underscores hm hall)).symm.trans
        (trim_of_pads hp' visible)
      obtain ⟨-, rfl⟩ := Prod.mk.inj (hm.radixMark_eq.symm.trans hm'.radixMark_eq)
      obtain ⟨zeros, hs'⟩ := hs'
      have none : digits.filter (· != '_') = [] := by
        rw [List.filter_eq_nil_iff]
        exact fun c hc => by simp [hall c hc]
      rw [none] at hs'
      simp [Nat.toDigits_ne_nil] at hs'

/-! ## Rules with a threshold -/

/-- The parameters give the threshold as this value. -/
def HasThreshold (params value : Json) : Prop :=
  ∃ fields, fields? .exact fieldNames params = some fields ∧ fields[2]? = some (some value)

theorem threshold?_of_ofJson? {params : Json} {spec : ThresholdSpec}
    (hs : ofJson? params = some spec) (hv : HasThreshold params value) :
    threshold? value = some spec.threshold := by
  obtain ⟨fields, hfields, hthird⟩ := hv
  rw [ofJson?, hfields, Option.bind_eq_bind, Option.bind_some] at hs
  split at hs
  · rename_i contract method threshold direction target action
    obtain rfl : threshold = some value := by simpa using hthird
    simp only [Option.bind_eq_bind, Option.bind_eq_some_iff] at hs
    obtain ⟨_, -, _, -, w, hw, _, -, _, -, _, -, heq⟩ := hs
    cases heq
    exact hw
  · cases hs

theorem standard_of_kind {context : RuleContext} {limit : Nat} {entry : RuleEntry}
    (h : entry.kind = "view_threshold") : RuleFactory.standard context limit entry =
      (ofJson? entry.params).elim (.error (.invalidParams entry.label)) fun spec =>
        .ok (spec.rule entry.stamp context) := by
  rw [RuleFactory.standard, show RuleKind.ofName? entry.kind = some .viewThreshold by rw [h]; rfl]
  cases ofJson? entry.params <;> rfl

/-- A value that is no text without digits passes as a threshold exactly if it denotes a number that
fits; a text without digits denotes none and passes as zero. A rule watches for the threshold that its
parameters give, or cannot be built. -/
theorem thresholds_are_given (value : Json) (context : RuleContext) (limit : Nat) (entry : RuleEntry) :
    (¬ Digitless value → ∀ w, threshold? value = some w ↔ Denotes value w) ∧
      (Digitless value → threshold? value = some 0 ∧ ∀ w, ¬ Denotes value w) ∧
      (entry.kind = "view_threshold" → HasThreshold entry.params value →
        (∀ rule, RuleFactory.standard context limit entry = .ok rule → ∃ spec,
          ofJson? entry.params = some spec ∧ Gives value spec.threshold ∧
            rule = spec.rule entry.stamp context) ∧
        ((∀ w, ¬ Gives value w) →
          RuleFactory.standard context limit entry = .error (.invalidParams entry.label))) := by
  refine ⟨fun hd w => ?_, fun hd => ⟨threshold?_eq_some_iff.mpr (.inr ⟨hd, rfl⟩), hd.not_denotes⟩,
    fun hkind hv => ?_⟩
  · rw [threshold?_eq_some_iff, Gives, or_iff_left fun h => hd h.1]
  rw [standard_of_kind hkind]
  cases hs : ofJson? entry.params with
  | none => exact ⟨nofun, fun _ => rfl⟩
  | some spec =>
      have gives : Gives value spec.threshold := threshold?_eq_some_iff.mp (threshold?_of_ofJson? hs hv)
      refine ⟨fun rule hrule => ⟨spec, rfl, gives, (Except.ok.inj hrule).symm⟩, fun none => ?_⟩
      exact (none _ gives).elim

/-- A rule with this threshold. -/
def levelAt (threshold : Json) : RuleEntry where
  kind := "view_threshold"
  label := "level"
  urgency := .medium
  executor := ""
  ttlSeconds := RuleEntry.defaultTtl
  params := .array [.string "0x0000000000000000000000000000000000000000", .string "level", threshold,
    .string "above", .null, .string "act"]

theorem hasThreshold_levelAt (value : Json) : HasThreshold (levelAt value).params value :=
  ⟨_, rfl, rfl⟩

theorem digitless_mark : Digitless (.string "0x") :=
  ⟨"0x", ['0', 'x'], 16, [], rfl, ⟨[], [], by decide +kernel, by simp, by simp⟩,
    .behind (by decide) [], by simp⟩

theorem thresholds_are_given_marked :
    (∃ spec : ThresholdSpec, RuleFactory.standard ⟨.solo, .absent⟩ 8 (levelAt (.string " 0xF_f\n")) =
        .ok (spec.rule (levelAt .null).stamp ⟨.solo, .absent⟩) ∧ spec.threshold = 255) ∧
      RuleFactory.standard ⟨.solo, .absent⟩ 8 (levelAt (.string "0b12")) =
        .error (.invalidParams "level") ∧
      threshold? (.number (.integer 7)) = some 7 ∧ threshold? (.string "0x") = some 0 := by
  have given : threshold? (.string " 0xF_f\n") = some 255 := by decide +kernel
  have refused : threshold? (.string "0b12") = none := by decide +kernel
  refine ⟨?_, ?_, ?_, ?_⟩
  · obtain ⟨-, -, rules⟩ := thresholds_are_given (.string " 0xF_f\n") ⟨.solo, .absent⟩ 8
      (levelAt (.string " 0xF_f\n"))
    have built : (ofJson? (levelAt (.string " 0xF_f\n")).params).isSome := by decide +kernel
    obtain ⟨spec, hspec⟩ := Option.isSome_iff_exists.mp built
    have hrule : RuleFactory.standard ⟨.solo, .absent⟩ 8 (levelAt (.string " 0xF_f\n")) =
        .ok (spec.rule (levelAt .null).stamp ⟨.solo, .absent⟩) := by
      rw [standard_of_kind rfl, hspec]
      rfl
    obtain ⟨spec', hspec', gives, -⟩ := (rules rfl (hasThreshold_levelAt _)).1 _ hrule
    obtain rfl : spec = spec' := Option.some.inj (hspec.symm.trans hspec')
    exact ⟨spec, hrule, Option.some.inj ((threshold?_eq_some_iff.mpr gives).symm.trans given)⟩
  · obtain ⟨-, -, rules⟩ := thresholds_are_given (.string "0b12") ⟨.solo, .absent⟩ 8
      (levelAt (.string "0b12"))
    refine (rules rfl (hasThreshold_levelAt _)).2 fun w gives => ?_
    rw [threshold?_eq_some_iff.mpr gives] at refused
    cases refused
  · have number : ¬ Digitless (.number (.integer 7)) := nofun
    exact ((thresholds_are_given _ ⟨.solo, .absent⟩ 8 (levelAt .null)).1 number 7).mpr
      (.integer (by decide))
  · exact ((thresholds_are_given _ ⟨.solo, .absent⟩ 8 (levelAt .null)).2.1 digitless_mark).1

/-- A text without any digit is no numeral, and yet it gives the threshold zero. -/
theorem passes_without_digit :
    threshold? (.string "") = some 0 ∧ threshold? (.string "  ") = some 0 ∧
      threshold? (.string "__") = some 0 ∧ threshold? (.string "0x") = some 0 ∧
      ¬ ∀ value w, threshold? value = some w → Denotes value w := by
  have marked : threshold? (.string "0x") = some 0 := by decide +kernel
  refine ⟨by decide +kernel, by decide +kernel, by decide +kernel, marked, fun numerals => ?_⟩
  exact digitless_mark.not_denotes 0 (numerals _ _ marked)

/-! ## Ways to write a number -/

/-- The value notates the number: as an integer, in decimal notation or in hexadecimal notation. -/
inductive Notates (n : Nat) : Json → Prop
  | integer (h : n < 2 ^ 64) : Notates n (.number (.integer n))
  | decimal {text : String} {body : List Char} (hp : Pads body text.toList) (hs : Spells 10 body n) :
      Notates n (.string text)
  | hexadecimal {text : String} {mark : Char} {body : List Char}
      (hp : Pads ('0' :: mark :: body) text.toList) (hm : mark = 'x' ∨ mark = 'X')
      (hs : Spells 16 body n) : Notates n (.string text)

theorem threshold?_of_spells {core digits : List Char} {radix n : Nat} (hp : Pads core text.toList)
    (hm : Marked radix digits core) (hs : Spells radix digits n) :
    threshold? (.string text) = if n < 2 ^ 256 then some (BitVec.ofNat 256 n) else none := by
  obtain ⟨hr, hr'⟩ := hm.radix_bounds
  have visible : ∀ c ∈ core, Text.isBlank c = false :=
    hm.isBlank_eq_false fun c hc => hs.isBlank_eq_false hr hr' hc
  rw [threshold?, trim_of_pads hp visible, ofText?_of_spells hm hs]

theorem threshold?_of_notates {n : Nat} (h : Notates n value) :
    threshold? value = if n < 2 ^ 256 then some (BitVec.ofNat 256 n) else none := by
  cases h with
  | integer h =>
      rw [threshold?_integer, if_pos ⟨Int.natCast_nonneg n, by exact_mod_cast h⟩, Int.toNat_natCast,
        if_pos (by omega)]
  | decimal hp hs => exact threshold?_of_spells hp (marked_of_spells hs) hs
  | @hexadecimal text mark body hp hm hs =>
      refine threshold?_of_spells hp (.behind ?_ body) hs
      rcases hm with rfl | rfl <;> decide

theorem notates_decimal (w : Word) : Notates w.toNat (.string w.decimal) := by
  refine .decimal (pads_self _) ?_
  rw [Word.decimal, String.toList_ofList, decimal_eq_toDigits]
  exact spells_toDigits (by decide) (by decide) _

theorem notates_quantity (w : Word) : Notates w.toNat (.string (quantity w.toNat)) := by
  refine @Notates.hexadecimal _ _ 'x' (hexadecimal w.toNat) ?_ (.inl rfl) ?_
  · rw [quantity, String.toList_ofList]
    exact pads_self _
  · rw [hexadecimal_eq_toDigits]
    exact spells_toDigits (by decide) (by decide) _

/-- All notations of a number are read alike, and none for a number that is too great for a word. The
program's own two notations are among them, and any text of digits that has a digit is one. A text with
another character is refused. -/
theorem notations_agree :
    (∀ n value, Notates n value →
      threshold? value = if n < 2 ^ 256 then some (BitVec.ofNat 256 n) else none) ∧
    (∀ w : Word, Notates w.toNat (.string w.decimal) ∧
      Notates w.toNat (.string (quantity w.toNat))) ∧
    (∀ radix ∈ [10, 16], ∀ text : List Char, (∀ c ∈ text, c = '_' ∨ IsDigitOf radix c) →
      (∃ c ∈ text, c ≠ '_') → ∃ n, Spells radix text n) ∧
    ∀ (text : String) radix digits, Marked radix digits (trim text.toList) → ∀ c ∈ digits, c ≠ '_' →
      ¬ IsDigitOf radix c → threshold? (.string text) = none := by
  refine ⟨fun n value => threshold?_of_notates, fun w => ⟨notates_decimal w, notates_quantity w⟩,
    fun radix hradix text hall hsome => ?_, fun text radix digits hm c hc hne hdigit => ?_⟩
  · have bounds : ∀ radix ∈ [10, 16], 1 < radix ∧ radix ≤ 16 := by decide
    obtain ⟨hr, hr'⟩ := bounds radix hradix
    exact exists_spells hr hr' hall hsome
  · exact ofText?_eq_none_of_not_digit hm hc hne hdigit

/-- The last number that fits and the first that does not, a hexadecimal text with all that may be
around its digits, and a text with a blank between digits. -/
theorem notations_agree_at_bound :
    threshold? (.string (String.ofList (Nat.toDigits 10 (2 ^ 256 - 1)))) =
        some (BitVec.ofNat 256 (2 ^ 256 - 1)) ∧
      threshold? (.string (String.ofList (Nat.toDigits 10 (2 ^ 256)))) = none ∧
      threshold? (.string "\t0X00_fF ") = some 255 ∧ threshold? (.string "12 34") = none := by
  obtain ⟨reads, -, -, refuses⟩ := notations_agree
  have written (n : Nat) : Notates n (.string (String.ofList (Nat.toDigits 10 n))) := by
    refine @Notates.decimal _ _ (Nat.toDigits 10 n) ?_ (spells_toDigits (by decide) (by decide) n)
    rw [String.toList_ofList]
    exact pads_self _
  have spelled : Notates 255 (.string "\t0X00_fF ") :=
    @Notates.hexadecimal _ _ 'X' ['0', '0', '_', 'f', 'F'] ⟨['\t'], [' '], by decide +kernel,
      List.forall_mem_singleton.mpr rfl, List.forall_mem_singleton.mpr rfl⟩ (.inr rfl)
      ⟨2, by decide +kernel⟩
  refine ⟨?_, ?_, reads _ _ spelled, ?_⟩
  · rw [reads _ _ (written _), if_pos (by decide)]
  · rw [reads _ _ (written _), if_neg (by decide)]
  · have trimmed : trim "12 34".toList = ['1', '2', ' ', '3', '4'] := by decide +kernel
    have marked : Marked 10 ['1', '2', ' ', '3', '4'] (trim "12 34".toList) := by
      rw [trimmed]
      exact .decimal fun mark digits heq radix hmark => by simp_all
    exact refuses _ _ _ marked ' ' (by decide) (by decide) (by decide)

end ThresholdSpec

end ChainWatch
