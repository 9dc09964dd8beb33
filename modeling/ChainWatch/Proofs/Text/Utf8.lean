import ChainWatch.Text.Utf8
import Mathlib.Data.List.Basic

/-!
# Texts in UTF-8

The bytes of a text are read as this text. A byte below 128 among them is a character of the text: no
part of a longer character looks like one.
-/

namespace ChainWatch

/-! ## Bytes of a text -/

namespace Bytes

theorem toList_loop (bytes : ByteArray) (i : Nat) (taken : List UInt8) :
    ByteArray.toList.loop bytes i taken = taken.reverse ++ bytes.data.toList.drop i := by
  fun_induction ByteArray.toList.loop bytes i taken with
  | case1 i taken h ih =>
      have hi : i < bytes.data.toList.length := h
      have byte : bytes.get! i = bytes.data.toList[i] := by
        rw [ByteArray.get!, getElem!_pos bytes.data i h, Array.getElem_toList]
      rw [ih, List.drop_eq_getElem_cons hi, byte, List.reverse_cons, List.append_assoc]
      rfl
  | case2 i taken h =>
      rw [List.drop_eq_nil_of_le (Nat.le_of_not_lt h), List.append_nil]

theorem ofString_eq (text : String) :
    ofString text = text.toList.flatMap String.utf8EncodeChar := by
  have encoded : text.toUTF8 = (text.toList.flatMap String.utf8EncodeChar).toByteArray :=
    String.utf8Encode_toList.symm
  rw [ofString, encoded, ByteArray.toList, toList_loop, List.toList_data_toByteArray]
  rfl

end Bytes

namespace Text

theorem leading?_of_two : ∀ n < 224, 0xC2 ≤ n →
    leading? (UInt8.ofNat n) = some (0x80, 0xBF, 1) := by
  decide +kernel

theorem leading?_of_three : ∀ n < 240, 0xE0 ≤ n → leading? (UInt8.ofNat n) =
    some (if n = 0xE0 then 0xA0 else 0x80, if n = 0xED then 0x9F else 0xBF, 2) := by
  decide +kernel

theorem leading?_of_four : ∀ n < 245, 0xF0 ≤ n → leading? (UInt8.ofNat n) =
    some (if n = 0xF0 then 0x90 else 0x80, if n = 0xF4 then 0x8F else 0xBF, 3) := by
  decide +kernel

theorem toNat_ofNat_of_lt {n : Nat} (h : n < 256) : (UInt8.ofNat n).toNat = n := by
  rw [UInt8.toNat_ofNat']
  exact Nat.mod_eq_of_lt h

theorem continuation?_ofNat {low high : UInt8} {n : Nat} (hn : n < 256) (hlow : low.toNat ≤ n)
    (hhigh : n ≤ high.toNat) : continuation? low high (UInt8.ofNat n) = some (n % 64) := by
  rw [continuation?, if_pos, toNat_ofNat_of_lt hn]
  simp only [UInt8.le_iff_toNat_le, toNat_ofNat_of_lt hn]
  exact ⟨hlow, hhigh⟩

theorem frontChar_of_leading {low high : UInt8} {n count : Nat} (hn : n < 256) (hhigh : 128 ≤ n)
    (hl : leading? (UInt8.ofNat n) = some (low, high, count)) (rest : Bytes) :
    frontChar (UInt8.ofNat n) rest =
      follow low high (n % (if count = 1 then 32 else if count = 2 then 16 else 8)) 1 count rest := by
  have beyond : ¬ UInt8.ofNat n < 0x80 := by
    rw [UInt8.lt_iff_toNat_lt, toNat_ofNat_of_lt hn]
    exact Nat.not_lt.mpr hhigh
  rw [frontChar, if_neg beyond, hl, toNat_ofNat_of_lt hn]

theorem follow_cons {low high : UInt8} {value taken left n : Nat} {rest : Bytes} (hn : n < 256)
    (hlow : low.toNat ≤ n) (hhigh : n ≤ high.toNat) :
    follow low high value taken (left + 1) (UInt8.ofNat n :: rest) =
      follow 0x80 0xBF (value * 64 + n % 64) (taken + 1) left rest := by
  rw [follow, continuation?_ofNat hn hlow hhigh]

/-- The character at the front of its own bytes. -/
theorem frontChar_encode (c : Char) : ∃ b tail, String.utf8EncodeChar c = b :: tail ∧
    ∀ rest, frontChar b (tail ++ rest) = (some c, tail.length + 1) := by
  have hback : Char.ofNat c.toNat = c := Char.ofNat_toNat c
  have hsize : c.toNat < 1114112 ∧ ¬ (55296 ≤ c.toNat ∧ c.toNat ≤ 57343) := by
    rcases c.valid with h | h
    · have below : c.toNat < 55296 := h
      omega
    · have beyond : 57343 < c.toNat ∧ c.toNat < 1114112 := h
      omega
  unfold String.utf8EncodeChar
  rw [show c.val.toNat = c.toNat from rfl]
  generalize c.toNat = n at *
  obtain ⟨hsize, hsurrogate⟩ := hsize
  have lows : (0x80 : UInt8).toNat = 128 ∧ (0xA0 : UInt8).toNat = 160 ∧ (0x90 : UInt8).toNat = 144 :=
    ⟨rfl, rfl, rfl⟩
  have highs : (0xBF : UInt8).toNat = 191 ∧ (0x9F : UInt8).toNat = 159 ∧ (0x8F : UInt8).toNat = 143 :=
    ⟨rfl, rfl, rfl⟩
  dsimp only
  split
  · refine ⟨_, _, rfl, fun rest => ?_⟩
    have below : UInt8.ofNat n < 0x80 := by
      rw [UInt8.lt_iff_toNat_lt, toNat_ofNat_of_lt (by omega)]
      exact Nat.lt_succ_of_le (by assumption)
    rw [frontChar, if_pos below, toNat_ofNat_of_lt (by omega), hback]
    rfl
  · split
    · refine ⟨_, _, rfl, fun rest => ?_⟩
      have hl := leading?_of_two (n / 64 % 32 + 192) (by omega) (by omega)
      have value : (n / 64 % 32 + 192) % 32 * 64 + (n % 64 + 128) % 64 = n := by omega
      rw [frontChar_of_leading (by omega) (by omega) hl, List.cons_append,
        follow_cons (by omega) (by omega) (by omega), follow, if_pos rfl, value, hback]
      rfl
    · split
      · refine ⟨_, _, rfl, fun rest => ?_⟩
        have hl := leading?_of_three (n / 4096 % 16 + 224) (by omega) (by omega)
        have value : ((n / 4096 % 16 + 224) % 16 * 64 + (n / 64 % 64 + 128) % 64) * 64 +
            (n % 64 + 128) % 64 = n := by omega
        rw [frontChar_of_leading (by omega) (by omega) hl, List.cons_append, List.cons_append,
          follow_cons (by omega) (by split <;> omega) (by split <;> omega),
          follow_cons (by omega) (by omega) (by omega), follow, if_neg nofun, if_pos rfl, value, hback]
        rfl
      · refine ⟨_, _, rfl, fun rest => ?_⟩
        have hl := leading?_of_four (n / 262144 % 8 + 240) (by omega) (by omega)
        have value : (((n / 262144 % 8 + 240) % 8 * 64 + (n / 4096 % 64 + 128) % 64) * 64 +
            (n / 64 % 64 + 128) % 64) * 64 + (n % 64 + 128) % 64 = n := by omega
        rw [frontChar_of_leading (by omega) (by omega) hl, List.cons_append, List.cons_append,
          List.cons_append, follow_cons (by omega) (by split <;> omega) (by split <;> omega),
          follow_cons (by omega) (by omega) (by omega), follow_cons (by omega) (by omega) (by omega),
          follow, if_neg nofun, if_neg nofun, value, hback]
        rfl

theorem characters_encode {budget : Nat} (chars : List Char) (h : chars.length ≤ budget) :
    characters budget (chars.flatMap String.utf8EncodeChar) = chars.map some := by
  induction chars generalizing budget with
  | nil => cases budget <;> rfl
  | cons c chars ih =>
      cases budget with
      | zero => simp at h
      | succ budget =>
          obtain ⟨b, tail, hbytes, hfront⟩ := frontChar_encode c
          rw [List.flatMap_cons, hbytes, List.cons_append, characters, hfront]
          dsimp only
          rw [← List.cons_append, List.drop_left' (by simp), ih (by simpa using h), List.map_cons]

/-- A text is read back from its bytes. -/
theorem ofUtf8?_ofString (text : String) : ofUtf8? (Bytes.ofString text) = some text := by
  have longer (chars : List Char) :
      chars.length ≤ (chars.flatMap String.utf8EncodeChar).length := by
    induction chars with
    | nil => simp
    | cons c chars ih =>
        obtain ⟨b, tail, hbytes, -⟩ := frontChar_encode c
        rw [List.flatMap_cons, hbytes, List.length_append, List.length_cons, List.length_cons]
        omega
  have known (chars : List Char) : (chars.map some).mapM id = some chars := by
    induction chars with
    | nil => rfl
    | cons c chars ih => simp [ih]
  rw [ofUtf8?, Bytes.ofString_eq, characters_encode _ (longer _), known, Option.map_some,
    String.ofList_toList]

/-- Where the bytes are a text, the lenient reading is the strict one. -/
theorem ofUtf8_of_ofUtf8? {bytes : Bytes} {text : String} (h : ofUtf8? bytes = some text) :
    ofUtf8 bytes = text := by
  have known (read : List (Option Char)) (chars : List Char) (hread : read.mapM id = some chars) :
      read.map (·.getD '\uFFFD') = chars := by
    induction read generalizing chars with
    | nil =>
        cases hread
        rfl
    | cons c read ih =>
        simp only [List.mapM_cons, Option.bind_eq_bind, Option.bind_eq_some_iff] at hread
        obtain ⟨d, hd, rest, hrest, heq⟩ := hread
        cases heq
        obtain rfl : c = some d := hd
        rw [List.map_cons, ih rest hrest, Option.getD_some]
  obtain ⟨chars, hchars, rfl⟩ := Option.map_eq_some_iff.mp h
  rw [ofUtf8, known _ _ hchars]

/-- A byte below 128 stands for a character of its own. -/
theorem toNat_of_mem_encode {c : Char} {b : UInt8} (h : b ∈ String.utf8EncodeChar c)
    (hb : b.toNat < 128) : c.toNat = b.toNat := by
  unfold String.utf8EncodeChar at h
  rw [show c.val.toNat = c.toNat from rfl] at h
  generalize c.toNat = n at *
  dsimp only at h
  split at h
  · obtain rfl := List.mem_singleton.mp h
    exact (toNat_ofNat_of_lt (by omega)).symm
  -- All bytes of a longer character are 128 or more.
  · exfalso
    split at h
    · simp only [List.mem_cons, List.not_mem_nil, or_false] at h
      rcases h with rfl | rfl <;> rw [toNat_ofNat_of_lt (by omega)] at hb <;> omega
    · split at h
      · simp only [List.mem_cons, List.not_mem_nil, or_false] at h
        rcases h with rfl | rfl | rfl <;> rw [toNat_ofNat_of_lt (by omega)] at hb <;> omega
      · simp only [List.mem_cons, List.not_mem_nil, or_false] at h
        rcases h with rfl | rfl | rfl | rfl <;> rw [toNat_ofNat_of_lt (by omega)] at hb <;> omega

/-- A text without control characters has no control bytes. -/
theorem printable_ofString {text : String} (h : ∀ c ∈ text.toList, 32 ≤ c.toNat) :
    ∀ b ∈ Bytes.ofString text, 32 ≤ b.toNat := by
  intro b hb
  rw [Bytes.ofString_eq] at hb
  obtain ⟨c, hc, hb⟩ := List.mem_flatMap.mp hb
  by_contra hn
  have hcontrol := toNat_of_mem_encode hb (by omega)
  have hprintable := h c hc
  omega

end Text

end ChainWatch
