import ChainWatch.Word.Text
import Mathlib.Data.List.Basic

/-!
# Written numbers, bytes and addresses

What is written in digits is read back: words in decimal notation, quantities, byte strings, and
addresses, whose checksum changes nothing but the case of letters. No character but digits is in any of
these texts.
-/

namespace ChainWatch

namespace Text

theorem digitValue?_toUpper (c : Char) : digitValue? c.toUpper = digitValue? c := by
  unfold Char.toUpper
  split
  · rename_i hlower
    obtain ⟨hlow, hhigh⟩ := hlower
    rw [UInt32.le_iff_toNat_le] at hlow hhigh
    simp only [digitValue?, Char.le_def, UInt32.le_iff_toNat_le, Char.toNat, UInt32.toNat_add]
    simp at hlow hhigh ⊢
    have hraised : (c.toNat + 4294967264) % 4294967296 = c.toNat - 32 := by omega
    rw [hraised]
    grind
  · rfl

/-- Where the digits are among the characters. -/
theorem range_of_digitValue? {c : Char} {d : Nat} (h : digitValue? c = some d) :
    48 ≤ c.toNat ∧ c.toNat ≤ 57 ∧ d = c.toNat - 48 ∨
      97 ≤ c.toNat ∧ c.toNat ≤ 102 ∧ d = c.toNat - 87 ∨
      65 ≤ c.toNat ∧ c.toNat ≤ 70 ∧ d = c.toNat - 55 := by
  simp only [digitValue?, Char.le_def, UInt32.le_iff_toNat_le] at h
  simp at h
  grind

theorem isSome_digitValue?_of_digits? {radix : Nat} {text : List Char} {digits : List Nat}
    (h : digits? radix text = some digits) : ∀ c ∈ text, (digitValue? c).isSome := by
  induction text generalizing digits with
  | nil => simp
  | cons c text ih =>
      simp only [digits?, List.mapM_cons, Option.bind_eq_bind, Option.bind_eq_some_iff] at h
      obtain ⟨d, hd, rest, hrest, -⟩ := h
      obtain ⟨hvalue, -⟩ := Option.filter_eq_some_iff.mp hd
      exact List.forall_mem_cons.mpr ⟨by rw [hvalue]; rfl, ih hrest⟩

theorem isSome_digitValue?_of_mem_decimal {n : Nat} {c : Char} (h : c ∈ decimal n) :
    (digitValue? c).isSome :=
  isSome_digitValue?_of_digits? (digits?_decimal n) c h

theorem decimal_injective {m n : Nat} (h : decimal m = decimal n) : m = n := by
  rw [← Option.some_inj, ← decimal?_decimal m, h, decimal?_decimal]

theorem digits?_append {radix : Nat} {s t : List Char} {ds es : List Nat}
    (hs : digits? radix s = some ds) (ht : digits? radix t = some es) :
    digits? radix (s ++ t) = some (ds ++ es) := by
  unfold digits? at *
  simp [List.mapM_append, hs, ht]

theorem digits?_singleton {d : Nat} (h : d < 16) : digits? 16 [digitChar d] = some [d] := by
  simp [digits?, digitIn?, digitValue?_digitChar d h, Option.filter, h]

/-- The digits that a number has in hexadecimal notation denote it. -/
theorem exists_digits?_hexadecimal (n : Nat) :
    ∃ digits, digits? 16 (hexadecimal n) = some digits ∧ ofDigits 16 digits = n := by
  rw [hexadecimal]
  split
  · rename_i h
    exact ⟨[n], digits?_singleton h, by simp [ofDigits]⟩
  · obtain ⟨digits, hdigits, hvalue⟩ := exists_digits?_hexadecimal (n / 16)
    refine ⟨digits ++ [n % 16], digits?_append hdigits (digits?_singleton (by omega)), ?_⟩
    rw [ofDigits_append_singleton, hvalue]
    omega
termination_by n

end Text

open Text

namespace Bytes

/-- Reading sees the values of the digits only. -/
theorem ofHexDigits?_congr : {s t : List Char} → s.map digitValue? = t.map digitValue? →
    ofHexDigits? s = ofHexDigits? t
  | [], [], _ => rfl
  | [_], [_], _ => rfl
  | a :: b :: s, c :: d :: t, h => by
      simp only [List.map_cons, List.cons.injEq] at h
      obtain ⟨hac, hbd, hst⟩ := h
      simp only [ofHexDigits?, hac, hbd, ofHexDigits?_congr hst]
  | [], _ :: _, h | _ :: _, [], h | [_], _ :: _ :: _, h | _ :: _ :: _, [_], h => by simp at h

theorem isSome_digitValue?_of_ofHexDigits? : {s : List Char} → {bytes : Bytes} →
    ofHexDigits? s = some bytes → ∀ c ∈ s, (digitValue? c).isSome
  | [], _, _ => by simp
  | [_], _, h => by simp [ofHexDigits?] at h
  | a :: b :: s, _, h => by
      simp only [ofHexDigits?, Option.bind_eq_bind, Option.bind_eq_some_iff] at h
      obtain ⟨high, hhigh, low, hlow, rest, hrest, -⟩ := h
      have hs := isSome_digitValue?_of_ofHexDigits? hrest
      simpa [hhigh, hlow] using hs

theorem length_hexDigits (bytes : Bytes) : bytes.hexDigits.length = 2 * bytes.length := by
  induction bytes with
  | nil => rfl
  | cons b rest ih =>
      simp only [hexDigits, List.length_cons, ih]
      omega

theorem ofHex?_toHex (bytes : Bytes) : ofHex? bytes.toHex = some bytes := by
  rw [ofHex?, toHex, String.toList_ofList]
  exact ofHexDigits?_hexDigits bytes

theorem toHex_injective {a b : Bytes} (h : a.toHex = b.toHex) : a = b := by
  rw [← Option.some_inj, ← ofHex?_toHex a, h, ofHex?_toHex]

end Bytes

namespace Address

theorem map_digitValue?_raiseLetters (digits digest : List Char) :
    (raiseLetters digits digest).map digitValue? = digits.map digitValue? := by
  induction digits generalizing digest with
  | nil => simp [raiseLetters]
  | cons c digits ih =>
      cases digest with
      | nil => rfl
      | cons d digest =>
          simp only [raiseLetters, List.map_cons, ih]
          split
          · rw [digitValue?_toUpper]
          · rfl

theorem ofHexDigits?_checksumDigits (a : Address) :
    Bytes.ofHexDigits? a.checksumDigits = some a.toBytes := by
  rw [checksumDigits, Bytes.ofHexDigits?_congr (map_digitValue?_raiseLetters ..)]
  exact Bytes.ofHexDigits?_hexDigits _

theorem isSome_digitValue?_of_mem_checksumDigits {a : Address} {c : Char}
    (h : c ∈ a.checksumDigits) : (digitValue? c).isSome :=
  Bytes.isSome_digitValue?_of_ofHexDigits? a.ofHexDigits?_checksumDigits c h

theorem toBytes_injective {a b : Address} (h : a.toBytes = b.toBytes) : a = b := by
  rw [← ofBytes_toBytes a, h, ofBytes_toBytes]

/-- Different addresses have different checksummed texts. -/
theorem checksum_injective {a b : Address} (h : a.checksum = b.checksum) : a = b := by
  have hdigits : a.checksumDigits = b.checksumDigits := by
    simpa [checksum, String.ofList_inj] using h
  apply toBytes_injective
  rw [← Option.some_inj, ← ofHexDigits?_checksumDigits, hdigits, ofHexDigits?_checksumDigits]

theorem ofJson?_toHex (a : Address) : ofJson? (.string a.toHex) = some a := by
  have hlength : a.toBytes.hexDigits.length = 40 := by
    rw [Bytes.length_hexDigits, toBytes, Bytes.length_ofNat]
  simp only [ofJson?, toHex, Bytes.toHex, String.toList_ofList, ofHex?, Bytes.dropHexMark, hlength,
    if_true, Bytes.ofHexDigits?_hexDigits, Option.map_some, ofBytes_toBytes]

end Address

namespace Word

theorem decimal_injective {v w : Word} (h : v.decimal = w.decimal) : v = w := by
  apply BitVec.eq_of_toNat_eq
  exact Text.decimal_injective (String.ofList_inj.mp h)

theorem ofTextBelow?_quantity {bound n : Nat} (h : n < bound) :
    ofTextBelow? bound (quantity n).toList = some n := by
  obtain ⟨digits, hdigits, hvalue⟩ := exists_digits?_hexadecimal n
  have hplain : (hexadecimal n).filter (· != '_') = hexadecimal n := by
    refine List.filter_eq_self.mpr fun c hc => ?_
    have hc := isSome_digitValue?_of_digits? hdigits c hc
    rcases eq_or_ne c '_' with rfl | hne
    · cases hc
    · exact bne_iff_ne.mpr hne
  simp [ofTextBelow?, quantity, radixMark, hplain, hdigits, hvalue, h]

end Word

end ChainWatch
