/-!
# Digits

Digit characters in any radix up to sixteen, and the numbers that strings of digits denote. Printing a
number and reading it back gives the number (`ofDigits_decimalDigits`).
-/

namespace ChainWatch.Text

/-- The value of a digit character, letters standing for ten to fifteen in either case. -/
def digitValue? (c : Char) : Option Nat :=
  if '0' ≤ c ∧ c ≤ '9' then some (c.toNat - 48)
  else if 'a' ≤ c ∧ c ≤ 'f' then some (c.toNat - 87)
  else if 'A' ≤ c ∧ c ≤ 'F' then some (c.toNat - 55)
  else none

def digitIn? (radix : Nat) (c : Char) : Option Nat :=
  (digitValue? c).filter (· < radix)

def digitChar (d : Nat) : Char :=
  if d < 10 then Char.ofNat (48 + d) else Char.ofNat (87 + d)

/-- The number denoted by digit values, the most significant first. -/
def ofDigits (radix : Nat) (digits : List Nat) : Nat :=
  digits.foldl (fun n d => n * radix + d) 0

/-- The digits of a number in decimal notation, without leading zeros. -/
def decimalDigits (n : Nat) : List Nat :=
  if n < 10 then [n] else decimalDigits (n / 10) ++ [n % 10]

def decimal (n : Nat) : List Char :=
  (decimalDigits n).map digitChar

def hexadecimal (n : Nat) : List Char :=
  if n < 16 then [digitChar n] else hexadecimal (n / 16) ++ [digitChar (n % 16)]

def digits? (radix : Nat) (text : List Char) : Option (List Nat) :=
  text.mapM (digitIn? radix)

/-- A number in decimal notation, at least one digit and no sign. -/
def decimal? (text : List Char) : Option Nat :=
  if text.isEmpty then none else (digits? 10 text).map (ofDigits 10)

theorem ofDigits_append_singleton (radix : Nat) (digits : List Nat) (d : Nat) :
    ofDigits radix (digits ++ [d]) = ofDigits radix digits * radix + d := by
  simp [ofDigits]

theorem ofDigits_decimalDigits (n : Nat) : ofDigits 10 (decimalDigits n) = n := by
  rw [decimalDigits]
  split
  · simp [ofDigits]
  · rw [ofDigits_append_singleton, ofDigits_decimalDigits (n / 10)]
    omega
termination_by n

theorem lt_of_mem_decimalDigits {n d : Nat} (h : d ∈ decimalDigits n) : d < 10 := by
  rw [decimalDigits] at h
  split at h
  · simp at h; omega
  · rcases List.mem_append.1 h with h | h
    · exact lt_of_mem_decimalDigits h
    · simp at h; omega
termination_by n

theorem digitValue?_digitChar : ∀ d, d < 16 → digitValue? (digitChar d) = some d := by
  decide

theorem decimalDigits_ne_nil (n : Nat) : decimalDigits n ≠ [] := by
  rw [decimalDigits]
  split <;> simp

theorem digits?_decimal (n : Nat) : digits? 10 (decimal n) = some (decimalDigits n) := by
  have hall : ∀ ds : List Nat, (∀ d ∈ ds, d < 10) →
      (ds.map digitChar).mapM (digitIn? 10) = some ds := by
    intro ds
    induction ds with
    | nil => intro _; rfl
    | cons d ds ih =>
      intro h
      have hd : d < 10 := h d (by simp)
      have hv : digitIn? 10 (digitChar d) = some d := by
        rw [digitIn?, digitValue?_digitChar d (by omega)]
        simp [Option.filter, hd]
      simp [List.mapM_cons, hv, ih fun x hx => h x (by simp [hx])]
  exact hall _ fun d hd => lt_of_mem_decimalDigits hd

theorem decimal?_decimal (n : Nat) : decimal? (decimal n) = some n := by
  have hne : (decimal n).isEmpty = false := by
    simp [decimal, decimalDigits_ne_nil]
  simp [decimal?, hne, digits?_decimal, ofDigits_decimalDigits]

end ChainWatch.Text
