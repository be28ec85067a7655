/-
  Numerals are read back as the numbers they were written for.

  The numeral of a number is its last digit after the numeral of a tenth of it, and reading a numeral
  is a fold from the highest digit on; so both inductions go from the number to a tenth of it.  A
  numeral begins with a zero only if it is the numeral of zero: readers that refuse leading zeros
  accept it.
-/
import TopicRelay.Proofs.Text.Utf8
import TopicRelay.Text.Numeral

namespace TopicRelay.Text.Numeral

open Text.Utf8 (toNat_byte byte_eq_iff)

/-! ## Digits -/

/-- The byte of a digit. -/
def digitByte (d : Nat) : UInt8 := UInt8.ofNat (0x30 + d)

theorem byte_digitChar {d : Nat} (h : d < 10) : UInt8.ofNat (digitChar d).toNat = digitByte d := by
  have key : ∀ d < 10, UInt8.ofNat (digitChar d).toNat = digitByte d := by decide
  exact key d h

theorem isDigit_digitByte {d : Nat} (h : d < 10) : Ascii.isDigit (digitByte d) = true := by
  have key : ∀ d < 10, Ascii.isDigit (digitByte d) = true := by decide
  exact key d h

theorem digitValue_digitByte {d : Nat} (h : d < 10) : Ascii.digitValue (digitByte d) = d := by
  have key : ∀ d < 10, Ascii.digitValue (digitByte d) = d := by decide
  exact key d h

theorem digitByte_eq_zero_iff {d : Nat} (h : d < 10) : digitByte d = Ascii.zero ↔ d = 0 := by
  have key : ∀ d < 10, digitByte d = Ascii.zero ↔ d = 0 := by decide
  exact key d h

/-! ## The bytes of a numeral -/

theorem bytes_of_lt {n : Nat} (h : n < 10) : bytes n = [digitByte n] := by
  rw [bytes, digits, if_pos h, List.map_singleton, byte_digitChar h]

theorem bytes_of_ge {n : Nat} (h : 10 ≤ n) : bytes n = bytes (n / 10) ++ [digitByte (n % 10)] := by
  rw [bytes, digits, if_neg (by omega), List.map_append, List.map_singleton,
    byte_digitChar (Nat.mod_lt n (by omega)), ← bytes]

/-- Induction over the digits of a number, from the highest on. -/
theorem digit_induction {motive : Nat → Prop} (one : ∀ n < 10, motive n)
    (more : ∀ n, 10 ≤ n → motive (n / 10) → motive n) (n : Nat) : motive n := by
  induction n using Nat.strongRecOn with
  | ind n ih =>
    rcases Nat.lt_or_ge n 10 with h | h
    · exact one n h
    · exact more n h (ih (n / 10) (by omega))

theorem bytes_ne_nil (n : Nat) : bytes n ≠ [] := by
  rcases Nat.lt_or_ge n 10 with h | h
  · rw [bytes_of_lt h]; exact List.cons_ne_nil _ _
  · rw [bytes_of_ge h]; exact List.append_ne_nil_of_right_ne_nil _ (List.cons_ne_nil _ _)

theorem isDigit_of_mem_bytes (n : Nat) : ∀ b ∈ bytes n, Ascii.isDigit b = true := by
  induction n using digit_induction with
  | one n h =>
    intro b hb
    rw [bytes_of_lt h, List.mem_singleton] at hb
    exact hb ▸ isDigit_digitByte h
  | more n h ih =>
    intro b hb
    rw [bytes_of_ge h, List.mem_append, List.mem_singleton] at hb
    rcases hb with hb | rfl
    · exact ih b hb
    · exact isDigit_digitByte (Nat.mod_lt n (by omega))

/-- **A numeral stands for its number.** -/
theorem value_bytes (n : Nat) : value (bytes n) = n := by
  induction n using digit_induction with
  | one n h =>
    rw [bytes_of_lt h, value, List.foldl_cons, List.foldl_nil, digitValue_digitByte h]; omega
  | more n h ih =>
    rw [value] at ih
    rw [bytes_of_ge h, value, List.foldl_append, ih, List.foldl_cons, List.foldl_nil,
      digitValue_digitByte (Nat.mod_lt n (by omega))]
    omega

/-- A numeral is the single digit zero, or it begins with another digit. -/
theorem bytes_cases (n : Nat) :
    bytes n = [Ascii.zero] ∨ ∃ b r, bytes n = b :: r ∧ b ≠ Ascii.zero := by
  induction n using digit_induction with
  | one n h =>
    rw [bytes_of_lt h]
    by_cases h0 : n = 0
    · subst h0; exact Or.inl rfl
    · exact Or.inr ⟨_, _, rfl, fun he => h0 ((digitByte_eq_zero_iff h).mp he)⟩
  | more n h ih =>
    rw [bytes_of_ge h]
    rcases ih with ih | ⟨b, r, hb, hne⟩
    · -- a tenth of the number is not zero, so its numeral is not the digit zero
      have hv := value_bytes (n / 10)
      rw [ih] at hv
      have : value [Ascii.zero] = 0 := by decide
      omega
    · exact Or.inr ⟨b, r ++ [digitByte (n % 10)], by rw [hb, List.cons_append], hne⟩

/-- Digits are read where a plus sign might stand before them, unless their number is above the
    bound. -/
theorem parse?_of_digits (bound : Nat) {ds : Bytes} (hne : ds ≠ [])
    (hdigits : ∀ b ∈ ds, Ascii.isDigit b = true) :
    parse? bound ds = if bound < value ds then none else some (value ds) := by
  obtain ⟨b, r, rfl⟩ := List.exists_cons_of_ne_nil hne
  have hplus : b ≠ Ascii.plus := by
    rintro rfl
    have := hdigits Ascii.plus List.mem_cons_self
    revert this; decide
  have hall : (b :: r).all Ascii.isDigit = true := List.all_eq_true.mpr hdigits
  rw [parse?]
  simp only [if_neg hplus, hall, List.isEmpty_cons, Bool.not_true, Bool.or_self, Bool.false_or,
    decide_eq_true_eq]

/-- A numeral is read back where a plus sign might stand before it, unless it is above the bound. -/
theorem parse?_bytes (bound n : Nat) :
    parse? bound (bytes n) = if bound < n then none else some n := by
  rw [parse?_of_digits bound (bytes_ne_nil n) (isDigit_of_mem_bytes n), value_bytes]

end TopicRelay.Text.Numeral
