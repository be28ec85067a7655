/-
  Message ids sort as their numbers do.

      300     00000000000000000300
      1007    00000000000000001007
                              ^ the first byte that differs is the highest digit that does

  specification   one id is below another, as a text and as bytes, just if its number is; it has twenty
                  digits; and read as a numeral it gives its number back (`ids_sort_as_numbers`)
  the crux        a numeral of some width stands for its number without the digits that did not fit
                  (`value_encode_padded`), and twenty digits are enough for 64 bits
-/
import TopicRelay.Proofs.Log.Memory
import TopicRelay.Proofs.Text.Numeral
import TopicRelay.Proofs.Text.Utf8Order

namespace TopicRelay

open Text (Utf8.encode Utf8.encodeChar)

/-! ## Padded numerals as bytes -/

namespace Text.Numeral

theorem encodeChar_digitChar {d : Nat} (h : d < 10) : Utf8.encodeChar (digitChar d) = [digitByte d] :=
  Utf8.encodeChar_ofNat (by omega)

/-- One digit more. -/
theorem encode_padded_succ (width n : Nat) :
    (padded (width + 1) n).flatMap Utf8.encodeChar
      = (padded width (n / 10)).flatMap Utf8.encodeChar ++ [digitByte (n % 10)] := by
  rw [padded, List.flatMap_append, List.flatMap_singleton,
    encodeChar_digitChar (Nat.mod_lt n (by decide))]

theorem length_encode_padded (width n : Nat) :
    ((padded width n).flatMap Utf8.encodeChar).length = width := by
  induction width generalizing n with
  | zero => rfl
  | succ width ih => rw [encode_padded_succ, List.length_append, ih, List.length_singleton]

theorem isDigit_of_mem_padded (width n : Nat) :
    ∀ b ∈ (padded width n).flatMap Utf8.encodeChar, Ascii.isDigit b = true := by
  induction width generalizing n with
  | zero =>
    intro b hb
    cases hb
  | succ width ih =>
    intro b hb
    rw [encode_padded_succ, List.mem_append, List.mem_singleton] at hb
    rcases hb with hb | rfl
    · exact ih (n / 10) b hb
    · exact isDigit_digitByte (Nat.mod_lt n (by decide))

/-- **A padded numeral stands for its number**, but for the digits above its width. -/
theorem value_encode_padded (width n : Nat) :
    value ((padded width n).flatMap Utf8.encodeChar) = n % 10 ^ width := by
  induction width generalizing n with
  | zero => rw [Nat.pow_zero, Nat.mod_one]; rfl
  | succ width ih =>
    have hlast := digitValue_digitByte (Nat.mod_lt n (by decide : 0 < 10))
    have hfront : value ((padded width (n / 10)).flatMap Utf8.encodeChar) = n / 10 % 10 ^ width :=
      ih (n / 10)
    rw [value] at hfront
    rw [encode_padded_succ, value, List.foldl_append, hfront, List.foldl_cons, List.foldl_nil, hlast,
      Nat.pow_succ, Nat.mul_comm (10 ^ width), Nat.mod_mul, Nat.mul_comm 10, Nat.add_comm]

end Text.Numeral

namespace MemoryLog

/-! ## Ids -/

theorem encode_formatId (n : UInt64) :
    Utf8.encode (formatId n) = (Text.Numeral.padded 20 n.toNat).flatMap Utf8.encodeChar := by
  rw [Utf8.encode, formatId, String.toList_ofList]

/-- The id of a number is below that of another just if the number is. -/
theorem formatId_lt_iff (a b : UInt64) : formatId a < formatId b ↔ a < b := by
  refine ⟨fun h => ?_, formatId_lt_formatId⟩
  rcases Nat.lt_trichotomy a.toNat b.toNat with hlt | heq | hgt
  · exact UInt64.lt_iff_toNat_lt.mpr hlt
  · rw [UInt64.toNat_inj.mp heq] at h
    exact absurd h (String.lt_irrefl _)
  · have hgreater := formatId_lt_formatId (UInt64.lt_iff_toNat_lt.mpr hgt)
    exact absurd h (String.lt_asymm hgreater)

/-- Twenty digits are enough for every number of 64 bits. -/
theorem value_formatId (n : UInt64) : Text.Numeral.value (Utf8.encode (formatId n)) = n.toNat := by
  rw [encode_formatId, Text.Numeral.value_encode_padded]
  exact Nat.mod_eq_of_lt (Nat.lt_of_lt_of_le n.toNat_lt (by decide))

/-- **Ids sort as numbers.**  Ids are ordered as their numbers are, as texts and byte by byte; each has
    just twenty ASCII digits; and these are read back as the number, also by a reader that admits no
    more than 64 bits. -/
theorem ids_sort_as_numbers :
    (∀ a b : UInt64, (formatId a < formatId b ↔ a < b)
      ∧ (Utf8.encode (formatId a) < Utf8.encode (formatId b) ↔ a < b))
    ∧ ∀ n : UInt64, (Utf8.encode (formatId n)).length = 20
      ∧ (Utf8.encode (formatId n)).all Ascii.isDigit = true
      ∧ Text.Numeral.value (Utf8.encode (formatId n)) = n.toNat
      ∧ Text.Numeral.parse? (2 ^ 64 - 1) (Utf8.encode (formatId n)) = some n.toNat := by
  refine ⟨fun a b => ⟨formatId_lt_iff a b, ?_⟩, fun n => ?_⟩
  · rw [Text.Utf8.encode_lt_encode_iff]
    exact formatId_lt_iff a b
  · have hdigits : ∀ d ∈ Utf8.encode (formatId n), Ascii.isDigit d = true := by
      rw [encode_formatId]
      exact Text.Numeral.isDigit_of_mem_padded 20 n.toNat
    have hlength : (Utf8.encode (formatId n)).length = 20 := by
      rw [encode_formatId, Text.Numeral.length_encode_padded]
    have hne : Utf8.encode (formatId n) ≠ [] := by
      rintro hnil
      rw [hnil] at hlength
      cases hlength
    have hfits : ¬ 2 ^ 64 - 1 < n.toNat := by
      have := n.toNat_lt
      omega
    refine ⟨hlength, List.all_eq_true.mpr hdigits, value_formatId n, ?_⟩
    rw [Text.Numeral.parse?_of_digits _ hne hdigits, value_formatId, if_neg hfits]

end MemoryLog
end TopicRelay
