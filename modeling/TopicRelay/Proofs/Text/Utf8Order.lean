/-
  Texts and their bytes are ordered alike.

      s < t                     the first character that differs decides
      encode s < encode t       the first byte that differs decides

  specification   the two are the same (`encode_lt_encode_iff`)
  the crux        the first byte of a character never falls when the character rises (`lead_le_lead`).
                  If it stays, so does the number of bytes, and so do the high digits of the character
                  to the base 64 (`high_of_lead_eq`).  The low digits are in the bytes behind it, the
                  highest first, and digits are ordered as their numbers are (`digits_lt_digits`)
-/
import Mathlib.Algebra.Group.Nat.Defs
import Mathlib.Tactic.ByContra
import Mathlib.Tactic.SplitIfs
import TopicRelay.Proofs.Text.Utf8

namespace TopicRelay.Text.Utf8

theorem byte_lt_byte {m n : Nat} (hm : m < 256) (hn : n < 256) :
    UInt8.ofNat m < UInt8.ofNat n ↔ m < n := by
  rw [byte_lt_iff hm, toNat_byte hn]

/-! ## A character as a first byte and digits -/

/-- How many bytes stand behind the first one. -/
def tails (v : Nat) : Nat :=
  if v < 0x80 then 0 else if v < 0x800 then 1 else if v < 0x10000 then 2 else 3

/-- The first byte of a character, as a number. -/
def lead (v : Nat) : Nat :=
  if v < 0x80 then v
  else if v < 0x800 then 0xC0 + v / 0x40
  else if v < 0x10000 then 0xE0 + v / 0x1000
  else 0xF0 + v / 0x40000

/-- The last digits of a number to the base 64, each in a byte that continues a character. -/
def digits : (count v : Nat) → Bytes
  | 0, _ => []
  | count + 1, v => UInt8.ofNat (0x80 + v / 0x40 ^ count % 0x40) :: digits count v

theorem encodeChar_eq (c : Char) :
    encodeChar c = UInt8.ofNat (lead c.toNat) :: digits (tails c.toNat) c.toNat := by
  simp only [encodeChar, lead, tails]
  split_ifs <;> simp [digits]

theorem toNat_lt_of_char (c : Char) : c.toNat < 0x110000 := by
  have hvalid : c.toNat < 0xD800 ∨ (0xDFFF < c.toNat ∧ c.toNat < 0x110000) := c.valid
  omega

theorem lead_lt {v : Nat} (h : v < 0x110000) : lead v < 256 := by
  unfold lead
  split_ifs <;> omega

/-- Only an ASCII character begins with an ASCII byte. -/
theorem le_lead {v : Nat} (h : 0x80 ≤ v) : 0x80 ≤ lead v := by
  unfold lead
  split_ifs <;> omega

/-- A larger character has no smaller first byte. -/
theorem lead_le_lead {v w : Nat} (h : v ≤ w) (hw : w < 0x110000) : lead v ≤ lead w := by
  unfold lead
  split_ifs <;> omega

/-- The first byte tells how many bytes follow, and has all the digits that they do not have. -/
theorem high_of_lead_eq {v w : Nat} (hv : v < 0x110000) (hw : w < 0x110000) (h : lead v = lead w) :
    tails v = tails w ∧ v / 0x40 ^ tails v = w / 0x40 ^ tails w := by
  unfold lead at h
  unfold tails
  split_ifs at h ⊢ <;> omega

/-- Digits are ordered as their numbers are, whatever follows them. -/
theorem digits_lt_digits {count v w : Nat} (h : v % 0x40 ^ count < w % 0x40 ^ count) (x y : Bytes) :
    digits count v ++ x < digits count w ++ y := by
  induction count with
  | zero => omega
  | succ count ih =>
    rw [Nat.mod_pow_succ, Nat.mod_pow_succ] at h
    have hv : v / 0x40 ^ count % 0x40 < 0x40 := Nat.mod_lt _ (by decide)
    have hw : w / 0x40 ^ count % 0x40 < 0x40 := Nat.mod_lt _ (by decide)
    have hlow : w % 0x40 ^ count < 0x40 ^ count := Nat.mod_lt _ (Nat.pow_pos (by decide))
    rw [digits, digits, List.cons_append, List.cons_append, List.cons_lt_cons_iff,
      byte_lt_byte (by omega) (by omega)]
    rcases Nat.lt_trichotomy (v / 0x40 ^ count % 0x40) (w / 0x40 ^ count % 0x40) with hlt | heq | hgt
    · exact Or.inl (Nat.add_lt_add_left hlt _)
    · rw [heq] at h ⊢
      exact Or.inr ⟨rfl, ih (by omega)⟩
    · -- a larger digit weighs more than all digits behind it
      have hmore := Nat.mul_le_mul_left (0x40 ^ count) (Nat.succ_le_of_lt hgt)
      rw [Nat.mul_succ] at hmore
      omega

/-- **A smaller character has smaller bytes**, whatever follows the two. -/
theorem encodeChar_lt_encodeChar {c d : Char} (h : c < d) (x y : Bytes) :
    encodeChar c ++ x < encodeChar d ++ y := by
  have hcd : c.toNat < d.toNat := h
  have hc := toNat_lt_of_char c
  have hd := toNat_lt_of_char d
  rw [encodeChar_eq, encodeChar_eq, List.cons_append, List.cons_append, List.cons_lt_cons_iff,
    byte_lt_byte (lead_lt hc) (lead_lt hd)]
  rcases Nat.lt_or_eq_of_le (lead_le_lead (Nat.le_of_lt hcd) hd) with hlt | heq
  · exact Or.inl hlt
  · obtain ⟨htails, hhigh⟩ := high_of_lead_eq hc hd heq
    refine Or.inr ⟨by rw [heq], ?_⟩
    rw [htails] at hhigh ⊢
    refine digits_lt_digits ?_ x y
    have hsplit := Nat.div_add_mod c.toNat (0x40 ^ tails d.toNat)
    have hsplit' := Nat.div_add_mod d.toNat (0x40 ^ tails d.toNat)
    rw [hhigh] at hsplit
    omega

/-! ## Texts -/

theorem flatMap_lt_flatMap {a b : List Char} (h : a < b) :
    a.flatMap encodeChar < b.flatMap encodeChar := by
  induction a generalizing b with
  | nil =>
    cases b with
    | nil => exact absurd h (List.not_lt_nil [])
    | cons d b =>
      rw [List.flatMap_nil, List.flatMap_cons, encodeChar_eq, List.cons_append]
      exact List.nil_lt_cons _ _
  | cons c a ih =>
    cases b with
    | nil => exact absurd h (List.not_lt_nil _)
    | cons d b =>
      rw [List.flatMap_cons, List.flatMap_cons]
      rcases List.cons_lt_cons_iff.mp h with hlt | ⟨rfl, hrest⟩
      · exact encodeChar_lt_encodeChar hlt _ _
      · exact List.append_left_lt (ih hrest)

theorem encode_lt_encode {s t : String} (h : s < t) : encode s < encode t :=
  flatMap_lt_flatMap (String.lt_iff.mp h)

/-- **Texts are ordered as their bytes are.** -/
theorem encode_lt_encode_iff {s t : String} : encode s < encode t ↔ s < t := by
  constructor
  · intro h
    by_contra hnot
    by_cases hgt : t < s
    · exact absurd h (List.lt_asymm (encode_lt_encode hgt))
    · have heq : s = t := String.le_antisymm (String.not_lt.mp hgt) (String.not_lt.mp hnot)
      rw [heq] at h
      exact absurd h (List.lt_irrefl _)
  · exact encode_lt_encode

end TopicRelay.Text.Utf8
