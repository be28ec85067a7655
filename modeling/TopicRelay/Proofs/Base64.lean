/-
  Base64 text is read back as the bytes it was written for.

  Both directions gather what they have in reverse, so each has first to be said without that
  (`encodeFrom_eq`, `decodeFrom_encode`).  Then the proof goes by groups of three bytes, as the writer
  does: a group in the middle and a full group at the end are read by different functions, but give
  the same bytes.

  The text is ASCII, so it is also a text in the sense of `Text.Utf8`.
-/
import TopicRelay.Base64

namespace TopicRelay.Base64

/-! ## Symbols -/

theorem symbol_ne_equals : ∀ v < 64, symbol v ≠ Ascii.equals := by decide

theorem symbol_lt : ∀ v < 64, symbol v < 0x80 := by decide

/-! ## The six bit values of bytes -/

theorem div_four_lt (a : UInt8) : a.toNat / 4 < 64 := by have := a.toNat_lt; omega

theorem mod_four_lt (a b : UInt8) : a.toNat % 4 * 16 + b.toNat / 16 < 64 := by
  have := b.toNat_lt; omega

theorem mod_sixteen_lt (b c : UInt8) : b.toNat % 16 * 4 + c.toNat / 64 < 64 := by
  have := c.toNat_lt; omega

theorem ofNat_first (a : UInt8) {q : Nat} (hq : q < 16) :
    UInt8.ofNat (a.toNat / 4 * 4 + (a.toNat % 4 * 16 + q) / 16) = a := by
  rw [show a.toNat / 4 * 4 + (a.toNat % 4 * 16 + q) / 16 = a.toNat by omega, UInt8.ofNat_toNat]

theorem ofNat_second (p : Nat) (b : UInt8) {q : Nat} (hq : q < 4) :
    UInt8.ofNat ((p * 16 + b.toNat / 16) % 16 * 16 + (b.toNat % 16 * 4 + q) / 4) = b := by
  have := b.toNat_lt
  rw [show (p * 16 + b.toNat / 16) % 16 * 16 + (b.toNat % 16 * 4 + q) / 4 = b.toNat by omega,
    UInt8.ofNat_toNat]

theorem ofNat_third (p : Nat) (c : UInt8) :
    UInt8.ofNat ((p * 4 + c.toNat / 64) % 4 * 64 + c.toNat % 64) = c := by
  have := c.toNat_lt
  rw [show (p * 4 + c.toNat / 64) % 4 * 64 + c.toNat % 64 = c.toNat by omega, UInt8.ofNat_toNat]

/-! ## Groups -/

theorem decodeGroup_group (a b c : UInt8) :
    decodeGroup (symbol (a.toNat / 4)) (symbol (a.toNat % 4 * 16 + b.toNat / 16))
      (symbol (b.toNat % 16 * 4 + c.toNat / 64)) (symbol (c.toNat % 64)) = some [a, b, c] := by
  have hb := b.toNat_lt
  have hc := c.toNat_lt
  simp only [decodeGroup, value?_symbol _ (div_four_lt a), value?_symbol _ (mod_four_lt a b),
    value?_symbol _ (mod_sixteen_lt b c), value?_symbol _ (Nat.mod_lt c.toNat (by omega : 64 > 0)),
    Option.bind_eq_bind, Option.bind_some, Option.pure_def, ofNat_first a (by omega : b.toNat / 16 < 16),
    ofNat_second (a.toNat % 4) b (by omega : c.toNat / 64 < 4), ofNat_third]

theorem decodeLast_group (a b c : UInt8) :
    decodeLast (symbol (a.toNat / 4)) (symbol (a.toNat % 4 * 16 + b.toNat / 16))
      (symbol (b.toNat % 16 * 4 + c.toNat / 64)) (symbol (c.toNat % 64)) = some [a, b, c] := by
  have hb := b.toNat_lt
  have hc := c.toNat_lt
  have h3 := symbol_ne_equals _ (mod_sixteen_lt b c)
  have h4 := symbol_ne_equals _ (Nat.mod_lt c.toNat (by omega : 64 > 0))
  simp only [decodeLast, value?_symbol _ (div_four_lt a), value?_symbol _ (mod_four_lt a b),
    value?_symbol _ (mod_sixteen_lt b c), value?_symbol _ (Nat.mod_lt c.toNat (by omega : 64 > 0)),
    Option.bind_eq_bind, Option.bind_some, Option.pure_def, if_neg h3, if_neg h4,
    ofNat_first a (by omega : b.toNat / 16 < 16),
    ofNat_second (a.toNat % 4) b (by omega : c.toNat / 64 < 4), ofNat_third]

theorem decodeLast_one (a : UInt8) :
    decodeLast (symbol (a.toNat / 4)) (symbol (a.toNat % 4 * 16)) Ascii.equals Ascii.equals
      = some [a] := by
  have ha := a.toNat_lt
  have hq : a.toNat % 4 * 16 < 64 := by omega
  have hz : a.toNat % 4 * 16 % 16 = 0 := by omega
  have hv := ofNat_first a (show 0 < 16 by omega)
  rw [Nat.add_zero] at hv
  simp only [decodeLast, value?_symbol _ (div_four_lt a), value?_symbol _ hq, Option.bind_eq_bind,
    Option.bind_some, Option.pure_def, hz, and_self, if_true, hv]

theorem decodeLast_two (a b : UInt8) :
    decodeLast (symbol (a.toNat / 4)) (symbol (a.toNat % 4 * 16 + b.toNat / 16))
      (symbol (b.toNat % 16 * 4)) Ascii.equals = some [a, b] := by
  have hb := b.toNat_lt
  have hr : b.toNat % 16 * 4 < 64 := by omega
  have hz : b.toNat % 16 * 4 % 4 = 0 := by omega
  have h3 := symbol_ne_equals _ hr
  have hv := ofNat_second (a.toNat % 4) b (show 0 < 4 by omega)
  rw [Nat.add_zero] at hv
  simp only [decodeLast, value?_symbol _ (div_four_lt a), value?_symbol _ (mod_four_lt a b),
    value?_symbol _ hr, Option.bind_eq_bind, Option.bind_some, Option.pure_def, if_neg h3, hz,
    if_true, ofNat_first a (by omega : b.toNat / 16 < 16), hv]

/-! ## Texts -/

/-- Induction over bytes in groups of three. -/
theorem group_induction {motive : Bytes → Prop} (none : motive []) (one : ∀ a, motive [a])
    (two : ∀ a b, motive [a, b])
    (more : ∀ a b c rest, motive rest → motive (a :: b :: c :: rest)) : ∀ bs, motive bs
  | [] => none
  | [a] => one a
  | [a, b] => two a b
  | a :: b :: c :: rest => more a b c rest (group_induction none one two more rest)

theorem encodeFrom_eq (written bs : Bytes) : encodeFrom written bs = written.reverse ++ encode bs := by
  induction bs using group_induction generalizing written with
  | none => rfl
  | one a => rfl
  | two a b => rfl
  | more a b c rest ih =>
    rw [encode, encodeFrom, encodeFrom, ih, ih, List.append_nil, List.reverse_append,
      List.reverse_reverse, List.append_assoc]

theorem encode_group (a b c : UInt8) (rest : Bytes) :
    encode (a :: b :: c :: rest) = group a b c ++ encode rest := by
  rw [encode, encodeFrom, encodeFrom_eq, List.append_nil, List.reverse_reverse]

theorem decodeFrom_four (read : Bytes) (a b c d : UInt8) :
    decodeFrom read [a, b, c, d] = (decodeLast a b c d).map (read.reverse ++ ·) := by
  rw [decodeFrom]

/-- A full group is read in the same way whether or not something follows it. -/
theorem decodeFrom_group (read : Bytes) (a b c : UInt8) (text : Bytes) :
    decodeFrom read (group a b c ++ text) = decodeFrom ([c, b, a] ++ read) text := by
  rcases text with - | ⟨s, text⟩
  · rw [List.append_nil, group, decodeFrom_four, decodeLast_group, Option.map_some, decodeFrom,
      List.reverse_append]
    rfl
  · rw [group, List.cons_append, List.cons_append, List.cons_append, List.cons_append,
      List.nil_append, decodeFrom, decodeGroup_group]
    · rfl
    · rintro ⟨⟩

theorem decodeFrom_encode (read bs : Bytes) : decodeFrom read (encode bs) = some (read.reverse ++ bs) := by
  induction bs using group_induction generalizing read with
  | none => rw [List.append_nil]; rfl
  | one a =>
    show decodeFrom read (lastGroup [a]) = _
    rw [lastGroup, decodeFrom_four, decodeLast_one, Option.map_some]
  | two a b =>
    show decodeFrom read (lastGroup [a, b]) = _
    rw [lastGroup, decodeFrom_four, decodeLast_two, Option.map_some]
  | more a b c rest ih =>
    rw [encode_group, decodeFrom_group, ih, List.reverse_append, List.append_assoc]
    rfl

/-- **Reading inverts writing.** -/
theorem decode?_encode (bs : Bytes) : decode? (encode bs) = some bs := by
  rw [decode?, decodeFrom_encode, List.reverse_nil, List.nil_append]

/-- The text is ASCII. -/
theorem lt_of_mem_encode (bs : Bytes) : ∀ b ∈ encode bs, b < 0x80 := by
  have heq : Ascii.equals < 0x80 := by decide
  induction bs using group_induction with
  | none => intro b hb; exact absurd hb List.not_mem_nil
  | one a =>
    have ha := a.toNat_lt
    show ∀ b ∈ lastGroup [a], _
    simp only [lastGroup, List.forall_mem_cons]
    exact ⟨symbol_lt _ (div_four_lt a), symbol_lt _ (by omega), heq, heq,
      fun _ h => absurd h List.not_mem_nil⟩
  | two a b =>
    show ∀ s ∈ lastGroup [a, b], _
    simp only [lastGroup, List.forall_mem_cons]
    exact ⟨symbol_lt _ (div_four_lt a), symbol_lt _ (mod_four_lt a b), symbol_lt _ (by omega), heq,
      fun _ h => absurd h List.not_mem_nil⟩
  | more a b c rest ih =>
    intro s hs
    rw [encode_group, List.mem_append] at hs
    rcases hs with hs | hs
    · revert s
      simp only [group, List.forall_mem_cons]
      exact ⟨symbol_lt _ (div_four_lt a), symbol_lt _ (mod_four_lt a b),
        symbol_lt _ (mod_sixteen_lt b c), symbol_lt _ (Nat.mod_lt _ (by omega)),
        fun _ h => absurd h List.not_mem_nil⟩
    · exact ih s hs

end TopicRelay.Base64
