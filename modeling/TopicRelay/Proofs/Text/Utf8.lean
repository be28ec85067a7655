/-
  The bytes of a text are read back as that text.

  `encodeChar` has four shapes, one for each number of bytes, and `next` tells them apart by the
  first byte alone.  So the proof has one lemma for each shape (`next_one` to `next_four`), which is
  arithmetic on the value of the character, and one induction over the text that uses them all.

  ASCII bytes are a text already: each of them is one character.
-/
import TopicRelay.Text.Utf8

namespace TopicRelay.Text.Utf8

/-! ## Bytes as numbers -/

theorem toNat_byte {n : Nat} (h : n < 256) : (UInt8.ofNat n).toNat = n :=
  UInt8.toNat_ofNat_of_lt' h

theorem byte_lt_iff {n : Nat} (hn : n < 256) (b : UInt8) : UInt8.ofNat n < b ↔ n < b.toNat := by
  rw [UInt8.lt_iff_toNat_lt, toNat_byte hn]

theorem byte_le_iff {n : Nat} (hn : n < 256) (b : UInt8) : UInt8.ofNat n ≤ b ↔ n ≤ b.toNat := by
  rw [UInt8.le_iff_toNat_le, toNat_byte hn]

theorem le_byte_iff {n : Nat} (hn : n < 256) (b : UInt8) : b ≤ UInt8.ofNat n ↔ b.toNat ≤ n := by
  rw [UInt8.le_iff_toNat_le, toNat_byte hn]

theorem byte_eq_iff {n : Nat} (hn : n < 256) (b : UInt8) : UInt8.ofNat n = b ↔ n = b.toNat := by
  rw [← UInt8.toNat_inj, toNat_byte hn]

theorem isTail_byte {n : Nat} (hlo : 0x80 ≤ n) (hhi : n ≤ 0xBF) : isTail (UInt8.ofNat n) = true := by
  have hn : n < 256 := by omega
  rw [isTail, Bool.and_eq_true, decide_eq_true_eq, decide_eq_true_eq, le_byte_iff hn, byte_le_iff hn]
  exact ⟨hlo, hhi⟩

theorem tailBits_byte {n : Nat} (h : n < 0x40) : tailBits (UInt8.ofNat (0x80 + n)) = n := by
  have hn : (UInt8.ofNat (0x80 + n)).toNat = 0x80 + n := toNat_byte (by omega)
  unfold tailBits
  omega

/-- The second byte of a character is recognized by its range, which the first byte may narrow. -/
theorem isSecond_byte {l b : Nat} (hl : l < 256) (hlo : 0x80 ≤ b) (hhi : b ≤ 0xBF)
    (hE0 : l = 0xE0 → 0xA0 ≤ b) (hED : l = 0xED → b ≤ 0x9F)
    (hF0 : l = 0xF0 → 0x90 ≤ b) (hF4 : l = 0xF4 → b ≤ 0x8F) :
    isSecond (UInt8.ofNat l) (UInt8.ofNat b) = true := by
  have hb : b < 256 := by omega
  simp only [isSecond, byte_eq_iff hl, UInt8.reduceToNat]
  split
  · next h =>
    simp only [Bool.and_eq_true, decide_eq_true_eq, le_byte_iff hb, byte_le_iff hb, UInt8.reduceToNat]
    exact ⟨hE0 h, hhi⟩
  · split
    · next h =>
      simp only [Bool.and_eq_true, decide_eq_true_eq, le_byte_iff hb, byte_le_iff hb,
        UInt8.reduceToNat]
      exact ⟨hlo, hED h⟩
    · split
      · next h =>
        simp only [Bool.and_eq_true, decide_eq_true_eq, le_byte_iff hb, byte_le_iff hb,
          UInt8.reduceToNat]
        exact ⟨hF0 h, hhi⟩
      · split
        · next h =>
          simp only [Bool.and_eq_true, decide_eq_true_eq, le_byte_iff hb, byte_le_iff hb,
            UInt8.reduceToNat]
          exact ⟨hlo, hF4 h⟩
        · exact isTail_byte hlo hhi

/-! ## One lemma for each number of bytes -/

theorem next_one {v : Nat} (hhi : v < 0x80) (rest : Bytes) :
    next (UInt8.ofNat v) rest = (some (Char.ofNat v), rest) := by
  have h : UInt8.ofNat v < 0x80 := (byte_lt_iff (by omega) 0x80).mpr hhi
  rw [next.eq_def, if_pos h, toNat_byte (by omega)]

theorem next_two {v : Nat} (hlo : 0x80 ≤ v) (hhi : v < 0x800) (rest : Bytes) :
    next (UInt8.ofNat (0xC0 + v / 0x40)) (UInt8.ofNat (0x80 + v % 0x40) :: rest)
      = (some (Char.ofNat v), rest) := by
  have hl : 0xC0 + v / 0x40 < 256 := by omega
  have h0 : ¬ UInt8.ofNat (0xC0 + v / 0x40) < 0x80 := by
    simp only [byte_lt_iff hl, UInt8.reduceToNat]; omega
  have h1 : ¬ UInt8.ofNat (0xC0 + v / 0x40) < 0xC2 := by
    simp only [byte_lt_iff hl, UInt8.reduceToNat]; omega
  have h2 : UInt8.ofNat (0xC0 + v / 0x40) < 0xE0 := by
    simp only [byte_lt_iff hl, UInt8.reduceToNat]; omega
  have ht : isTail (UInt8.ofNat (0x80 + v % 0x40)) = true := isTail_byte (by omega) (by omega)
  rw [next.eq_def, if_neg h0, if_neg h1, if_pos h2]
  simp only [ht, if_true, toNat_byte hl, tailBits_byte (Nat.mod_lt v (by omega : 0x40 > 0))]
  rw [show (0xC0 + v / 0x40 - 0xC0) * 0x40 + v % 0x40 = v by omega]

theorem next_three {v : Nat} (hlo : 0x800 ≤ v) (hhi : v < 0x10000)
    (hv : v < 0xD800 ∨ 0xDFFF < v) (rest : Bytes) :
    next (UInt8.ofNat (0xE0 + v / 0x1000))
        (UInt8.ofNat (0x80 + v / 0x40 % 0x40) :: UInt8.ofNat (0x80 + v % 0x40) :: rest)
      = (some (Char.ofNat v), rest) := by
  have hl : 0xE0 + v / 0x1000 < 256 := by omega
  have h0 : ¬ UInt8.ofNat (0xE0 + v / 0x1000) < 0x80 := by
    simp only [byte_lt_iff hl, UInt8.reduceToNat]; omega
  have h1 : ¬ UInt8.ofNat (0xE0 + v / 0x1000) < 0xC2 := by
    simp only [byte_lt_iff hl, UInt8.reduceToNat]; omega
  have h2 : ¬ UInt8.ofNat (0xE0 + v / 0x1000) < 0xE0 := by
    simp only [byte_lt_iff hl, UInt8.reduceToNat]; omega
  have h3 : UInt8.ofNat (0xE0 + v / 0x1000) < 0xF0 := by
    simp only [byte_lt_iff hl, UInt8.reduceToNat]; omega
  -- too small a second byte would be an overlong form, and too large a one a surrogate
  have hs : isSecond (UInt8.ofNat (0xE0 + v / 0x1000)) (UInt8.ofNat (0x80 + v / 0x40 % 0x40)) = true :=
    isSecond_byte hl (by omega) (by omega) (by omega) (by omega) (by omega) (by omega)
  have ht : isTail (UInt8.ofNat (0x80 + v % 0x40)) = true := isTail_byte (by omega) (by omega)
  rw [next.eq_def, if_neg h0, if_neg h1, if_neg h2, if_pos h3]
  simp only [hs, ht, if_true, toNat_byte hl, tailBits_byte (Nat.mod_lt v (by omega : 0x40 > 0)),
    tailBits_byte (Nat.mod_lt (v / 0x40) (by omega : 0x40 > 0))]
  rw [show (0xE0 + v / 0x1000 - 0xE0) * 0x1000 + v / 0x40 % 0x40 * 0x40 + v % 0x40 = v by omega]

theorem next_four {v : Nat} (hlo : 0x10000 ≤ v) (hhi : v < 0x110000) (rest : Bytes) :
    next (UInt8.ofNat (0xF0 + v / 0x40000))
        (UInt8.ofNat (0x80 + v / 0x1000 % 0x40) :: UInt8.ofNat (0x80 + v / 0x40 % 0x40)
          :: UInt8.ofNat (0x80 + v % 0x40) :: rest)
      = (some (Char.ofNat v), rest) := by
  have hl : 0xF0 + v / 0x40000 < 256 := by omega
  have h0 : ¬ UInt8.ofNat (0xF0 + v / 0x40000) < 0x80 := by
    simp only [byte_lt_iff hl, UInt8.reduceToNat]; omega
  have h1 : ¬ UInt8.ofNat (0xF0 + v / 0x40000) < 0xC2 := by
    simp only [byte_lt_iff hl, UInt8.reduceToNat]; omega
  have h2 : ¬ UInt8.ofNat (0xF0 + v / 0x40000) < 0xE0 := by
    simp only [byte_lt_iff hl, UInt8.reduceToNat]; omega
  have h3 : ¬ UInt8.ofNat (0xF0 + v / 0x40000) < 0xF0 := by
    simp only [byte_lt_iff hl, UInt8.reduceToNat]; omega
  have h4 : UInt8.ofNat (0xF0 + v / 0x40000) < 0xF5 := by
    simp only [byte_lt_iff hl, UInt8.reduceToNat]; omega
  -- here too large a second byte would be beyond the last character
  have hs : isSecond (UInt8.ofNat (0xF0 + v / 0x40000)) (UInt8.ofNat (0x80 + v / 0x1000 % 0x40))
      = true :=
    isSecond_byte hl (by omega) (by omega) (by omega) (by omega) (by omega) (by omega)
  have ht : isTail (UInt8.ofNat (0x80 + v / 0x40 % 0x40)) = true := isTail_byte (by omega) (by omega)
  have hu : isTail (UInt8.ofNat (0x80 + v % 0x40)) = true := isTail_byte (by omega) (by omega)
  rw [next.eq_def, if_neg h0, if_neg h1, if_neg h2, if_neg h3, if_pos h4]
  simp only [hs, ht, hu, if_true, toNat_byte hl,
    tailBits_byte (Nat.mod_lt v (by omega : 0x40 > 0)),
    tailBits_byte (Nat.mod_lt (v / 0x40) (by omega : 0x40 > 0)),
    tailBits_byte (Nat.mod_lt (v / 0x1000) (by omega : 0x40 > 0))]
  rw [show (0xF0 + v / 0x40000 - 0xF0) * 0x40000 + v / 0x1000 % 0x40 * 0x1000
    + v / 0x40 % 0x40 * 0x40 + v % 0x40 = v by omega]

/-! ## Texts -/

/-- What a character is written as begins with a byte from which `next` reads it back. -/
theorem next_encodeChar (c : Char) (rest : Bytes) :
    ∃ lead tail, encodeChar c = lead :: tail ∧ next lead (tail ++ rest) = (some c, rest) := by
  have hv : c.toNat < 0xD800 ∨ (0xDFFF < c.toNat ∧ c.toNat < 0x110000) := c.valid
  have hc : Char.ofNat c.toNat = c := Char.ofNat_toNat c
  by_cases h1 : c.toNat < 0x80
  · refine ⟨_, _, by rw [encodeChar, if_pos h1], ?_⟩
    rw [List.nil_append, next_one h1, hc]
  · by_cases h2 : c.toNat < 0x800
    · refine ⟨_, _, by rw [encodeChar, if_neg h1, if_pos h2], ?_⟩
      rw [List.cons_append, List.nil_append, next_two (by omega) h2, hc]
    · by_cases h3 : c.toNat < 0x10000
      · refine ⟨_, _, by rw [encodeChar, if_neg h1, if_neg h2, if_pos h3], ?_⟩
        rw [List.cons_append, List.cons_append, List.nil_append,
          next_three (by omega) h3 (by omega), hc]
      · refine ⟨_, _, by rw [encodeChar, if_neg h1, if_neg h2, if_neg h3], ?_⟩
        rw [List.cons_append, List.cons_append, List.cons_append, List.nil_append,
          next_four (by omega) (by omega), hc]

theorem decodeFrom_encodeChar (seen : List Char) (c : Char) (rest : Bytes) :
    decodeFrom seen (encodeChar c ++ rest) = decodeFrom (c :: seen) rest := by
  obtain ⟨lead, tail, he, hn⟩ := next_encodeChar c rest
  rw [he, List.cons_append, decodeFrom, hn]

theorem decodeFrom_flatMap (cs : List Char) (seen : List Char) :
    decodeFrom seen (cs.flatMap encodeChar) = some (seen.reverse ++ cs) := by
  induction cs generalizing seen with
  | nil => rw [List.flatMap_nil, decodeFrom, List.append_nil]
  | cons c cs ih =>
    rw [List.flatMap_cons, decodeFrom_encodeChar, ih, List.reverse_cons, List.append_assoc,
      List.singleton_append]

/-- **Reading inverts writing.** -/
theorem decode?_encode (s : String) : decode? (encode s) = some s := by
  rw [decode?, encode, decodeFrom_flatMap, List.reverse_nil, List.nil_append, Option.map_some,
    String.ofList_toList]

theorem encode_injective {s t : String} (h : encode s = encode t) : s = t :=
  Option.some.inj (by rw [← decode?_encode s, h, decode?_encode t])

/-! ## Beginnings of a text -/

/-- The scanner does not look behind the character that it finds. -/
theorem next_append {lead : UInt8} {rest r : Bytes} {c : Char} (h : next lead rest = (some c, r))
    (more : Bytes) : next lead (rest ++ more) = (some c, r ++ more) := by
  rw [next.eq_def] at h ⊢
  -- a character is found in the same branch, with the same bytes before it
  grind

/-- **A decoder goes on** behind what it has read. -/
theorem decodeFrom_append {seen cs : List Char} {bs : Bytes} (h : decodeFrom seen bs = some cs)
    (more : Bytes) : decodeFrom seen (bs ++ more) = decodeFrom cs.reverse more := by
  fun_induction decodeFrom seen bs with
  | case1 seen =>
    cases h
    rw [List.nil_append, List.reverse_reverse]
  | case2 seen lead rest found c hfound ih =>
    have hnext : next lead (rest ++ more) = (some c, found.2 ++ more) :=
      next_append (Prod.ext hfound rfl) more
    rw [List.cons_append, decodeFrom, hnext]
    exact ih h
  | case3 seen lead rest found hnone => cases h

theorem length_le_of_decodeFrom {seen cs : List Char} {bs : Bytes}
    (h : decodeFrom seen bs = some cs) : seen.length ≤ cs.length := by
  fun_induction decodeFrom seen bs with
  | case1 seen =>
    cases h
    exact Nat.le_of_eq List.length_reverse.symm
  | case2 seen lead rest found c hfound ih => exact Nat.le_of_succ_le (ih h)
  | case3 seen lead rest found hnone => cases h

/-- Where there is a byte, there is a character. -/
theorem length_lt_of_decodeFrom {seen cs : List Char} {b : UInt8} {bs : Bytes}
    (h : decodeFrom seen (b :: bs) = some cs) : seen.length < cs.length := by
  rw [decodeFrom] at h
  split at h
  · exact length_le_of_decodeFrom h
  · cases h

/-- **A proper beginning of the bytes of a text is not that text.** -/
theorem eq_encode_of_beginning {s : String} {bs : Bytes} (hbeginning : bs <+: encode s)
    (h : decode? bs = some s) : bs = encode s := by
  obtain ⟨more, hmore⟩ := hbeginning
  obtain ⟨cs, hcs, rfl⟩ := Option.map_eq_some_iff.mp h
  have hrest : decodeFrom cs.reverse more = some cs := by
    rw [← decodeFrom_append hcs, hmore, encode, decodeFrom_flatMap, String.toList_ofList]
    rfl
  cases more with
  | nil => rw [← hmore, List.append_nil]
  | cons b more =>
    -- the characters were all there before this byte
    have hlonger := length_lt_of_decodeFrom hrest
    rw [List.length_reverse] at hlonger
    exact absurd hlonger (Nat.lt_irrefl _)
/-! ## ASCII -/

theorem encodeChar_ofNat {n : Nat} (h : n < 0x80) : encodeChar (Char.ofNat n) = [UInt8.ofNat n] := by
  have key : ∀ n < 0x80, encodeChar (Char.ofNat n) = [UInt8.ofNat n] := by decide
  exact key n h

/-- Bytes that are all ASCII are written for the text that has them as its characters. -/
theorem encode_text {bs : Bytes} (h : ∀ b ∈ bs, b < 0x80) : encode (Ascii.text bs) = bs := by
  rw [encode, Ascii.text, String.toList_ofList, List.flatMap_map]
  induction bs with
  | nil => rfl
  | cons b bs ih =>
    have hb : b.toNat < 0x80 := h b List.mem_cons_self
    rw [List.flatMap_cons, encodeChar_ofNat hb, UInt8.ofNat_toNat,
      ih fun c hc => h c (List.mem_cons_of_mem _ hc), List.singleton_append]

end TopicRelay.Text.Utf8
