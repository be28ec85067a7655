/-
  Values are read back as they were written.

  `Reads item bytes a` says that `item` reads `a` from `bytes`, whatever follows, as long as it is
  something that may follow a value: nothing, a comma or a closing bracket.  That is all that is
  needed to put values together: an array reads its items if each of them is read, and an object its
  entries.  So each kind of value has one lemma here, and a record type needs no proof by itself but
  a list of its fields (`Layout.reads`).

  Only the compact form is treated: what the writer writes has no blanks in it.
-/
import TopicRelay.Json.Record
import TopicRelay.Proofs.Base64
import TopicRelay.Proofs.Json.Strings
import TopicRelay.Proofs.Text.Numeral

namespace TopicRelay.Json

variable {α β ρ : Type}

/-! ## What may follow a value, and what a value begins with -/

/-- Nothing follows, or a comma or a closing bracket does. -/
def EndsValue (rest : Bytes) : Prop :=
  ∀ b ∈ rest.head?, b = Ascii.comma ∨ b = Ascii.closeBracket ∨ b = Ascii.closeBrace

theorem EndsValue.nil : EndsValue [] := by intro b hb; cases hb

theorem EndsValue.comma (rest : Bytes) : EndsValue (Ascii.comma :: rest) := by
  intro b hb; cases hb; exact Or.inl rfl

theorem EndsValue.closeBracket (rest : Bytes) : EndsValue (Ascii.closeBracket :: rest) := by
  intro b hb; cases hb; exact Or.inr (Or.inl rfl)

theorem EndsValue.closeBrace (rest : Bytes) : EndsValue (Ascii.closeBrace :: rest) := by
  intro b hb; cases hb; exact Or.inr (Or.inr rfl)

/-- Values have a first byte, which is no blank and no closing bracket. -/
def StartsValue (bytes : Bytes) : Prop :=
  ∃ b r, bytes = b :: r ∧ Lexeme.isSpace b = false ∧ b ≠ Ascii.closeBracket

/-- What is written between items or entries ends a value as well. -/
theorem EndsValue.flatMap_comma {l : List Bytes} {rest : Bytes} (h : EndsValue rest) :
    EndsValue (l.flatMap (Ascii.comma :: ·) ++ rest) := by
  cases l with
  | nil => exact h
  | cons a l => exact EndsValue.comma _

theorem Lexeme.skipBlanks_cons {b : UInt8} (h : Lexeme.isSpace b = false) (r : Bytes) :
    Lexeme.skipBlanks (b :: r) = b :: r := by
  rw [Lexeme.skipBlanks, List.dropWhile_cons, h]; rfl

theorem afterColon_colon (r : Bytes) : afterColon (Ascii.colon :: r) = .ok r := by
  rw [afterColon, Lexeme.skipBlanks_cons (by decide)]; exact if_pos rfl

theorem Printer.commaSeparated_cons (a : Bytes) (l : List Bytes) :
    Printer.commaSeparated (a :: l) = a ++ l.flatMap (Ascii.comma :: ·) := by
  induction l generalizing a with
  | nil => rw [Printer.commaSeparated, List.flatMap_nil, List.append_nil]
  | cons b l ih => rw [Printer.commaSeparated, ih, List.flatMap_cons, List.cons_append]; simp

/-! ## Turns -/

theorem nextItem_closeBracket (first : Bool) (r : Bytes) :
    nextItem first (Ascii.closeBracket :: r) = .ok (.closed r) := by
  rw [nextItem, Lexeme.skipBlanks_cons (by decide)]; exact if_pos rfl

theorem nextItem_first {s : Bytes} (h : StartsValue s) (rest : Bytes) :
    nextItem true (s ++ rest) = .ok (.more (s ++ rest)) := by
  obtain ⟨b, r, rfl, hb, hne⟩ := h
  rw [nextItem, List.cons_append, Lexeme.skipBlanks_cons hb]
  simp only [if_neg hne, if_true]

theorem nextItem_comma {s : Bytes} (h : StartsValue s) (rest : Bytes) :
    nextItem false (Ascii.comma :: (s ++ rest)) = .ok (.more (s ++ rest)) := by
  obtain ⟨b, r, rfl, hb, hne⟩ := h
  rw [nextItem, Lexeme.skipBlanks_cons (by decide)]
  simp only [List.cons_append, Lexeme.skipBlanks_cons hb, if_neg hne]
  rfl

theorem nextKey_closeBrace (first : Bool) (r : Bytes) :
    nextKey first (Ascii.closeBrace :: r) = .ok (.closed r) := by
  rw [nextKey, Lexeme.skipBlanks_cons (by decide)]; exact if_pos rfl

theorem nextKey_first (r : Bytes) : nextKey true (Ascii.quote :: r) = .ok (.more r) := by
  rw [nextKey, Lexeme.skipBlanks_cons (by decide)]; rfl

theorem nextKey_comma (r : Bytes) :
    nextKey false (Ascii.comma :: Ascii.quote :: r) = .ok (.more r) := by
  rw [nextKey, Lexeme.skipBlanks_cons (by decide)]
  simp only [Lexeme.skipBlanks_cons (show Lexeme.isSpace Ascii.quote = false by decide)]
  rfl

/-! ## Numbers -/

theorem EndsValue.not_isDigit {rest : Bytes} (h : EndsValue rest) :
    rest.head?.any Ascii.isDigit = false := by
  cases rest with
  | nil => rfl
  | cons b r =>
    show Ascii.isDigit b = false
    rcases h b rfl with rfl | rfl | rfl <;> decide

theorem takeWhile_isDigit {ds rest : Bytes} (hds : ∀ b ∈ ds, Ascii.isDigit b = true)
    (h : rest.head?.any Ascii.isDigit = false) :
    (ds ++ rest).takeWhile Ascii.isDigit = ds ∧ (ds ++ rest).dropWhile Ascii.isDigit = rest := by
  have hr : rest.takeWhile Ascii.isDigit = [] ∧ rest.dropWhile Ascii.isDigit = rest := by
    cases rest with
    | nil => exact ⟨rfl, rfl⟩
    | cons b r =>
      have hb : Ascii.isDigit b = false := h
      rw [List.takeWhile_cons, List.dropWhile_cons, hb]
      exact ⟨rfl, rfl⟩
  rw [List.takeWhile_append_of_pos hds, List.dropWhile_append_of_pos hds, hr.1, hr.2]
  exact ⟨List.append_nil ds, rfl⟩

namespace Lexeme

theorem numberFrom_of_endsValue {digits rest : Bytes} (hv : Text.Numeral.value digits ≤ maxWord)
    (h : EndsValue rest) :
    numberFrom false digits rest = .ok (.natural (Text.Numeral.value digits), rest) := by
  have hw : wholeNumber false digits = .natural (Text.Numeral.value digits) := by
    rw [wholeNumber]; exact if_pos hv
  cases rest with
  | nil => simp [numberFrom, hw]
  | cons b r =>
    have hb : b ≠ Ascii.dot ∧ isExponentMark b = false := by
      rcases h b rfl with rfl | rfl | rfl <;> decide
    simp [numberFrom, hw, hb.1, hb.2]

/-- A numeral is read as its number. -/
theorem number_bytes {n : Nat} (hn : n ≤ maxWord) {rest : Bytes} (h : EndsValue rest) :
    number (Text.Numeral.bytes n ++ rest) = .ok (.natural n, rest) := by
  have hv : Text.Numeral.value (Text.Numeral.bytes n) ≤ maxWord := by
    rw [Text.Numeral.value_bytes]; exact hn
  have hdigits := Text.Numeral.isDigit_of_mem_bytes n
  have hfrom := numberFrom_of_endsValue hv h
  rw [Text.Numeral.value_bytes] at hfrom
  rcases Text.Numeral.bytes_cases n with hb | ⟨b, r, hb, hne⟩
  · rw [hb] at hfrom ⊢
    have hminus : (Ascii.zero :: rest).head? ≠ some Ascii.minus := by
      rw [List.head?_cons]; decide
    rw [List.singleton_append, number, if_neg hminus, unsignedNumber, if_pos rfl, h.not_isDigit]
    exact hfrom
  · rw [hb] at hfrom hdigits ⊢
    have hd : Ascii.isDigit b = true := hdigits b List.mem_cons_self
    obtain ⟨ht, hw⟩ := takeWhile_isDigit (fun c hc => hdigits c (List.mem_cons_of_mem _ hc))
      h.not_isDigit
    have hminus : (b :: (r ++ rest)).head? ≠ some Ascii.minus := by
      rintro ⟨⟩; revert hd; decide
    rw [List.cons_append, number, if_neg hminus, unsignedNumber, if_neg hne, if_pos hd, ht, hw]
    exact hfrom

/-- A word is taken where it stands. -/
theorem expectWord_append (word rest : Bytes) : expectWord word (word ++ rest) = .ok rest := by
  induction word with
  | nil => rfl
  | cons b word ih => rw [List.cons_append, expectWord, if_pos rfl, ih]

end Lexeme

/-! ## Readers of single values -/

/-- The reader reads `a` from `bytes`, and leaves what follows. -/
structure Reads (item : Reader α) (bytes : Bytes) (a : α) : Prop where
  starts : StartsValue bytes
  run : ∀ rest, EndsValue rest → item.run (bytes ++ rest) = .ok (a, rest)

namespace Reads

theorem map {item : Reader α} {bytes : Bytes} {a : α} (h : Reads item bytes a) (f : α → β) :
    Reads (item.map f) bytes (f a) := by
  refine ⟨h.starts, fun rest hrest => ?_⟩
  simp only [Reader.map, h.run rest hrest]

theorem check {item : Reader α} {bytes : Bytes} {a : α} {b : β} (h : Reads item bytes a)
    {f : α → Except ReadError β} (hf : f a = .ok b) : Reads (item.check f) bytes b := by
  refine ⟨h.starts, fun rest hrest => ?_⟩
  simp only [Reader.check, h.run rest hrest, hf]

theorem text (s : String) : Reads Reader.text (Printer.text s) s := by
  refine ⟨⟨Ascii.quote, _, rfl, by decide, by decide⟩, fun rest _ => ?_⟩
  rw [Printer.text, Printer.quoted, List.cons_append, List.append_assoc]
  simp only [Reader.text, Reader.textAs, Reader.leaf,
    Lexeme.skipBlanks_cons (show Lexeme.isSpace Ascii.quote = false by decide), beq_self_eq_true, if_true]
  exact Lexeme.text_text s rest

theorem natural (expected : String) {bound n : Nat} (hn : n ≤ bound) (hb : bound ≤ Lexeme.maxWord) :
    Reads (Reader.natural expected bound) (Printer.natural n) n := by
  obtain ⟨b, r, hbytes⟩ := List.exists_cons_of_ne_nil (Text.Numeral.bytes_ne_nil n)
  have hd : Ascii.isDigit b = true :=
    Text.Numeral.isDigit_of_mem_bytes n b (by rw [hbytes]; exact List.mem_cons_self)
  have hspace : Lexeme.isSpace b = false := by
    rw [Bool.eq_false_iff]; intro hs
    simp only [Lexeme.isSpace, Bool.or_eq_true, beq_iff_eq] at hs
    rcases hs with ((rfl | rfl) | rfl) | rfl <;> revert hd <;> decide
  have hbracket : b ≠ Ascii.closeBracket := by rintro rfl; revert hd; decide
  rw [Printer.natural, hbytes]
  refine ⟨⟨b, r, rfl, hspace, hbracket⟩, fun rest hrest => ?_⟩
  have hnum := Lexeme.number_bytes (Nat.le_trans hn hb) hrest
  rw [hbytes, List.cons_append] at hnum
  rw [List.cons_append]
  simp only [Reader.natural, Reader.leaf, Lexeme.skipBlanks_cons hspace, hd, Bool.or_true, if_true,
    hnum, if_pos hn]

theorem word16 (n : UInt16) : Reads Reader.word16 (Printer.natural n.toNat) n := by
  have h := (natural "u16" (Nat.le_sub_one_of_lt n.toNat_lt) (by decide)).map UInt16.ofNat
  rw [UInt16.ofNat_toNat] at h
  exact h

theorem word32 (n : UInt32) : Reads Reader.word32 (Printer.natural n.toNat) n := by
  have h := (natural "u32" (Nat.le_sub_one_of_lt n.toNat_lt) (by decide)).map UInt32.ofNat
  rw [UInt32.ofNat_toNat] at h
  exact h

/-- The first byte of a truth value says which of the two words has to follow. -/
theorem boolean (b : Bool) : Reads Reader.boolean (Printer.boolean b) b := by
  cases b with
  | false =>
    refine ⟨⟨0x66, Ascii.bytes "alse", by decide, by decide, by decide⟩, fun rest _ => ?_⟩
    show Reader.boolean.run (0x66 :: (Ascii.bytes "alse" ++ rest)) = _
    simp only [Reader.boolean, Reader.leaf, show (0x66 : UInt8) ≠ 0x74 by decide, if_false,
      Lexeme.skipBlanks_cons (show Lexeme.isSpace 0x66 = false by decide),
      Lexeme.expectWord_append (Ascii.bytes "alse") rest]
    rfl
  | true =>
    refine ⟨⟨0x74, Ascii.bytes "rue", by decide, by decide, by decide⟩, fun rest _ => ?_⟩
    show Reader.boolean.run (0x74 :: (Ascii.bytes "rue" ++ rest)) = _
    simp only [Reader.boolean, Reader.leaf, if_true,
      Lexeme.skipBlanks_cons (show Lexeme.isSpace 0x74 = false by decide),
      Lexeme.expectWord_append (Ascii.bytes "rue") rest]
    rfl

/-- A payload is ASCII text, and none of it is lost on the way through a string. -/
theorem payload (bs : Bytes) : Reads Reader.payload (Printer.quoted (Base64.encode bs)) bs := by
  have htext : Text.Utf8.encode (Ascii.text (Base64.encode bs)) = Base64.encode bs :=
    Text.Utf8.encode_text (Base64.lt_of_mem_encode bs)
  have h := text (Ascii.text (Base64.encode bs))
  rw [Printer.text, htext] at h
  refine h.check ?_
  rw [htext, Base64.decode?_encode]

/-- Null is read as nothing. -/
theorem null (item : Reader α) : Reads (Reader.nullable item) (Ascii.bytes "null") none := by
  refine ⟨⟨0x6E, Ascii.bytes "ull", by decide, by decide, by decide⟩, fun rest hrest => ?_⟩
  show (Reader.nullable item).run (0x6E :: (Ascii.bytes "ull" ++ rest)) = _
  have hword : Lexeme.expectWord (Ascii.bytes "ull") (Ascii.bytes "ull" ++ rest) = .ok rest :=
    Lexeme.expectWord_append _ rest
  simp only [Reader.nullable, Lexeme.skipBlanks_cons (show Lexeme.isSpace 0x6E = false by decide),
    if_true, hword]

/-- A value that does not begin like null is read as itself. -/
theorem nullable {item : Reader α} {bytes : Bytes} {a : α} (h : Reads item bytes a)
    (hn : bytes.head? ≠ some 0x6E) : Reads (Reader.nullable item) bytes (some a) := by
  refine ⟨h.starts, fun rest hrest => ?_⟩
  have hrun := h.run rest hrest
  obtain ⟨b, r, rfl, hb, -⟩ := h.starts
  have hne : b ≠ 0x6E := fun hc => hn (by rw [hc]; rfl)
  rw [List.cons_append] at hrun ⊢
  simp only [Reader.nullable, Lexeme.skipBlanks_cons hb, if_neg hne, hrun]

end Reads
end TopicRelay.Json
