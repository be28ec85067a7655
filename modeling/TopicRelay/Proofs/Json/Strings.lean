/-
  Strings are read back as they were written.

  The writer escapes byte by byte, and the reader undoes one escape at a time; so there is one lemma
  for each of the three ways in which a byte is written (by letter, by number, as it is), one that
  puts them together (`stringFrom_escape`), and one induction over the contents.
-/
import TopicRelay.Json.Lexeme
import TopicRelay.Json.Printer
import TopicRelay.Proofs.Text.Utf8

namespace TopicRelay.Json.Lexeme

open Text.Utf8 (encodeChar_ofNat)

/-! ## Escapes -/

/-- A letter is read as the byte that it stands for. -/
theorem escaped?_of_letter? {b l : UInt8} (h : Printer.letter? b = some l) :
    escaped? l = some b ∧ l ≠ unicodeMark := by
  unfold Printer.letter? at h
  split at h
  · next hb => cases h; cases hb; decide
  split at h
  · next hb => cases h; cases hb; decide
  split at h
  · next hb => cases h; cases hb; decide
  split at h
  · next hb => cases h; cases hb; decide
  split at h
  · next hb => cases h; cases hb; decide
  split at h
  · next hb => cases h; cases hb; decide
  split at h
  · next hb => cases h; cases hb; decide
  · cases h

theorem hexValue?_hexDigit : ∀ n < 16, Ascii.hexValue? (Ascii.hexDigit n) = some n := by decide

/-- The four digits of a byte are read as its number. -/
theorem hex4_ofByte (b : UInt8) (rest : Bytes) :
    hex4 (Ascii.zero :: Ascii.zero :: (Hex.ofByte b ++ rest)) = .ok (b.toNat, rest) := by
  have hb := b.toNat_lt
  have h0 : Ascii.hexValue? Ascii.zero = some 0 := by decide
  have hn : 0 * 0x1000 + 0 * 0x100 + b.toNat / 16 * 0x10 + b.toNat % 16 = b.toNat := by omega
  simp only [Hex.ofByte, List.cons_append, List.nil_append, hex4, h0,
    hexValue?_hexDigit (b.toNat / 16) (by omega), hexValue?_hexDigit (b.toNat % 16) (by omega), hn]

/-- An escape by number gives the byte back.  Only control characters are written like that, so no
    surrogate comes into it. -/
theorem unicodeEscape_ofByte {b : UInt8} (hb : b < 0x20) (rest : Bytes) :
    unicodeEscape (Ascii.zero :: Ascii.zero :: (Hex.ofByte b ++ rest)) = .ok ([b], rest) := by
  have hn : b.toNat < 0x20 := hb
  have ht : isTrailing b.toNat = false := by
    rw [isTrailing, decide_eq_false (by omega), Bool.false_and]
  have hl : isLeading b.toNat = false := by
    rw [isLeading, decide_eq_false (by omega), Bool.false_and]
  simp only [unicodeEscape, hex4_ofByte, ht, hl, Bool.false_eq_true, if_false,
    encodeChar_ofNat (by omega : b.toNat < 0x80), UInt8.ofNat_toNat]

/-! ## Strings -/

theorem stringFrom_quote (seen rest : Bytes) :
    stringFrom seen (Ascii.quote :: rest) = .ok (seen.reverse, rest) := by
  rw [stringFrom, if_pos rfl]

theorem stringFrom_backslash {seen s t bs : Bytes} (h : escape s = .ok (bs, t)) :
    stringFrom seen (Ascii.backslash :: s) = stringFrom (bs.reverse ++ seen) t := by
  rw [stringFrom, if_neg (by decide), if_pos rfl]
  split
  · next h' => rw [h] at h'; cases h'
  · next h' => rw [h] at h'; cases h'; rfl

theorem stringFrom_plain {b : UInt8} (hq : b ≠ Ascii.quote) (hs : b ≠ Ascii.backslash)
    (hc : ¬ b < 0x20) (seen rest : Bytes) :
    stringFrom seen (b :: rest) = stringFrom (b :: seen) rest := by
  rw [stringFrom, if_neg hq, if_neg hs, if_neg hc]

/-- **One byte of a string.**  However a byte was written, it is read as itself. -/
theorem stringFrom_escape (b : UInt8) (seen rest : Bytes) :
    stringFrom seen (Printer.escape b ++ rest) = stringFrom (b :: seen) rest := by
  unfold Printer.escape
  split
  · next l hl =>
    obtain ⟨he, hne⟩ := escaped?_of_letter? hl
    have h : escape (l :: rest) = .ok ([b], rest) := by
      simp only [escape, if_neg hne, he]
    exact stringFrom_backslash h
  · next hl =>
    split
    · next hb =>
      have h : escape (unicodeMark :: Ascii.zero :: Ascii.zero :: (Hex.ofByte b ++ rest))
          = .ok ([b], rest) := by
        rw [escape, if_pos rfl, unicodeEscape_ofByte hb]
      exact stringFrom_backslash h
    · next hb =>
      refine stringFrom_plain ?_ ?_ hb seen rest
      · rintro rfl; revert hl; decide
      · rintro rfl; revert hl; decide

theorem stringFrom_flatMap (contents seen rest : Bytes) :
    stringFrom seen (contents.flatMap Printer.escape ++ Ascii.quote :: rest)
      = .ok (seen.reverse ++ contents, rest) := by
  induction contents generalizing seen with
  | nil => rw [List.flatMap_nil, List.nil_append, stringFrom_quote, List.append_nil]
  | cons b contents ih =>
    rw [List.flatMap_cons, List.append_assoc, stringFrom_escape, ih, List.reverse_cons,
      List.append_assoc, List.singleton_append]

/-- **Reading inverts writing.**  What follows the closing quote does not matter. -/
theorem text_text (s : String) (rest : Bytes) :
    text ((Text.Utf8.encode s).flatMap Printer.escape ++ Ascii.quote :: rest) = .ok (s, rest) := by
  have h := stringFrom_flatMap (Text.Utf8.encode s) [] rest
  rw [List.reverse_nil, List.nil_append] at h
  simp only [text, h, Text.Utf8.decode?_encode]

end TopicRelay.Json.Lexeme
