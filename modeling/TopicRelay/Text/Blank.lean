/-
  Blank characters, trimming, and ASCII case.

  A name that consists of blank characters only counts as missing everywhere in this library, and
  scheme names are read with blanks around them removed.  "Blank" is the Unicode property
  White_Space: 25 characters, the last of them the ideographic space.  Zero-width characters
  (U+200B, U+FEFF) and the Mongolian vowel separator (U+180E) are not blank.
-/

namespace TopicRelay.Text

/-- A character with the Unicode property White_Space. -/
def isBlank (c : Char) : Bool :=
  let v := c.toNat
  (0x09 ≤ v && v ≤ 0x0D) || v == 0x20 || v == 0x85 || v == 0xA0 || v == 0x1680
    || (0x2000 ≤ v && v ≤ 0x200A) || v == 0x2028 || v == 0x2029 || v == 0x202F || v == 0x205F
    || v == 0x3000

/-- A text with nothing but blank characters in it, the empty text included. -/
def isBlankText (s : String) : Bool := s.toList.all isBlank

/-- The text without the blank characters at its two ends. -/
def trim (s : String) : String :=
  String.ofList ((s.toList.dropWhile isBlank).reverse.dropWhile isBlank).reverse

/-- Upper-case letters of the basic Latin alphabet become lower-case; every other character, also
    one that another script would fold, is left alone. -/
def lowerAscii (s : String) : String :=
  String.ofList (s.toList.map fun c => if 'A' ≤ c ∧ c ≤ 'Z' then Char.ofNat (c.toNat + 32) else c)

/-- Every ASCII blank is blank. -/
theorem isBlank_of_isWhitespace {c : Char} (h : c.isWhitespace = true) : isBlank c = true := by
  simp only [Char.isWhitespace, Bool.or_eq_true, decide_eq_true_eq] at h
  rcases h with ((rfl | rfl) | rfl) | rfl <;> decide

theorem dropWhile_isBlank_eq_nil_iff (l : List Char) :
    l.dropWhile isBlank = [] ↔ l.all isBlank = true := by
  induction l with
  | nil => simp
  | cons c rest ih => by_cases hc : isBlank c = true <;> simp [hc, ih]

/-- A text is blank exactly when nothing is left of it once it is trimmed. -/
theorem trim_eq_empty_iff (s : String) : trim s = "" ↔ isBlankText s = true := by
  unfold trim isBlankText
  rw [← String.ofList_nil, String.ofList_inj, List.reverse_eq_nil_iff,
    dropWhile_isBlank_eq_nil_iff, List.all_reverse]
  -- what is left after the front is trimmed is blank only if nothing is left
  generalize s.toList = l
  induction l with
  | nil => simp
  | cons c rest ih => by_cases hc : isBlank c = true <;> simp [hc, ih]

example : isBlank '\u3000' = true ∧ isBlank '\u200b' = false ∧ isBlank '\u180e' = false := by decide
example : trim " a\u00a0b\n" = "a\u00a0b" := by decide +kernel

end TopicRelay.Text
