/-
  The lexemes of JSON: blanks, words, numbers and strings.

  Each function takes the bytes that are left and gives back what it read and the bytes after it.
  There are two readings of numbers and strings.  A value that somebody wants is read in full: a
  string has to be UTF-8 with its surrogates paired, a number has to have a value.  A value that
  nobody asked for is only stepped over (`skip…`), so its contents may be anything of the right
  form.  Every lemma here says the same thing: reading uses bytes up.
-/
import TopicRelay.Json.Error
import TopicRelay.Text.Numeral
import TopicRelay.Text.Utf8

namespace TopicRelay.Json

/-- Reading gives a value and the bytes after it, or the reason why there is none. -/
abbrev Step (α : Type) := Except ReadError (α × Bytes)

namespace Lexeme

/-! ## Blanks and words -/

/-- The four blanks that may stand between lexemes. -/
def isSpace (b : UInt8) : Bool :=
  b == Ascii.space || b == Ascii.tab || b == Ascii.lineFeed || b == Ascii.carriageReturn

/-- The bytes from the first one on that is not a blank. -/
def skipBlanks (s : Bytes) : Bytes := s.dropWhile isSpace

theorem length_dropWhile_le {α : Type} (p : α → Bool) (l : List α) :
    (l.dropWhile p).length ≤ l.length :=
  (List.dropWhile_suffix p).length_le

theorem length_skipBlanks_le (s : Bytes) : (skipBlanks s).length ≤ s.length :=
  length_dropWhile_le _ _

/-- The bytes after a word that has to stand here. -/
def expectWord : (word s : Bytes) → Except ReadError Bytes
  | [], s => .ok s
  | _ :: _, [] => .error .unexpectedEnd
  | w :: word, b :: r => if b = w then expectWord word r else .error .malformed

theorem length_expectWord {word s r : Bytes} (h : expectWord word s = .ok r) :
    r.length ≤ s.length := by
  induction word generalizing s with
  | nil => simp only [expectWord, Except.ok.injEq] at h; exact h ▸ Nat.le_refl _
  | cons w word ih =>
    cases s with
    | nil => simp [expectWord] at h
    | cons b t =>
      simp only [expectWord] at h
      split at h
      · have := ih h; simp only [List.length_cons]; omega
      · simp at h

/-! ## Numbers -/

/-- A number: whole and within 64 bits (natural, or below zero), or anything else. -/
inductive Number where
  | natural (n : Nat)
  | negative (n : Nat)
  | floating
deriving DecidableEq, Repr

/-- The largest number of 64 bits. -/
def maxWord : Nat := 0xFFFFFFFFFFFFFFFF

/-- A natural number rounded to 53 binary digits, a tie going to the even neighbour. -/
def roundTo53 (n : Nat) : Nat :=
  if n < 1 <<< 53 then n
  else
    let unit := 1 <<< (n.log2 - 52)
    let low := n / unit
    let above := n % unit
    if 2 * above < unit then low * unit
    else if unit < 2 * above then (low + 1) * unit
    else if low % 2 = 0 then low * unit
    else (low + 1) * unit

/-- Digits gathered into a 64 bit significand: digits that no longer fit into it are counted and
    otherwise dropped. -/
def gather (significand dropped : Nat) : Bytes → Nat × Nat
  | [] => (significand, dropped)
  | d :: ds =>
    let n := significand * 10 + Ascii.digitValue d
    -- once a digit is dropped, so are all after it, even those that would fit again
    if dropped = 0 && n ≤ maxWord then gather n 0 ds else gather significand (dropped + 1) ds

/-- Whether a number is too large for a double: `significand · 10 ^ exponent`, with both factors and
    the product rounded, reaches `2 ^ 1024`. -/
def isTooLarge (significand : Nat) (exponent : Int) : Bool :=
  significand ≠ 0 &&
    (308 < exponent ||
      (0 ≤ exponent &&
        1 <<< 1024 ≤ roundTo53 (roundTo53 significand * roundTo53 (Nat.pow 10 exponent.toNat))))

/-- Whether the number with these digits before and after the point, times ten to the `exponent`, is
    too large for a double. -/
def overflows (whole fraction : Bytes) (exponent : Int) : Bool :=
  let (n, dropped) := gather 0 0 whole
  let (m, droppedAfter) := gather n 0 fraction
  isTooLarge m (exponent + dropped - (fraction.length - droppedAfter : Nat))

/-- What follows a sign, if there is one. -/
def dropSign (s : Bytes) : Bytes :=
  if s.head? = some Ascii.minus ∨ s.head? = some Ascii.plus then s.tail else s

theorem length_dropSign_le (s : Bytes) : (dropSign s).length ≤ s.length := by
  unfold dropSign; split <;> simp

/-- The exponent of a number, after its `e`, and what follows it. -/
def exponentPart (s : Bytes) : Step Int :=
  match dropSign s with
  | [] => .error .unexpectedEnd
  | b :: r =>
    if Ascii.isDigit b then
      let n := Text.Numeral.value (b :: r.takeWhile Ascii.isDigit)
      .ok (if s.head? = some Ascii.minus then -n else n, r.dropWhile Ascii.isDigit)
    else .error .malformed

theorem length_exponentPart {s r : Bytes} {e : Int} (h : exponentPart s = .ok (e, r)) :
    r.length ≤ s.length := by
  unfold exponentPart at h
  have hs := length_dropSign_le s
  split at h
  · simp at h
  · next b t heq =>
    rw [heq, List.length_cons] at hs
    have := length_dropWhile_le Ascii.isDigit t
    split at h
    · simp only [Except.ok.injEq, Prod.mk.injEq] at h; rw [← h.2]; omega
    · simp at h

/-- Whether a byte starts the exponent of a number. -/
def isExponentMark (b : UInt8) : Bool := b == 0x65 || b == 0x45

/-- A number from its exponent on, if it has one. -/
def exponentFrom (whole fraction : Bytes) (s : Bytes) : Step Number :=
  match s with
  | b :: r =>
    if isExponentMark b then
      match exponentPart r with
      | .error e => .error e
      | .ok (e, t) =>
        if overflows whole fraction e then .error .malformed else .ok (.floating, t)
    else if overflows whole fraction 0 then .error .malformed
    else .ok (.floating, s)
  | [] => if overflows whole fraction 0 then .error .malformed else .ok (.floating, [])

theorem length_exponentFrom {whole fraction s r : Bytes} {n : Number}
    (h : exponentFrom whole fraction s = .ok (n, r)) : r.length ≤ s.length := by
  unfold exponentFrom at h
  split at h
  · next b t =>
    split at h
    · split at h
      · simp at h
      · next e t' he =>
        have := length_exponentPart he
        split at h
        · simp at h
        · simp only [Except.ok.injEq, Prod.mk.injEq] at h
          rw [← h.2]; simp only [List.length_cons]; omega
    · split at h
      · simp at h
      · simp only [Except.ok.injEq, Prod.mk.injEq] at h
        exact Nat.le_of_eq (congrArg List.length h.2.symm)
  · split at h
    · simp at h
    · simp only [Except.ok.injEq, Prod.mk.injEq] at h
      exact Nat.le_of_eq (congrArg List.length h.2.symm)

/-- The number that digits alone stand for.  Beyond 64 bits, and for a minus sign before zero, the
    value is no whole number of the machine. -/
def wholeNumber (negative : Bool) (digits : Bytes) : Number :=
  let n := Text.Numeral.value digits
  if negative then (if 0 < n ∧ n ≤ 0x8000000000000000 then .negative n else .floating)
  else if n ≤ maxWord then .natural n
  else .floating

/-- A number from the first byte after its whole digits on. -/
def numberFrom (negative : Bool) (whole s : Bytes) : Step Number :=
  match s with
  | b :: r =>
    if b = Ascii.dot then
      let fraction := r.takeWhile Ascii.isDigit
      if fraction.isEmpty then .error (if r.isEmpty then .unexpectedEnd else .malformed)
      else exponentFrom whole fraction (r.dropWhile Ascii.isDigit)
    else if isExponentMark b then exponentFrom whole [] s
    else if wholeNumber negative whole = .floating ∧ overflows whole [] 0 then .error .malformed
    else .ok (wholeNumber negative whole, s)
  | [] =>
    if wholeNumber negative whole = .floating ∧ overflows whole [] 0 then .error .malformed
    else .ok (wholeNumber negative whole, [])

theorem length_numberFrom {negative : Bool} {whole s r : Bytes} {n : Number}
    (h : numberFrom negative whole s = .ok (n, r)) : r.length ≤ s.length := by
  unfold numberFrom at h
  split at h
  · next b t =>
    split at h
    · dsimp only at h
      split at h
      · simp at h
      · have := length_exponentFrom h
        have := length_dropWhile_le Ascii.isDigit t
        simp only [List.length_cons]; omega
    · split at h
      · exact length_exponentFrom h
      · split at h
        · simp at h
        · simp only [Except.ok.injEq, Prod.mk.injEq] at h
          exact Nat.le_of_eq (congrArg List.length h.2.symm)
  · split at h
    · simp at h
    · simp only [Except.ok.injEq, Prod.mk.injEq] at h
      exact Nat.le_of_eq (congrArg List.length h.2.symm)

/-- The digits of a number from the first one on; a zero is not followed by another digit. -/
def unsignedNumber (negative : Bool) : Bytes → Step Number
  | [] => .error .unexpectedEnd
  | b :: r =>
    if b = Ascii.zero then
      if r.head?.any Ascii.isDigit then .error .malformed else numberFrom negative [b] r
    else if Ascii.isDigit b then
      numberFrom negative (b :: r.takeWhile Ascii.isDigit) (r.dropWhile Ascii.isDigit)
    else .error .malformed

theorem length_unsignedNumber {negative : Bool} {s r : Bytes} {n : Number}
    (h : unsignedNumber negative s = .ok (n, r)) : r.length < s.length := by
  unfold unsignedNumber at h
  split at h
  · simp at h
  · next b t =>
    simp only [List.length_cons]
    split at h
    · split at h
      · simp at h
      · have := length_numberFrom h; omega
    · split at h
      · have := length_numberFrom h
        have := length_dropWhile_le Ascii.isDigit t
        omega
      · simp at h

/-- A number, from its sign or first digit on. -/
def number (s : Bytes) : Step Number :=
  if s.head? = some Ascii.minus then unsignedNumber true s.tail else unsignedNumber false s

theorem length_number {s r : Bytes} {n : Number} (h : number s = .ok (n, r)) :
    r.length < s.length := by
  unfold number at h
  split at h
  · have := length_unsignedNumber h; simp only [List.length_tail] at this; omega
  · exact length_unsignedNumber h

/-- Steps over the exponent of a number, after its `e`. -/
def skipExponent (s : Bytes) : Except ReadError Bytes :=
  let r := dropSign s
  if r.head?.any Ascii.isDigit then .ok (r.dropWhile Ascii.isDigit) else .error .malformed

/-- Steps over a number from the first byte after its whole digits on. -/
def skipFraction (s : Bytes) : Except ReadError Bytes :=
  match s with
  | [] => .ok []
  | b :: r =>
    if b = Ascii.dot then
      if r.head?.any Ascii.isDigit then
        match r.dropWhile Ascii.isDigit with
        | c :: t => if isExponentMark c then skipExponent t else .ok (c :: t)
        | [] => .ok []
      else .error .malformed
    else if isExponentMark b then skipExponent r
    else .ok s

/-- Steps over a number, from its sign or first digit on. -/
def skipNumber (s : Bytes) : Except ReadError Bytes :=
  match (if s.head? = some Ascii.minus then s.tail else s) with
  | [] => .error .malformed
  | b :: r =>
    if b = Ascii.zero then
      if r.head?.any Ascii.isDigit then .error .malformed else skipFraction r
    else if Ascii.isDigit b then skipFraction (r.dropWhile Ascii.isDigit)
    else .error .malformed

theorem length_skipExponent {s r : Bytes} (h : skipExponent s = .ok r) :
    r.length ≤ s.length := by
  unfold skipExponent at h
  have hs := length_dropSign_le s
  have hd := length_dropWhile_le Ascii.isDigit (dropSign s)
  dsimp only at h
  split at h
  · simp only [Except.ok.injEq] at h; rw [← h]; omega
  · simp at h

theorem length_skipFraction {s r : Bytes} (h : skipFraction s = .ok r) :
    r.length ≤ s.length := by
  unfold skipFraction at h
  split at h
  · simp only [Except.ok.injEq] at h; exact Nat.le_of_eq (congrArg List.length h.symm)
  · next b t =>
    simp only [List.length_cons]
    split at h
    · split at h
      · have hd := length_dropWhile_le Ascii.isDigit t
        split at h
        · next c u hc =>
          rw [hc, List.length_cons] at hd
          split at h
          · have := length_skipExponent h; omega
          · simp only [Except.ok.injEq] at h; rw [← h, List.length_cons]; omega
        · simp only [Except.ok.injEq] at h; rw [← h]; simp
      · simp at h
    · split at h
      · have := length_skipExponent h; omega
      · simp only [Except.ok.injEq] at h
        exact Nat.le_of_eq (congrArg List.length h.symm)

theorem length_skipNumber {s r : Bytes} (h : skipNumber s = .ok r) : r.length < s.length := by
  unfold skipNumber at h
  split at h
  · simp at h
  · next b t heq =>
    have hle : (b :: t).length ≤ s.length := by rw [← heq]; split <;> simp
    simp only [List.length_cons] at hle
    split at h
    · split at h
      · simp at h
      · have := length_skipFraction h; omega
    · split at h
      · have := length_skipFraction h
        have := length_dropWhile_le Ascii.isDigit t
        omega
      · simp at h

/-! ## Strings -/

/-- The value of four hexadecimal digits.  With fewer than four bytes left the text has ended. -/
def hex4 : Bytes → Step Nat
  | a :: b :: c :: d :: r =>
    match Ascii.hexValue? a, Ascii.hexValue? b, Ascii.hexValue? c, Ascii.hexValue? d with
    | some p, some q, some s, some t => .ok (p * 0x1000 + q * 0x100 + s * 0x10 + t, r)
    | _, _, _, _ => .error .malformed
  | _ => .error .unexpectedEnd

theorem length_hex4 {s r : Bytes} {n : Nat} (h : hex4 s = .ok (n, r)) : r.length < s.length := by
  unfold hex4 at h
  split at h
  · split at h
    · simp only [Except.ok.injEq, Prod.mk.injEq] at h
      rw [← h.2]; simp only [List.length_cons]; omega
    · simp at h
  · simp at h

/-- The byte that a one letter escape stands for. -/
def escaped? (b : UInt8) : Option UInt8 :=
  if b = Ascii.quote then some Ascii.quote
  else if b = Ascii.backslash then some Ascii.backslash
  else if b = Ascii.slash then some Ascii.slash
  else if b = 0x62 then some 0x08
  else if b = 0x66 then some Ascii.formFeed
  else if b = 0x6E then some Ascii.lineFeed
  else if b = 0x72 then some Ascii.carriageReturn
  else if b = 0x74 then some Ascii.tab
  else none

/-- The letter of an escape that is followed by four digits. -/
abbrev unicodeMark : UInt8 := 0x75

/-- A leading surrogate: the first half of a character above U+FFFF. -/
def isLeading (n : Nat) : Bool := 0xD800 ≤ n && n ≤ 0xDBFF

/-- A trailing surrogate: the second half. -/
def isTrailing (n : Nat) : Bool := 0xDC00 ≤ n && n ≤ 0xDFFF

/-- The trailing surrogate that has to follow a leading one. -/
def trailing : Bytes → Step Nat
  | [] => .error .unexpectedEnd
  | b :: r =>
    if b = Ascii.backslash then
      match r with
      | [] => .error .unexpectedEnd
      | c :: t => if c = unicodeMark then hex4 t else .error .malformed
    else .error .malformed

/-- The character of a `u` escape, from its digits on. -/
def unicodeEscape (s : Bytes) : Step Bytes :=
  match hex4 s with
  | .error e => .error e
  | .ok (n, r) =>
    -- a trailing surrogate has no place without a leading one
    if isTrailing n then .error .malformed
    else if isLeading n then
      match trailing r with
      | .error e => .error e
      | .ok (m, t) =>
        if isTrailing m then
          .ok (Text.Utf8.encodeChar (Char.ofNat (0x10000 + (n - 0xD800) * 0x400 + (m - 0xDC00))), t)
        else .error .malformed
    else .ok (Text.Utf8.encodeChar (Char.ofNat n), r)

/-- The bytes that an escape stands for, from the byte after the backslash on. -/
def escape : Bytes → Step Bytes
  | [] => .error .unexpectedEnd
  | b :: r =>
    if b = unicodeMark then unicodeEscape r
    else match escaped? b with
      | some c => .ok ([c], r)
      | none => .error .malformed

theorem length_trailing {s r : Bytes} {n : Nat} (h : trailing s = .ok (n, r)) :
    r.length ≤ s.length := by
  unfold trailing at h
  split at h
  · simp at h
  · split at h
    · split at h
      · simp at h
      · split at h
        · have := length_hex4 h; simp only [List.length_cons]; omega
        · simp at h
    · simp at h

theorem length_escape {s r bs : Bytes} (h : escape s = .ok (bs, r)) : r.length < s.length := by
  unfold escape at h
  split at h
  · simp at h
  · simp only [List.length_cons]
    split at h
    · unfold unicodeEscape at h
      split at h
      · simp at h
      · next n t hn =>
        have := length_hex4 hn
        split at h
        · simp at h
        · split at h
          · split at h
            · simp at h
            · next m u hm =>
              have := length_trailing hm
              split at h
              · simp only [Except.ok.injEq, Prod.mk.injEq] at h; rw [← h.2]; omega
              · simp at h
          · simp only [Except.ok.injEq, Prod.mk.injEq] at h; rw [← h.2]; omega
    · split at h
      · simp only [Except.ok.injEq, Prod.mk.injEq] at h; rw [← h.2]; omega
      · simp at h

/-- The contents of a string after those in `seen`, which is in reverse, up to its closing quote. -/
def stringFrom (seen : Bytes) : Bytes → Step Bytes
  | [] => .error .unexpectedEnd
  | b :: r =>
    if b = Ascii.quote then .ok (seen.reverse, r)
    else if b = Ascii.backslash then
      match h : escape r with
      | .error e => .error e
      | .ok (bs, t) =>
        have := length_escape h
        stringFrom (bs.reverse ++ seen) t
    else if b < 0x20 then .error .malformed
    else stringFrom (b :: seen) r
termination_by s => s.length
decreasing_by all_goals simp only [List.length_cons]; omega

theorem length_stringFrom {seen s r bs : Bytes} (h : stringFrom seen s = .ok (bs, r)) :
    r.length < s.length := by
  fun_induction stringFrom seen s with
  | case1 => simp at h
  | case2 seen t => simp only [Except.ok.injEq, Prod.mk.injEq] at h; rw [← h.2]; simp
  | case3 => simp at h
  | case4 seen t _ bs' u _ hu ih =>
    have := ih h
    have := length_escape ‹_›
    simp only [List.length_cons]; omega
  | case5 => simp at h
  | case6 seen b t _ _ _ ih => have := ih h; simp only [List.length_cons]; omega

/-- A string after its opening quote, as text.  Whether it is UTF-8 is looked at last. -/
def text (s : Bytes) : Step String :=
  match stringFrom [] s with
  | .error e => .error e
  | .ok (bs, r) =>
    match Text.Utf8.decode? bs with
    | some t => .ok (t, r)
    | none => .error .malformed

theorem length_text {s r : Bytes} {t : String} (h : text s = .ok (t, r)) :
    r.length < s.length := by
  unfold text at h
  split at h
  · simp at h
  · next bs u hu =>
    have := length_stringFrom hu
    split at h
    · simp only [Except.ok.injEq, Prod.mk.injEq] at h; rw [← h.2]; omega
    · simp at h

/-- Steps over an escape, from the byte after the backslash on. -/
def skipEscape : Bytes → Except ReadError Bytes
  | [] => .error .unexpectedEnd
  | b :: r =>
    if b = unicodeMark then
      match hex4 r with
      | .error e => .error e
      | .ok (_, t) => .ok t
    else if (escaped? b).isSome then .ok r
    else .error .malformed

theorem length_skipEscape {s r : Bytes} (h : skipEscape s = .ok r) : r.length < s.length := by
  unfold skipEscape at h
  split at h
  · simp at h
  · simp only [List.length_cons]
    split at h
    · split at h
      · simp at h
      · next n t hn => have := length_hex4 hn; simp only [Except.ok.injEq] at h; rw [← h]; omega
    · split at h
      · simp only [Except.ok.injEq] at h; rw [← h]; omega
      · simp at h

/-- Steps over a string after its opening quote. -/
def skipString : Bytes → Except ReadError Bytes
  | [] => .error .unexpectedEnd
  | b :: r =>
    if b = Ascii.quote then .ok r
    else if b = Ascii.backslash then
      match h : skipEscape r with
      | .error e => .error e
      | .ok t =>
        have := length_skipEscape h
        skipString t
    else if b < 0x20 then .error .malformed
    else skipString r
termination_by s => s.length
decreasing_by all_goals simp only [List.length_cons]; omega

theorem length_skipString {s r : Bytes} (h : skipString s = .ok r) : r.length < s.length := by
  fun_induction skipString s with
  | case1 => simp at h
  | case2 t => simp only [Except.ok.injEq] at h; rw [← h]; simp
  | case3 => simp at h
  | case4 t _ u _ hu ih =>
    have := ih h
    have := length_skipEscape ‹_›
    simp only [List.length_cons]; omega
  | case5 => simp at h
  | case6 b t _ _ _ ih => have := ih h; simp only [List.length_cons]; omega

end Lexeme
end TopicRelay.Json
