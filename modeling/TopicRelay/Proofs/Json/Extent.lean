/-
  How far a lexeme reaches.

  A function that reads looks at no more than what it uses up, and the byte behind it.  For each of
  them that is said in the same way.  If it succeeds at `s` and leaves `r`, there is a text `w` with

      s = w ++ r            what was used up
      w passes              it opens no brackets, and its strings are closed
      w ++ rest             is read in the same way, whatever `rest` is that may follow

  What may follow depends on the lexeme: anything behind a string, nothing that goes on with a number
  behind a number.  A number has parts, each read by a function of its own, and its parts are put
  together from what stands in front and how far the rest reaches (`PartOfNumber.behind`).
-/
import TopicRelay.Proofs.Json.Turns

namespace TopicRelay.Json

open Wire (Passes)
open Wire.Passes (isPlain isPlain_of_ne)

variable {s r : Bytes} {b : UInt8}

namespace Lexeme

/-! ## Words -/

theorem eq_of_expectWord {word : Bytes} (h : expectWord word s = .ok r) : s = word ++ r := by
  induction word generalizing s with
  | nil =>
    cases h
    rfl
  | cons w word ih =>
    cases s with
    | nil => cases h
    | cons b t =>
      rw [expectWord] at h
      split at h
      · next hb => rw [ih h, hb, List.cons_append]
      · cases h

/-! ## Numbers -/

/-- The bytes of a number mean nothing to the scan. -/
def Plain (w : Bytes) : Prop := ∀ b ∈ w, isPlain b = true

theorem isPlain_of_isDigit (h : Ascii.isDigit b = true) : isPlain b = true := by
  refine isPlain_of_ne ?_ ?_ ?_ ?_ ?_ <;> (rintro rfl; revert h; decide)

theorem isPlain_of_isExponentMark (h : isExponentMark b = true) : isPlain b = true := by
  refine isPlain_of_ne ?_ ?_ ?_ ?_ ?_ <;> (rintro rfl; revert h; decide)

namespace Plain

variable {v w : Bytes}

theorem nil : Plain [] := by
  intro b hb
  cases hb

theorem cons (hb : isPlain b = true) (h : Plain w) : Plain (b :: w) :=
  List.forall_mem_cons.mpr ⟨hb, h⟩

theorem append (h : Plain v) (h' : Plain w) : Plain (v ++ w) := List.forall_mem_append.mpr ⟨h, h'⟩

theorem digits (s : Bytes) : Plain (s.takeWhile Ascii.isDigit) :=
  fun _ hb => isPlain_of_isDigit (List.mem_takeWhile_imp hb)

end Plain

theorem noDigit_dropWhile (s : Bytes) :
    (s.dropWhile Ascii.isDigit).head?.any Ascii.isDigit = false := by
  induction s with
  | nil => rfl
  | cons b s ih =>
    rw [List.dropWhile_cons]
    split
    · exact ih
    · next hb => exact Bool.eq_false_iff.mpr hb

/-- Whether a digit comes next is seen from what is used up, unless that is nothing. -/
theorem noDigit_append {w rest : Bytes} (h : (w ++ r).head?.any Ascii.isDigit = false)
    (hrest : StopsNumber rest) : (w ++ rest).head?.any Ascii.isDigit = false := by
  cases w with
  | nil => exact hrest.not_isDigit
  | cons b w => exact h

theorem digits_append (s : Bytes) {rest : Bytes} (h : rest.head?.any Ascii.isDigit = false) :
    (s.takeWhile Ascii.isDigit ++ rest).takeWhile Ascii.isDigit = s.takeWhile Ascii.isDigit
      ∧ (s.takeWhile Ascii.isDigit ++ rest).dropWhile Ascii.isDigit = rest :=
  takeWhile_isDigit (fun _ hb => List.mem_takeWhile_imp hb) h

/-- **How far a part of a number reaches.**  What `f` uses up from `s` to `r` is plain, and before anything
    that stops a number `f` gives `out` for it. -/
def PartOfNumber {γ : Type} (f out : Bytes → γ) (s r : Bytes) : Prop :=
  ∃ w, s = w ++ r ∧ Plain w ∧ ∀ rest, StopsNumber rest → f (w ++ rest) = out rest

namespace PartOfNumber

variable {γ : Type} {f g out : Bytes → γ} {v : Bytes}

/-- Nothing is used up. -/
theorem nothing (h : ∀ rest, StopsNumber rest → f rest = out rest) : PartOfNumber f out s s :=
  ⟨[], rfl, Plain.nil, h⟩

/-- Something stands in front, behind which no digit comes if none came before. -/
theorem behind (hv : Plain v) (h : PartOfNumber g out s r)
    (hf : ∀ t, (s.head?.any Ascii.isDigit = false → t.head?.any Ascii.isDigit = false) →
      f (v ++ t) = g t) : PartOfNumber f out (v ++ s) r := by
  obtain ⟨w, rfl, hw, hrun⟩ := h
  refine ⟨v ++ w, (List.append_assoc ..).symm, hv.append hw, fun rest hrest => ?_⟩
  rw [List.append_assoc, hf _ fun hnone => noDigit_append hnone hrest]
  exact hrun rest hrest

/-- Something stands in front, and then all the digits that there are. -/
theorem behind_digits (hv : Plain v) (h : PartOfNumber g out (s.dropWhile Ascii.isDigit) r)
    (hf : ∀ t, t.head?.any Ascii.isDigit = false → f (v ++ (s.takeWhile Ascii.isDigit ++ t)) = g t) :
    PartOfNumber f out (v ++ s) r := by
  have hall := behind (f := f) (hv.append (Plain.digits s)) h fun t ht => by
    rw [List.append_assoc]
    exact hf t (ht (noDigit_dropWhile s))
  rwa [List.append_assoc, List.takeWhile_append_dropWhile] at hall

/-- Where something is used up, the first byte is. -/
theorem of_cons (h : PartOfNumber f out (b :: s) r) (hless : r.length < (b :: s).length) :
    ∃ w, s = w ++ r ∧ Plain (b :: w) ∧ ∀ rest, StopsNumber rest → f (b :: (w ++ rest)) = out rest := by
  obtain ⟨w, hw, hplain, hrun⟩ := h
  cases w with
  | nil => exact absurd hless (hw ▸ Nat.lt_irrefl _)
  | cons c w =>
    obtain ⟨rfl, hs⟩ := List.cons.inj hw
    exact ⟨w, hs, hplain, hrun⟩

end PartOfNumber

/-- What stands in front of the digits of an exponent. -/
theorem exists_sign (h : dropSign s = b :: r) :
    ∃ sign, s = sign ++ b :: r ∧ Plain sign
      ∧ ∀ t, dropSign (sign ++ b :: t) = b :: t ∧ (sign ++ b :: t).head? = s.head? := by
  unfold dropSign at h
  split at h
  · next hsign =>
    cases s with
    | nil => cases h
    | cons c t =>
      cases h
      refine ⟨[c], rfl, Plain.cons ?_ Plain.nil, fun t => ⟨if_pos hsign, rfl⟩⟩
      rcases hsign with hc | hc <;> cases hc <;> decide
  · next hsign =>
    subst h
    exact ⟨[], rfl, Plain.nil, fun t => ⟨if_neg hsign, rfl⟩⟩

theorem exponentPart_extent {e : Int} (h : exponentPart s = .ok (e, r)) :
    PartOfNumber exponentPart (fun rest => .ok (e, rest)) s r := by
  unfold exponentPart at h
  split at h
  · cases h
  · next b t hdrop =>
    split at h
    · next hb =>
      obtain ⟨sign, hs, hsign, hdropped⟩ := exists_sign hdrop
      obtain ⟨hvalue, rfl⟩ := Prod.mk.inj (Except.ok.inj h)
      rw [hs, List.append_cons]
      refine .behind_digits (hsign.append (Plain.cons (isPlain_of_isDigit hb) Plain.nil))
        (.nothing fun _ _ => rfl) fun rest hrest => ?_
      obtain ⟨htake, hdrop⟩ := digits_append t hrest
      rw [← List.append_cons, exponentPart, (hdropped _).1, (hdropped _).2]
      simp only [hb, if_true, htake, hdrop, hvalue]
    · cases h

theorem exponentFrom_of_stops {rest : Bytes} (whole fraction : Bytes) (h : StopsNumber rest) :
    exponentFrom whole fraction rest
      = if overflows whole fraction 0 then .error .malformed else .ok (.floating, rest) := by
  cases rest with
  | nil => rfl
  | cons b t =>
    rw [exponentFrom, (h b rfl).2.2]
    rfl

theorem exponentFrom_mark {whole fraction : Bytes} {n : Number} (hmark : isExponentMark b = true)
    (h : exponentFrom whole fraction (b :: s) = .ok (n, r)) :
    PartOfNumber (fun t => exponentFrom whole fraction (b :: t)) (fun rest => .ok (n, rest)) s r := by
  rw [exponentFrom, if_pos hmark] at h
  split at h
  · cases h
  · next e u hpart =>
    split at h
    · cases h
    · next hfits =>
      cases h
      obtain ⟨w, rfl, hw, hrun⟩ := exponentPart_extent hpart
      refine ⟨w, rfl, hw, fun rest hrest => ?_⟩
      show exponentFrom whole fraction (b :: (w ++ rest)) = _
      rw [exponentFrom, if_pos hmark, hrun rest hrest]
      exact if_neg hfits

theorem exponentFrom_extent {whole fraction : Bytes} {n : Number}
    (h : exponentFrom whole fraction s = .ok (n, r)) :
    PartOfNumber (exponentFrom whole fraction) (fun rest => .ok (n, rest)) s r := by
  -- without an exponent nothing is used up
  have hnone : (if overflows whole fraction 0 then .error .malformed else .ok (.floating, s))
      = (.ok (n, r) : Step Number) →
        PartOfNumber (exponentFrom whole fraction) (fun rest => .ok (n, rest)) s r := by
    intro hif
    split at hif
    · cases hif
    · next hfits =>
      cases hif
      refine .nothing fun rest hrest => ?_
      rw [exponentFrom_of_stops whole fraction hrest, if_neg hfits]
  cases s with
  | nil => exact hnone h
  | cons b t =>
    by_cases hmark : isExponentMark b = true
    · exact .behind (v := [b]) (Plain.cons (isPlain_of_isExponentMark hmark) Plain.nil)
        (exponentFrom_mark hmark h) fun _ _ => rfl
    · rw [exponentFrom, if_neg hmark] at h
      exact hnone h

theorem numberFrom_of_stops {rest : Bytes} (negative : Bool) (whole : Bytes) (h : StopsNumber rest) :
    numberFrom negative whole rest
      = if wholeNumber negative whole = .floating ∧ overflows whole [] 0 then .error .malformed
        else .ok (wholeNumber negative whole, rest) := by
  cases rest with
  | nil => rfl
  | cons b t =>
    obtain ⟨-, hdot, hmark⟩ := h b rfl
    rw [numberFrom, if_neg hdot, hmark]
    rfl

/-- A fraction, and then an exponent if there is one. -/
theorem numberFrom_dot {negative : Bool} {whole : Bytes} {n : Number}
    (h : numberFrom negative whole (Ascii.dot :: s) = .ok (n, r)) :
    PartOfNumber (numberFrom negative whole) (fun rest => .ok (n, rest)) (Ascii.dot :: s) r := by
  rw [numberFrom, if_pos rfl] at h
  dsimp only at h
  split at h
  · cases h
  · next hsome =>
    refine .behind_digits (v := [Ascii.dot]) (Plain.cons (by decide) Plain.nil) (exponentFrom_extent h) ?_
    intro rest hrest
    obtain ⟨htake, hdrop⟩ := digits_append s hrest
    rw [List.singleton_append, numberFrom, if_pos rfl, htake, hdrop]
    exact if_neg hsome

theorem numberFrom_extent {negative : Bool} {whole : Bytes} {n : Number}
    (h : numberFrom negative whole s = .ok (n, r)) :
    PartOfNumber (numberFrom negative whole) (fun rest => .ok (n, rest)) s r := by
  -- the number may be over
  have hwhole : (if wholeNumber negative whole = .floating ∧ overflows whole [] 0
        then .error .malformed else .ok (wholeNumber negative whole, s)) = (.ok (n, r) : Step Number) →
      PartOfNumber (numberFrom negative whole) (fun rest => .ok (n, rest)) s r := by
    intro hif
    split at hif
    · cases hif
    · next hfits =>
      cases hif
      refine .nothing fun rest hrest => ?_
      rw [numberFrom_of_stops negative whole hrest, if_neg hfits]
  cases s with
  | nil => exact hwhole h
  | cons b t =>
    by_cases hdot : b = Ascii.dot
    · subst hdot
      exact numberFrom_dot h
    · rw [numberFrom, if_neg hdot] at h
      split at h
      · next hmark =>
        exact .behind (v := [b]) (Plain.cons (isPlain_of_isExponentMark hmark) Plain.nil)
          (exponentFrom_mark hmark h) fun rest _ => (if_neg hdot).trans (if_pos hmark)
      · exact hwhole h

theorem unsignedNumber_extent {negative : Bool} {n : Number}
    (h : unsignedNumber negative s = .ok (n, r)) :
    PartOfNumber (unsignedNumber negative) (fun rest => .ok (n, rest)) s r := by
  cases s with
  | nil => cases h
  | cons b t =>
    rw [unsignedNumber] at h
    split at h
    · next hzero =>
      split at h
      · cases h
      · next hdigit =>
        have hb : isPlain b = true := by rw [hzero]; decide
        refine .behind (v := [b]) (Plain.cons hb Plain.nil) (numberFrom_extent h) fun rest hrest => ?_
        rw [List.singleton_append, unsignedNumber, if_pos hzero, hrest (Bool.eq_false_iff.mpr hdigit)]
        rfl
    · next hzero =>
      split at h
      · next hdigit =>
        have hb : isPlain b = true := isPlain_of_isDigit hdigit
        refine .behind_digits (v := [b]) (Plain.cons hb Plain.nil) (numberFrom_extent h)
          fun rest hrest => ?_
        obtain ⟨htake, hdrop⟩ := digits_append t hrest
        rw [List.singleton_append, unsignedNumber, if_neg hzero, if_pos hdigit, htake, hdrop]
      · cases h

theorem number_extent {n : Number} (h : number s = .ok (n, r)) :
    PartOfNumber number (fun rest => .ok (n, rest)) s r := by
  rw [number] at h
  split at h
  · next hminus =>
    obtain ⟨t, rfl⟩ := List.head?_eq_some_iff.mp hminus
    exact .behind (v := [Ascii.minus]) (Plain.cons (by decide) Plain.nil) (unsignedNumber_extent h)
      fun rest _ => if_pos rfl
  · next hminus =>
    cases s with
    | nil => cases h
    | cons b s =>
      obtain ⟨w, rfl, hplain, hrun⟩ := (unsignedNumber_extent h).of_cons (length_unsignedNumber h)
      exact ⟨b :: w, rfl, hplain, fun rest hrest => (if_neg hminus).trans (hrun rest hrest)⟩

/-! ## Numbers that are stepped over -/

theorem skipExponent_extent (h : skipExponent s = .ok r) : PartOfNumber skipExponent .ok s r := by
  rw [skipExponent] at h
  cases hdrop : dropSign s with
  | nil => rw [hdrop] at h; cases h
  | cons b t =>
    rw [hdrop] at h
    split at h
    · next hb =>
      obtain ⟨sign, hs, hsign, hdropped⟩ := exists_sign hdrop
      have hb : Ascii.isDigit b = true := hb
      rw [List.dropWhile_cons_of_pos hb] at h
      cases h
      rw [hs, List.append_cons]
      refine .behind_digits (hsign.append (Plain.cons (isPlain_of_isDigit hb) Plain.nil))
        (.nothing fun _ _ => rfl) fun rest hrest => ?_
      rw [← List.append_cons, skipExponent, (hdropped _).1, List.dropWhile_cons_of_pos hb,
        (digits_append t hrest).2]
      exact if_pos hb
    · cases h

/-- What is stepped over behind the digits of a fraction. -/
def skipFractionEnd : Bytes → Except ReadError Bytes
  | c :: u => if isExponentMark c then skipExponent u else .ok (c :: u)
  | [] => .ok []

theorem skipFractionEnd_of_stops {rest : Bytes} (h : StopsNumber rest) :
    skipFractionEnd rest = .ok rest := by
  cases rest with
  | nil => rfl
  | cons b t => exact if_neg (Bool.eq_false_iff.mp (h b rfl).2.2)

theorem skipFractionEnd_extent (h : skipFractionEnd s = .ok r) :
    PartOfNumber skipFractionEnd .ok s r := by
  cases s with
  | nil =>
    cases h
    exact .nothing fun _ hrest => skipFractionEnd_of_stops hrest
  | cons b t =>
    rw [skipFractionEnd] at h
    split at h
    · next hmark =>
      exact .behind (v := [b]) (Plain.cons (isPlain_of_isExponentMark hmark) Plain.nil)
        (skipExponent_extent h) fun rest _ => if_pos hmark
    · cases h
      exact .nothing fun _ hrest => skipFractionEnd_of_stops hrest

theorem skipFraction_dot (s : Bytes) : skipFraction (Ascii.dot :: s)
    = if s.head?.any Ascii.isDigit then skipFractionEnd (s.dropWhile Ascii.isDigit)
      else .error .malformed := rfl

theorem skipFraction_of_stops {rest : Bytes} (h : StopsNumber rest) : skipFraction rest = .ok rest := by
  cases rest with
  | nil => rfl
  | cons b t =>
    obtain ⟨-, hdot, hmark⟩ := h b rfl
    rw [skipFraction, if_neg hdot, hmark]
    rfl

theorem skipFraction_extent (h : skipFraction s = .ok r) : PartOfNumber skipFraction .ok s r := by
  cases s with
  | nil =>
    cases h
    exact .nothing fun _ hrest => skipFraction_of_stops hrest
  | cons b t =>
    by_cases hdot : b = Ascii.dot
    · subst hdot
      rw [skipFraction_dot] at h
      split at h
      · next hdigit =>
        refine .behind_digits (v := [Ascii.dot]) (Plain.cons (by decide) Plain.nil)
          (skipFractionEnd_extent h) fun rest hrest => ?_
        have hhead : (t.takeWhile Ascii.isDigit ++ rest).head?.any Ascii.isDigit = true := by
          cases t with
          | nil => cases hdigit
          | cons d t =>
            have hd : Ascii.isDigit d = true := hdigit
            rw [List.takeWhile_cons_of_pos hd]
            exact hd
        rw [List.singleton_append, skipFraction_dot, if_pos hhead, (digits_append t hrest).2]
      · cases h
    · rw [skipFraction, if_neg hdot] at h
      split at h
      · next hmark =>
        exact .behind (v := [b]) (Plain.cons (isPlain_of_isExponentMark hmark) Plain.nil)
          (skipExponent_extent h) fun rest _ => (if_neg hdot).trans (if_pos hmark)
      · cases h
        exact .nothing fun _ hrest => skipFraction_of_stops hrest

/-- What stands in front of the first digit of a number. -/
theorem exists_minus {t : Bytes} (h : (if s.head? = some Ascii.minus then s.tail else s) = b :: t) :
    ∃ sign, s = sign ++ b :: t ∧ Plain sign
      ∧ ∀ u, (if (sign ++ b :: u).head? = some Ascii.minus then (sign ++ b :: u).tail
          else sign ++ b :: u) = b :: u := by
  split at h
  · next hminus =>
    obtain ⟨u, rfl⟩ := List.head?_eq_some_iff.mp hminus
    rw [List.tail_cons] at h
    subst h
    exact ⟨[Ascii.minus], rfl, Plain.cons (by decide) Plain.nil, fun u => if_pos rfl⟩
  · next hminus =>
    subst h
    exact ⟨[], rfl, Plain.nil, fun u => if_neg hminus⟩

theorem skipNumber_extent (h : skipNumber s = .ok r) : PartOfNumber skipNumber .ok s r := by
  unfold skipNumber at h
  split at h
  · cases h
  · next b t hhead =>
    obtain ⟨sign, rfl, hsign, hdigits⟩ := exists_minus hhead
    rw [List.append_cons]
    split at h
    · next hzero =>
      split at h
      · cases h
      · next hdigit =>
        have hb : isPlain b = true := by rw [hzero]; decide
        refine .behind (hsign.append (Plain.cons hb Plain.nil)) (skipFraction_extent h)
          fun rest hrest => ?_
        rw [← List.append_cons, skipNumber, hdigits]
        simp only [if_pos hzero, hrest (Bool.eq_false_iff.mpr hdigit), Bool.false_eq_true, if_false]
    · next hzero =>
      split at h
      · next hdigit =>
        have hb : isPlain b = true := isPlain_of_isDigit hdigit
        refine .behind_digits (hsign.append (Plain.cons hb Plain.nil)) (skipFraction_extent h)
          fun rest hrest => ?_
        rw [← List.append_cons, skipNumber, hdigits]
        simp only [if_neg hzero, if_pos hdigit, (digits_append t hrest).2]
      · cases h

/-! ## Strings -/

theorem hexValue_ne {b : UInt8} {n : Nat} (h : Ascii.hexValue? b = some n) :
    b ≠ Ascii.quote ∧ b ≠ Ascii.backslash := by
  constructor <;> (rintro rfl; cases h)

theorem hex4_extent {n : Nat} (h : hex4 s = .ok (n, r)) :
    ∃ w, s = w ++ r ∧ Passes .inString w .inString ∧ ∀ rest, hex4 (w ++ rest) = .ok (n, rest) := by
  unfold hex4 at h
  split at h
  · next a b c d t =>
    split at h
    · next p q u v ha hb hc hd =>
      obtain ⟨rfl, rfl⟩ := Prod.mk.inj (Except.ok.inj h)
      refine ⟨[a, b, c, d], rfl, ?_, fun rest => ?_⟩
      · have hne := fun {b n} => @hexValue_ne b n
        exact Passes.inString (hne ha).1 (hne ha).2 (Passes.inString (hne hb).1 (hne hb).2
          (Passes.inString (hne hc).1 (hne hc).2 (Passes.inString (hne hd).1 (hne hd).2 (Passes.nil _))))
      · show hex4 (a :: b :: c :: d :: rest) = _
        simp only [hex4, ha, hb, hc, hd]
    · cases h
  · cases h

theorem trailing_extent {n : Nat} (h : trailing s = .ok (n, r)) :
    ∃ w, s = w ++ r ∧ Passes .inString w .inString ∧ ∀ rest, trailing (w ++ rest) = .ok (n, rest) := by
  unfold trailing at h
  split at h
  · cases h
  · split at h
    · next hb =>
      split at h
      · cases h
      · next c t =>
        split at h
        · next hc =>
          subst hb hc
          obtain ⟨w, rfl, hw, hrun⟩ := hex4_extent h
          exact ⟨Ascii.backslash :: unicodeMark :: w, rfl,
            Passes.backslash (Passes.escaped unicodeMark hw), hrun⟩
        · cases h
    · cases h

theorem unicodeEscape_extent {c : Bytes} (h : unicodeEscape s = .ok (c, r)) :
    ∃ w, s = w ++ r ∧ Passes .inString w .inString
      ∧ ∀ rest, unicodeEscape (w ++ rest) = .ok (c, rest) := by
  unfold unicodeEscape at h
  split at h
  · cases h
  · next n t hhex =>
    obtain ⟨w, rfl, hw, hrun⟩ := hex4_extent hhex
    split at h
    · cases h
    · next hlone =>
      split at h
      · next hleading =>
        split at h
        · cases h
        · next m u htrailing =>
          obtain ⟨w', rfl, hw', hrun'⟩ := trailing_extent htrailing
          split at h
          · next hpair =>
            obtain ⟨rfl, rfl⟩ := Prod.mk.inj (Except.ok.inj h)
            refine ⟨w ++ w', (List.append_assoc ..).symm, hw.append hw', fun rest => ?_⟩
            rw [List.append_assoc, unicodeEscape, hrun]
            simp only [if_neg hlone, if_pos hleading, hrun', if_pos hpair]
          · cases h
      · next hleading =>
        cases h
        refine ⟨w, rfl, hw, fun rest => ?_⟩
        rw [unicodeEscape, hrun]
        simp only [if_neg hlone, if_neg hleading]

theorem escape_extent {c : Bytes} (h : escape s = .ok (c, r)) :
    ∃ w, s = w ++ r ∧ Passes .escaped w .inString ∧ ∀ rest, escape (w ++ rest) = .ok (c, rest) := by
  unfold escape at h
  split at h
  · cases h
  · next b t =>
    split at h
    · next hmark =>
      obtain ⟨w, rfl, hw, hrun⟩ := unicodeEscape_extent h
      exact ⟨b :: w, rfl, Passes.escaped b hw, fun rest => (if_pos hmark).trans (hrun rest)⟩
    · next hmark =>
      split at h
      · next c hletter =>
        cases h
        refine ⟨[b], rfl, Passes.escaped b (Passes.nil _), fun rest => ?_⟩
        rw [List.singleton_append, escape, if_neg hmark, hletter]
      · cases h

theorem stringFrom_extent {seen c : Bytes} (h : stringFrom seen s = .ok (c, r)) :
    ∃ w, s = w ++ r ∧ Passes .inString w .outside
      ∧ ∀ rest, stringFrom seen (w ++ rest) = .ok (c, rest) := by
  fun_induction stringFrom seen s with
  | case1 => cases h
  | case2 seen t =>
    cases h
    exact ⟨[Ascii.quote], rfl, Passes.closingQuote, stringFrom_quote seen⟩
  | case3 => cases h
  | case4 seen t _ c' u hshorter hescape ih =>
    obtain ⟨v, rfl, hv, hrun⟩ := escape_extent ‹_›
    obtain ⟨w, rfl, hw, hrest⟩ := ih h
    refine ⟨Ascii.backslash :: (v ++ w), congrArg _ (List.append_assoc ..).symm,
      Passes.backslash (hv.append hw), fun rest => ?_⟩
    rw [List.cons_append, List.append_assoc, stringFrom_backslash (hrun _)]
    exact hrest rest
  | case5 => cases h
  | case6 seen b t hquote hbackslash hcontrol ih =>
    obtain ⟨w, rfl, hw, hrest⟩ := ih h
    refine ⟨b :: w, rfl, Passes.inString hquote hbackslash hw, fun rest => ?_⟩
    rw [List.cons_append, stringFrom_plain hquote hbackslash hcontrol]
    exact hrest rest

/-- **A string** reaches from its opening quote to its closing one. -/
theorem text_extent {t : String} (h : text s = .ok (t, r)) :
    ∃ w, s = w ++ r ∧ Passes .inString w .outside ∧ ∀ rest, text (w ++ rest) = .ok (t, rest) := by
  unfold text at h
  split at h
  · cases h
  · next c u hstring =>
    obtain ⟨w, rfl, hw, hrun⟩ := stringFrom_extent hstring
    split at h
    · next t' hdecode =>
      cases h
      refine ⟨w, rfl, hw, fun rest => ?_⟩
      rw [text, hrun]
      simp only [hdecode]
    · cases h

/-! ## Strings that are stepped over -/

theorem skipEscape_extent (h : skipEscape s = .ok r) :
    ∃ w, s = w ++ r ∧ Passes .escaped w .inString ∧ ∀ rest, skipEscape (w ++ rest) = .ok rest := by
  unfold skipEscape at h
  split at h
  · cases h
  · next b t =>
    split at h
    · next hmark =>
      split at h
      · cases h
      · next n u hhex =>
        cases h
        obtain ⟨w, rfl, hw, hrun⟩ := hex4_extent hhex
        refine ⟨b :: w, rfl, Passes.escaped b hw, fun rest => ?_⟩
        rw [List.cons_append, skipEscape, if_pos hmark, hrun]
    · next hmark =>
      split at h
      · next hletter =>
        cases h
        refine ⟨[b], rfl, Passes.escaped b (Passes.nil _), fun rest => ?_⟩
        rw [List.singleton_append, skipEscape, if_neg hmark, if_pos hletter]
      · cases h

theorem skipString_backslash {t : Bytes} (h : skipEscape s = .ok t) :
    skipString (Ascii.backslash :: s) = skipString t := by
  rw [skipString, if_neg (by decide), if_pos rfl]
  split
  · next h' => rw [h] at h'; cases h'
  · next h' => rw [h] at h'; cases h'; rfl

theorem skipString_extent (h : skipString s = .ok r) :
    ∃ w, s = w ++ r ∧ Passes .inString w .outside ∧ ∀ rest, skipString (w ++ rest) = .ok rest := by
  fun_induction skipString s with
  | case1 => cases h
  | case2 t =>
    cases h
    refine ⟨[Ascii.quote], rfl, Passes.closingQuote, fun rest => ?_⟩
    rw [List.singleton_append, skipString, if_pos rfl]
  | case3 => cases h
  | case4 t _ u hshorter hescape ih =>
    obtain ⟨v, rfl, hv, hrun⟩ := skipEscape_extent ‹_›
    obtain ⟨w, rfl, hw, hrest⟩ := ih h
    refine ⟨Ascii.backslash :: (v ++ w), congrArg _ (List.append_assoc ..).symm,
      Passes.backslash (hv.append hw), fun rest => ?_⟩
    rw [List.cons_append, List.append_assoc, skipString_backslash (hrun _)]
    exact hrest rest
  | case5 => cases h
  | case6 b t hquote hbackslash hcontrol ih =>
    obtain ⟨w, rfl, hw, hrest⟩ := ih h
    refine ⟨b :: w, rfl, Passes.inString hquote hbackslash hw, fun rest => ?_⟩
    rw [List.cons_append, skipString, if_neg hquote, if_neg hbackslash, if_neg hcontrol]
    exact hrest rest

end Lexeme
end TopicRelay.Json
