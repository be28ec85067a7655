/-
  What stands between values.

  Blanks, a comma, a colon, a closing bracket: the texts between the values of an array or an object
  are given by name (`Blanks`, `Between`), and each of the functions that deal out turns is described
  twice.  It gives a turn for such a text, whatever comes behind; and where it gives a turn, such a
  text was there.
-/
import Mathlib.Data.List.TakeWhile
import TopicRelay.Json.Reader
import TopicRelay.Proofs.Json.Values
import TopicRelay.Proofs.Wire.Nesting

namespace TopicRelay.Json

open Wire (Passes)
open Wire.Passes (isPlain)

variable {s r ws : Bytes} {b : UInt8}

/-! ## Blanks -/

/-- Blanks that may stand between lexemes. -/
def Blanks (ws : Bytes) : Prop := ∀ b ∈ ws, Lexeme.isSpace b = true

namespace Blanks

theorem isPlain_of_isSpace : ∀ b : UInt8, Lexeme.isSpace b = true → isPlain b = true := by
  intro b hb
  simp only [Lexeme.isSpace, Bool.or_eq_true, beq_iff_eq] at hb
  rcases hb with ((rfl | rfl) | rfl) | rfl <;> decide

theorem passes (h : Blanks ws) : Passes .outside ws .outside :=
  Passes.plain fun b hb => isPlain_of_isSpace b (h b hb)

theorem skipBlanks (h : Blanks ws) (hb : Lexeme.isSpace b = false) (r : Bytes) :
    Lexeme.skipBlanks (ws ++ b :: r) = b :: r := by
  rw [Lexeme.skipBlanks, List.dropWhile_append_of_pos h]
  exact Lexeme.skipBlanks_cons hb r

theorem skipBlanks_eq_nil (h : Blanks ws) : Lexeme.skipBlanks ws = [] :=
  List.dropWhile_eq_nil_iff.mpr h

end Blanks

/-- What stands in front of a byte that is not a blank. -/
theorem exists_blanks (h : Lexeme.skipBlanks s = b :: r) :
    ∃ ws, Blanks ws ∧ s = ws ++ b :: r ∧ Lexeme.isSpace b = false := by
  refine ⟨s.takeWhile Lexeme.isSpace, fun c hc => List.mem_takeWhile_imp hc, ?_, ?_⟩
  · rw [← h]
    exact (List.takeWhile_append_dropWhile).symm
  · rw [Lexeme.skipBlanks] at h
    have hne : s.dropWhile Lexeme.isSpace ≠ [] := h ▸ List.cons_ne_nil b r
    have hhead := List.dropWhile_get_zero_not Lexeme.isSpace s (List.length_pos_iff.mpr hne)
    simpa [h] using hhead

theorem blanks_of_skipBlanks (h : Lexeme.skipBlanks s = []) : Blanks s :=
  List.dropWhile_eq_nil_iff.mp h

/-! ## What may follow a value -/

/-- Nothing follows, or a blank, a comma or a closing bracket does. -/
def MayFollow (rest : Bytes) : Prop :=
  ∀ b ∈ rest.head?, Lexeme.isSpace b = true ∨ b = Ascii.comma ∨ b = Ascii.closeBracket
    ∨ b = Ascii.closeBrace

/-- No byte follows that would go on with a number. -/
def StopsNumber (rest : Bytes) : Prop :=
  ∀ b ∈ rest.head?, Ascii.isDigit b = false ∧ b ≠ Ascii.dot ∧ Lexeme.isExponentMark b = false

namespace MayFollow

theorem nil : MayFollow [] := by
  intro b hb
  cases hb

theorem closing (kind : Frame) (rest : Bytes) : MayFollow (kind.closing :: rest) := by
  intro b hb
  cases hb
  cases kind
  · exact Or.inr (Or.inr (Or.inl rfl))
  · exact Or.inr (Or.inr (Or.inr rfl))

theorem comma (rest : Bytes) : MayFollow (Ascii.comma :: rest) := by
  intro b hb
  cases hb
  exact Or.inr (Or.inl rfl)

theorem blanks_append (hws : Blanks ws) (h : MayFollow r) : MayFollow (ws ++ r) := by
  cases ws with
  | nil => exact h
  | cons b ws =>
    intro c hc
    cases hc
    exact Or.inl (hws b List.mem_cons_self)

theorem append {w : Bytes} (hw : MayFollow w) (h : MayFollow r) : MayFollow (w ++ r) := by
  cases w with
  | nil => exact h
  | cons b w => exact hw

theorem stopsNumber (h : MayFollow r) : StopsNumber r := by
  intro b hb
  have hfit := h b hb
  simp only [Lexeme.isSpace, Bool.or_eq_true, beq_iff_eq] at hfit
  rcases hfit with (((rfl | rfl) | rfl) | rfl) | rfl | rfl | rfl <;> decide

end MayFollow

theorem StopsNumber.not_isDigit {rest : Bytes} (h : StopsNumber rest) :
    rest.head?.any Ascii.isDigit = false := by
  cases rest with
  | nil => rfl
  | cons b r => exact (h b rfl).1

/-! ## Turns -/

/-- What stands between two values, or between an opening bracket and the first value. -/
inductive Between : (first : Bool) → Bytes → Prop where
  | blanks {ws : Bytes} (h : Blanks ws) : Between true ws
  | comma {ws ws' : Bytes} (h : Blanks ws) (h' : Blanks ws') : Between false (ws ++ Ascii.comma :: ws')

variable {first : Bool} {sep : Bytes}

theorem Between.passes (h : Between first sep) : Passes .outside sep .outside := by
  cases h with
  | blanks h => exact h.passes
  | comma h h' =>
    refine h.passes.append (Passes.cons (fun stack => rfl) h'.passes)

theorem Between.mayFollow (h : Between false sep) (rest : Bytes) : MayFollow (sep ++ rest) := by
  cases h with
  | comma h h' =>
    rw [List.append_assoc]
    exact MayFollow.blanks_append h (MayFollow.comma _)

theorem nextItem_closing (h : Blanks ws) (first : Bool) (r : Bytes) :
    nextItem first (ws ++ Frame.array.closing :: r) = .ok (.closed r) := by
  rw [nextItem, h.skipBlanks (by decide)]
  exact if_pos rfl

theorem nextItem_between (h : Between first sep) (hs : StartsValue s) :
    nextItem first (sep ++ s) = .ok (.more s) := by
  obtain ⟨b, r, rfl, hb, hne⟩ := hs
  cases h with
  | blanks h =>
    rw [nextItem, h.skipBlanks hb]
    simp only [if_neg hne, if_true]
  | comma h h' =>
    rw [nextItem, List.append_assoc, List.cons_append, h.skipBlanks (by decide)]
    simp only [h'.skipBlanks hb, if_neg hne]
    rfl

theorem exists_of_nextItem_closed (h : nextItem first s = .ok (.closed r)) :
    ∃ ws, Blanks ws ∧ s = ws ++ Frame.array.closing :: r := by
  unfold nextItem at h
  split at h
  · cases h
  · next b t hblanks =>
    obtain ⟨ws, hws, rfl, -⟩ := exists_blanks hblanks
    grind [Frame.closing]

theorem exists_of_nextItem_more (h : nextItem first s = .ok (.more r)) :
    ∃ sep, Between first sep ∧ s = sep ++ r ∧ StartsValue r := by
  unfold nextItem at h
  split at h
  · cases h
  · next b t hblanks =>
    obtain ⟨ws, hws, rfl, hb⟩ := exists_blanks hblanks
    split at h
    · cases h
    · next hne =>
      split at h
      · next hfirst =>
        cases h
        subst hfirst
        exact ⟨ws, .blanks hws, rfl, b, t, rfl, hb, hne⟩
      · next hfirst =>
        split at h
        · next hcomma =>
          subst hcomma
          split at h
          · cases h
          · next c u hblanks' =>
            obtain ⟨ws', hws', rfl, hc⟩ := exists_blanks hblanks'
            split at h
            · cases h
            · next hne' =>
              cases h
              rw [Bool.not_eq_true] at hfirst
              subst hfirst
              refine ⟨ws ++ Ascii.comma :: ws', .comma hws hws', ?_, c, u, rfl, hc, hne'⟩
              rw [List.append_assoc, List.cons_append]
        · cases h

theorem nextKey_closing (h : Blanks ws) (first : Bool) (r : Bytes) :
    nextKey first (ws ++ Frame.object.closing :: r) = .ok (.closed r) := by
  rw [nextKey, h.skipBlanks (by decide)]
  exact if_pos rfl

theorem nextKey_between (h : Between first sep) (r : Bytes) :
    nextKey first (sep ++ Ascii.quote :: r) = .ok (.more r) := by
  have hquote : Lexeme.isSpace Ascii.quote = false := by decide
  cases h with
  | blanks h =>
    rw [nextKey, h.skipBlanks hquote]
    rfl
  | comma h h' =>
    rw [nextKey, List.append_assoc, List.cons_append, h.skipBlanks (by decide)]
    simp only [h'.skipBlanks hquote]
    rfl

theorem exists_of_nextKey_closed (h : nextKey first s = .ok (.closed r)) :
    ∃ ws, Blanks ws ∧ s = ws ++ Frame.object.closing :: r := by
  unfold nextKey at h
  split at h
  · cases h
  · next b t hblanks =>
    obtain ⟨ws, hws, rfl, -⟩ := exists_blanks hblanks
    grind [Frame.closing]

theorem exists_of_nextKey_more (h : nextKey first s = .ok (.more r)) :
    ∃ sep, Between first sep ∧ s = sep ++ Ascii.quote :: r := by
  unfold nextKey at h
  split at h
  · cases h
  · next b t hblanks =>
    obtain ⟨ws, hws, rfl, -⟩ := exists_blanks hblanks
    split at h
    · cases h
    split at h
    · next hfirst =>
      split at h
      · next hquote =>
        cases h
        subst hfirst hquote
        exact ⟨ws, .blanks hws, rfl⟩
      · cases h
    · next hfirst =>
      rw [Bool.not_eq_true] at hfirst
      subst hfirst
      split at h
      · next hcomma =>
        subst hcomma
        split at h
        · cases h
        · next c u hblanks' =>
          obtain ⟨ws', hws', rfl, -⟩ := exists_blanks hblanks'
          split at h
          · next hquote =>
            cases h
            subst hquote
            refine ⟨ws ++ Ascii.comma :: ws', .comma hws hws', ?_⟩
            rw [List.append_assoc, List.cons_append]
          · cases h
      · cases h

theorem afterColon_blanks (h : Blanks ws) (r : Bytes) :
    afterColon (ws ++ Ascii.colon :: r) = .ok r := by
  rw [afterColon, h.skipBlanks (by decide)]
  exact if_pos rfl

theorem exists_of_afterColon (h : afterColon s = .ok r) :
    ∃ ws, Blanks ws ∧ s = ws ++ Ascii.colon :: r := by
  unfold afterColon at h
  split at h
  · cases h
  · next b t hblanks =>
    obtain ⟨ws, hws, rfl, -⟩ := exists_blanks hblanks
    split at h
    · next hcolon =>
      cases h
      subst hcolon
      exact ⟨ws, hws, rfl⟩
    · cases h

end TopicRelay.Json
