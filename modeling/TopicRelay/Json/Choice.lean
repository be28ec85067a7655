/-
  Reading one of several named choices.

  A choice is written as its name, or as an object with one entry, from its name to null.
-/
import TopicRelay.Json.Reader

namespace TopicRelay.Json.Reader

variable {α : Type}

/-- The name of a choice. -/
def choiceName : Reader String := textAs "variant identifier"

/-- Null, where nothing else may stand. -/
def nothing : Reader Unit :=
  leaf "unit" (· == 0x6E)
    (fun _ r => match Lexeme.expectWord (Ascii.bytes "ull") r with
      | .error e => .error e
      | .ok t => .ok ((), t))
    fun h => by
      split at h
      · simp at h
      · next u hu =>
        simp only [Except.ok.injEq, Prod.mk.injEq] at h
        exact h.2 ▸ Lexeme.length_expectWord hu

/-- The bytes after the brace that closes an object of one entry. -/
def closingBrace (s : Bytes) : Except ReadError Bytes :=
  match Lexeme.skipBlanks s with
  | [] => .error .unexpectedEnd
  | b :: r => if b = Ascii.closeBrace then .ok r else .error .malformed

theorem length_closingBrace {s r : Bytes} (h : closingBrace s = .ok r) : r.length < s.length := by
  unfold closingBrace at h
  have hs := Lexeme.length_skipBlanks_le s
  split at h
  · simp at h
  · next b t heq =>
    rw [heq, List.length_cons] at hs
    split at h
    · simp only [Except.ok.injEq] at h; rw [← h]; omega
    · simp at h

/-- A name, then a colon, null and the closing brace. -/
def wrapped (item : Reader α) (s : Bytes) : Step α :=
  match item.run s with
  | .error e => .error e
  | .ok (a, r) => match afterColon r with
    | .error e => .error e
    | .ok r => match nothing.run r with
      | .error e => .error e
      | .ok ((), r) => match closingBrace r with
        | .error e => .error e
        | .ok r => .ok (a, r)

theorem length_wrapped {item : Reader α} {s r : Bytes} {a : α} (h : wrapped item s = .ok (a, r)) :
    r.length < s.length := by
  unfold wrapped at h
  split at h
  · simp at h
  · next b r₁ h₁ =>
    have := item.consumes h₁
    split at h
    · simp at h
    · next r₂ h₂ =>
      have := length_afterColon h₂
      split at h
      · simp at h
      · next r₃ h₃ =>
        have := nothing.consumes h₃
        split at h
        · simp at h
        · next r₄ h₄ =>
          have := length_closingBrace h₄
          simp only [Except.ok.injEq, Prod.mk.injEq] at h; rw [← h.2]; omega

/-- One of some choices, by name. -/
def choice (choices : List (String × α)) : Reader α :=
  let item : Reader α := choiceName.check fun name => match choices.lookup name with
    | some a => .ok a
    | none => .error (.unknownChoice name (choices.map Prod.fst))
  { run := fun s => match Lexeme.skipBlanks s with
      | [] => .error .unexpectedEnd
      | b :: r =>
        if b = Ascii.openBrace then wrapped item r
        else if b = Ascii.quote then item.run (b :: r)
        else .error .malformed
    consumes := fun {s r a} h => by
      have hs := Lexeme.length_skipBlanks_le s
      split at h
      · simp at h
      · next b t heq =>
        rw [heq, List.length_cons] at hs
        split at h
        · have := length_wrapped h; omega
        · split at h
          · have := item.consumes h
            simp only [List.length_cons] at this; omega
          · simp at h }

end TopicRelay.Json.Reader
