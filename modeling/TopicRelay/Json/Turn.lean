/-
  What stands between the values of an array or an object.

  After an opening bracket, and after each value, it is either another value's turn or the brackets
  close.  Commas, colons and the rule that no comma stands before a closing bracket live here and
  nowhere else.
-/
import TopicRelay.Json.Lexeme

namespace TopicRelay.Json

/-- After an opening bracket or a value: another value follows, or the brackets close. -/
inductive Turn where
  | more (rest : Bytes)
  | closed (rest : Bytes)

/-- The bytes to go on with. -/
def Turn.rest : Turn → Bytes
  | .more r => r
  | .closed r => r

/-- The turn in an array; `first` says that no item has been read yet.  With another item, what is
    left begins with it. -/
def nextItem (first : Bool) (s : Bytes) : Except ReadError Turn :=
  match Lexeme.skipBlanks s with
  | [] => .error .unexpectedEnd
  | b :: r =>
    if b = Ascii.closeBracket then .ok (.closed r)
    else if first then .ok (.more (b :: r))
    else if b = Ascii.comma then
      match Lexeme.skipBlanks r with
      | [] => .error .unexpectedEnd
      | c :: t => if c = Ascii.closeBracket then .error .malformed else .ok (.more (c :: t))
    else .error .malformed

theorem length_nextItem {first : Bool} {s : Bytes} {t : Turn} (h : nextItem first s = .ok t) :
    t.rest.length ≤ s.length := by
  unfold nextItem at h
  have hs := Lexeme.length_skipBlanks_le s
  split at h
  · simp at h
  · next b r heq =>
    rw [heq, List.length_cons] at hs
    have hr := Lexeme.length_skipBlanks_le r
    split at h
    · simp only [Except.ok.injEq] at h; rw [← h]; simp only [Turn.rest]; omega
    · split at h
      · simp only [Except.ok.injEq] at h; rw [← h]; simp only [Turn.rest, List.length_cons]; omega
      · split at h
        · split at h
          · simp at h
          · next c u hc =>
            rw [hc, List.length_cons] at hr
            split at h
            · simp at h
            · simp only [Except.ok.injEq] at h
              rw [← h]; simp only [Turn.rest, List.length_cons]; omega
        · simp at h

/-- The turn in an object.  With another entry, what is left begins after the opening quote of its
    key. -/
def nextKey (first : Bool) (s : Bytes) : Except ReadError Turn :=
  match Lexeme.skipBlanks s with
  | [] => .error .unexpectedEnd
  | b :: r =>
    if b = Ascii.closeBrace then .ok (.closed r)
    else if first then
      if b = Ascii.quote then .ok (.more r) else .error .malformed
    else if b = Ascii.comma then
      match Lexeme.skipBlanks r with
      | [] => .error .unexpectedEnd
      | c :: t => if c = Ascii.quote then .ok (.more t) else .error .malformed
    else .error .malformed

theorem length_nextKey {first : Bool} {s : Bytes} {t : Turn} (h : nextKey first s = .ok t) :
    t.rest.length < s.length := by
  unfold nextKey at h
  have hs := Lexeme.length_skipBlanks_le s
  split at h
  · simp at h
  · next b r heq =>
    rw [heq, List.length_cons] at hs
    have hr := Lexeme.length_skipBlanks_le r
    split at h
    · simp only [Except.ok.injEq] at h; rw [← h]; simp only [Turn.rest]; omega
    · split at h
      · split at h
        · simp only [Except.ok.injEq] at h; rw [← h]; simp only [Turn.rest]; omega
        · simp at h
      · split at h
        · split at h
          · simp at h
          · next c u hc =>
            rw [hc, List.length_cons] at hr
            split at h
            · simp only [Except.ok.injEq] at h; rw [← h]; simp only [Turn.rest]; omega
            · simp at h
        · simp at h

/-- The bytes after the colon that has to follow a key. -/
def afterColon (s : Bytes) : Except ReadError Bytes :=
  match Lexeme.skipBlanks s with
  | [] => .error .unexpectedEnd
  | b :: r => if b = Ascii.colon then .ok r else .error .malformed

theorem length_afterColon {s r : Bytes} (h : afterColon s = .ok r) : r.length < s.length := by
  unfold afterColon at h
  have hs := Lexeme.length_skipBlanks_le s
  split at h
  · simp at h
  · next b t heq =>
    rw [heq, List.length_cons] at hs
    split at h
    · simp only [Except.ok.injEq] at h; rw [← h]; omega
    · simp at h

end TopicRelay.Json
