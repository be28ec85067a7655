/-
  Stepping over a value that nobody asked for.

  The fields of a record that the library does not know have to be well-formed JSON, to any depth,
  and are otherwise ignored: a string may hold any bytes and lone surrogates, a number may be out
  of range.  The open brackets are kept in a list, so depth costs no recursion.
-/
import TopicRelay.Json.Turn

namespace TopicRelay.Json

/-- A bracket that is still open. -/
inductive Frame where
  | array | object
deriving DecidableEq, Repr

/-- Where stepping over a value stands: before a value, or after one. -/
inductive SkipState where
  | before | after
deriving DecidableEq, Repr

/-- How many values still have to come. -/
def SkipState.owed : SkipState → Nat
  | .before => 1
  | .after => 0

/-- Steps over one value that is not an array or object: the bytes after it. -/
def skipScalar (b : UInt8) (r : Bytes) : Except ReadError Bytes :=
  if b = 0x6E then Lexeme.expectWord (Ascii.bytes "ull") r
  else if b = 0x74 then Lexeme.expectWord (Ascii.bytes "rue") r
  else if b = 0x66 then Lexeme.expectWord (Ascii.bytes "alse") r
  else if b = Ascii.minus || Ascii.isDigit b then Lexeme.skipNumber (b :: r)
  else if b = Ascii.quote then Lexeme.skipString r
  else .error .malformed

theorem length_skipScalar {b : UInt8} {r t : Bytes} (h : skipScalar b r = .ok t) :
    t.length ≤ r.length := by
  unfold skipScalar at h
  split at h
  · exact Lexeme.length_expectWord h
  · split at h
    · exact Lexeme.length_expectWord h
    · split at h
      · exact Lexeme.length_expectWord h
      · split at h
        · have := Lexeme.length_skipNumber h; simp only [List.length_cons] at this; omega
        · split at h
          · have := Lexeme.length_skipString h; omega
          · simp at h

/-- Steps over the key of an entry, after its opening quote, and the colon. -/
def skipKey (s : Bytes) : Except ReadError Bytes :=
  match Lexeme.skipString s with
  | .error e => .error e
  | .ok r => afterColon r

theorem length_skipKey {s r : Bytes} (h : skipKey s = .ok r) : r.length < s.length := by
  unfold skipKey at h
  split at h
  · simp at h
  · next t ht => have := Lexeme.length_skipString ht; have := length_afterColon h; omega

/-- Steps over a value of any kind and any depth.  `stack` holds the brackets that are open, the
    innermost first; the value ends when none is left. -/
def skipFrom (stack : List Frame) (state : SkipState) (s : Bytes) : Except ReadError Bytes :=
  match state, stack with
  | .after, [] => .ok s
  | .after, .array :: outer =>
    match h : nextItem false s with
    | .error e => .error e
    | .ok (.closed r) =>
      have := length_nextItem h
      skipFrom outer .after r
    | .ok (.more r) =>
      have := length_nextItem h
      skipFrom (.array :: outer) .before r
  | .after, .object :: outer =>
    match h : nextKey false s with
    | .error e => .error e
    | .ok (.closed r) =>
      have := length_nextKey h
      skipFrom outer .after r
    | .ok (.more r) =>
      have := length_nextKey h
      match h : skipKey r with
      | .error e => .error e
      | .ok t =>
        have := length_skipKey h
        skipFrom (.object :: outer) .before t
  | .before, stack =>
    match hb : Lexeme.skipBlanks s with
    | [] => .error .unexpectedEnd
    | b :: r =>
      have : (b :: r).length ≤ s.length := hb ▸ Lexeme.length_skipBlanks_le s
      if b = Ascii.openBracket then
        match h : nextItem true r with
        | .error e => .error e
        | .ok (.closed t) =>
          have := length_nextItem h
          skipFrom stack .after t
        | .ok (.more t) =>
          have := length_nextItem h
          skipFrom (.array :: stack) .before t
      else if b = Ascii.openBrace then
        match h : nextKey true r with
        | .error e => .error e
        | .ok (.closed t) =>
          have := length_nextKey h
          skipFrom stack .after t
        | .ok (.more t) =>
          have := length_nextKey h
          match h : skipKey t with
          | .error e => .error e
          | .ok u =>
            have := length_skipKey h
            skipFrom (.object :: stack) .before u
      else
        match h : skipScalar b r with
        | .error e => .error e
        | .ok t =>
          have := length_skipScalar h
          skipFrom stack .after t
termination_by 3 * s.length + 2 * stack.length + (1 - state.owed)
decreasing_by all_goals (simp_all only [Turn.rest, List.length_cons, SkipState.owed]; omega)

/-- Stepping over a value uses bytes up. -/
theorem length_skipFrom {stack : List Frame} {state : SkipState} {s r : Bytes}
    (h : skipFrom stack state s = .ok r) :
    r.length + state.owed ≤ s.length := by
  fun_induction skipFrom stack state s
  all_goals first
    | (simp only [Except.ok.injEq] at h; subst h; exact Nat.le_refl _)
    | (rename_i ih; have := ih h; simp only [Turn.rest, SkipState.owed, List.length_cons] at *; omega)
    | contradiction

/-- Steps over one value. -/
def skipValue (s : Bytes) : Except ReadError Bytes := skipFrom [] .before s

theorem length_skipValue {s r : Bytes} (h : skipValue s = .ok r) : r.length < s.length :=
  length_skipFrom h

end TopicRelay.Json
