/-
  Reading JSON into types, from left to right.

  A `Reader α` turns the head of some bytes into a value of `α`.  It is more than a function: that
  a reader which succeeds has used bytes up is part of the type.  So a loop over the items of an
  array or the entries of an object ends because the bytes run out, and needs no other bound.

  A reader stops at the first problem it meets, and a problem of form (`malformed`,
  `unexpectedEnd`) is met as late as a problem of shape (`wrongKind`, …) in what stands before it:
  nothing is looked at ahead of its turn.
-/
import TopicRelay.Base64
import TopicRelay.Json.Skip
import TopicRelay.SortedMap

namespace TopicRelay.Json

/-- A function from bytes to a value and the bytes after it that never gives back all it was given. -/
structure Reader (α : Type) where
  run : Bytes → Step α
  consumes : ∀ {s r : Bytes} {a : α}, run s = .ok (a, r) → r.length < s.length

/-! ## Values of the wrong kind, and values nobody wants -/

/-- The error for a value that is not of the expected kind.  A single value is read to its end, so
    that a problem inside it comes first; of an array or object the bracket is enough. -/
def mismatch (expected : String) (s : Bytes) : ReadError :=
  match s with
  | [] => .unexpectedEnd
  | b :: r =>
    let word (w : String) (k : Kind) : ReadError :=
      match Lexeme.expectWord (Ascii.bytes w) r with
      | .ok _ => .wrongKind k expected
      | .error e => e
    if b = 0x6E then word "ull" .null
    else if b = 0x74 then word "rue" .boolean
    else if b = 0x66 then word "alse" .boolean
    else if b = Ascii.minus || Ascii.isDigit b then
      match Lexeme.number s with
      | .ok (.floating, _) => .wrongKind .floatingPoint expected
      | .ok _ => .wrongKind .integer expected
      | .error e => e
    else if b = Ascii.quote then
      match Lexeme.text r with
      | .ok _ => .wrongKind .string expected
      | .error e => e
    else if b = Ascii.openBracket then .wrongKind .sequence expected
    else if b = Ascii.openBrace then .wrongKind .map expected
    else .malformed

namespace Reader

variable {α β : Type}

/-- The same reader with its value handed to `f`. -/
def map (f : α → β) (item : Reader α) : Reader β where
  run s := match item.run s with
    | .error e => .error e
    | .ok (a, r) => .ok (f a, r)
  consumes {s r b} h := by
    split at h
    · simp at h
    · next a t ht =>
      simp only [Except.ok.injEq, Prod.mk.injEq] at h
      exact h.2 ▸ item.consumes ht

/-- The same reader with its value checked and converted by `f`. -/
def check (f : α → Except ReadError β) (item : Reader α) : Reader β where
  run s := match item.run s with
    | .error e => .error e
    | .ok (a, r) => match f a with
      | .error e => .error e
      | .ok b => .ok (b, r)
  consumes {s r b} h := by
    split at h
    · simp at h
    · next a t ht =>
      split at h
      · simp at h
      · simp only [Except.ok.injEq, Prod.mk.injEq] at h
        exact h.2 ▸ item.consumes ht

/-- A reader for values whose first byte passes `starts`; what stands elsewhere is a mismatch. -/
def leaf (expected : String) (starts : UInt8 → Bool) (read : UInt8 → Bytes → Step α)
    (shrinks : ∀ {b : UInt8} {r t : Bytes} {a : α}, read b r = .ok (a, t) → t.length ≤ r.length) :
    Reader α where
  run s := match Lexeme.skipBlanks s with
    | [] => .error .unexpectedEnd
    | b :: r => if starts b then read b r else .error (mismatch expected (b :: r))
  consumes {s r a} h := by
    have hs := Lexeme.length_skipBlanks_le s
    split at h
    · simp at h
    · next b t heq =>
      rw [heq, List.length_cons] at hs
      split at h
      · exact Nat.lt_of_le_of_lt (shrinks h) hs
      · simp at h

/-! ## Single values -/

/-- A text, by whatever name it is `expected`. -/
def textAs (expected : String) : Reader String :=
  leaf expected (· == Ascii.quote) (fun _ r => Lexeme.text r)
    fun h => Nat.le_of_lt (Lexeme.length_text h)

/-- A text. -/
def text : Reader String := textAs "a string"

/-- A truth value. -/
def boolean : Reader Bool :=
  leaf "a boolean" (fun b => b == 0x74 || b == 0x66)
    (fun b r => match Lexeme.expectWord (Ascii.bytes (if b = 0x74 then "rue" else "alse")) r with
      | .error e => .error e
      | .ok t => .ok (b == 0x74, t))
    fun h => by
      split at h
      · simp at h
      · next u hu =>
        simp only [Except.ok.injEq, Prod.mk.injEq] at h
        exact h.2 ▸ Lexeme.length_expectWord hu

/-- A whole number from zero to `bound`, for a type with the name `expected`. -/
def natural (expected : String) (bound : Nat) : Reader Nat :=
  leaf expected (fun b => b == Ascii.minus || Ascii.isDigit b)
    (fun b r => match Lexeme.number (b :: r) with
      | .error e => .error e
      | .ok (.natural n, t) =>
        if n ≤ bound then .ok (n, t) else .error (.integerOutOfRange expected)
      | .ok (.negative _, _) => .error (.integerOutOfRange expected)
      | .ok (.floating, _) => .error (.wrongKind .floatingPoint expected))
    fun {b r t a} h => by
      split at h
      · simp at h
      · next n u hu =>
        have := Lexeme.length_number hu
        simp only [List.length_cons] at this
        split at h
        · simp only [Except.ok.injEq, Prod.mk.injEq] at h; rw [← h.2]; omega
        · simp at h
      · simp at h
      · simp at h

/-- A number of 16 bits. -/
def word16 : Reader UInt16 := (natural "u16" 0xFFFF).map UInt16.ofNat

/-- A number of 32 bits. -/
def word32 : Reader UInt32 := (natural "u32" 0xFFFFFFFF).map UInt32.ofNat

/-- A number of 64 bits. -/
def word64 : Reader UInt64 := (natural "u64" 0xFFFFFFFFFFFFFFFF).map UInt64.ofNat

/-- A count or size. -/
def size : Reader Nat := natural "usize" 0xFFFFFFFFFFFFFFFF

/-- Bytes written as Base64 text. -/
def payload : Reader Bytes := text.check fun s =>
  match Base64.decode? (Text.Utf8.encode s) with
  | some bs => .ok bs
  | none => .error .invalidBase64

/-- A value, or null for none. -/
def nullable (item : Reader α) : Reader (Option α) where
  run s := match Lexeme.skipBlanks s with
    | [] => .error .unexpectedEnd
    | b :: r =>
      if b = 0x6E then match Lexeme.expectWord (Ascii.bytes "ull") r with
        | .error e => .error e
        | .ok t => .ok (none, t)
      else match item.run (b :: r) with
        | .error e => .error e
        | .ok (a, t) => .ok (some a, t)
  consumes {s r a} h := by
    have hs := Lexeme.length_skipBlanks_le s
    split at h
    · simp at h
    · next b t heq =>
      rw [heq, List.length_cons] at hs
      split at h
      · split at h
        · simp at h
        · next u hu =>
          have := Lexeme.length_expectWord hu
          simp only [Except.ok.injEq, Prod.mk.injEq] at h; rw [← h.2]; omega
      · split at h
        · simp at h
        · next a' u hu =>
          have := item.consumes hu
          simp only [List.length_cons] at this
          simp only [Except.ok.injEq, Prod.mk.injEq] at h; rw [← h.2]; omega

/-! ## Arrays -/

/-- The items of an array after those in `seen`, which is in reverse, from the next item on. -/
def itemsFrom (item : Reader α) (seen : List α) (s : Bytes) : Step (List α) :=
  match h : item.run s with
  | .error e => .error e
  | .ok (a, r) =>
    have := item.consumes h
    match h : nextItem false r with
    | .error e => .error e
    | .ok (.closed t) => .ok ((a :: seen).reverse, t)
    | .ok (.more t) =>
      have := length_nextItem h
      itemsFrom item (a :: seen) t
termination_by s.length
decreasing_by simp only [Turn.rest] at *; omega

theorem length_itemsFrom {item : Reader α} {seen l : List α} {s r : Bytes}
    (h : itemsFrom item seen s = .ok (l, r)) : r.length < s.length := by
  fun_induction itemsFrom item seen s with
  | case1 => simp at h
  | case2 => simp at h
  | case3 seen s a t hlt _ u hu =>
    have := length_nextItem hu
    simp only [Except.ok.injEq, Prod.mk.injEq] at h
    simp only [Turn.rest] at this; rw [← h.2]; omega
  | case4 seen s a t hlt _ u hu hle ih =>
    have := ih h
    simp only [Turn.rest] at hle; omega

/-- The items of an array after its opening bracket. -/
def items (item : Reader α) (s : Bytes) : Step (List α) :=
  match nextItem true s with
  | .error e => .error e
  | .ok (.closed r) => .ok ([], r)
  | .ok (.more r) => itemsFrom item [] r

/-- An array of any length. -/
def list (item : Reader α) : Reader (List α) :=
  leaf "a sequence" (· == Ascii.openBracket) (fun _ r => items item r) fun {b r t l} h => by
    unfold items at h
    split at h
    · simp at h
    · next u hu =>
      have := length_nextItem hu
      simp only [Except.ok.injEq, Prod.mk.injEq] at h
      rw [← h.2]; exact this
    · next u hu =>
      have := length_nextItem hu
      have := length_itemsFrom h
      simp only [Turn.rest] at *; omega

/-- An array of texts as a set. -/
def keySet : Reader KeySet := (list text).map KeySet.ofKeys

/-! ## Objects -/

/-- How the entries of an object are taken in: from what was gathered so far, a key, and the bytes
    after the key, on to what is gathered then and the bytes after the entry. -/
structure EntryReader (σ : Type) where
  run : σ → String → Bytes → Step σ
  shrinks : ∀ {x y : σ} {k : String} {s r : Bytes}, run x k s = .ok (y, r) → r.length ≤ s.length

/-- The entries of an object, `first` saying that none has been read yet. -/
def entriesFrom (entry : EntryReader β) (x : β) (first : Bool) (s : Bytes) : Step β :=
  match h : nextKey first s with
  | .error e => .error e
  | .ok (.closed r) => .ok (x, r)
  | .ok (.more r) =>
    have := length_nextKey h
    match h : Lexeme.text r with
    | .error e => .error e
    | .ok (k, t) =>
      have := Lexeme.length_text h
      match h : entry.run x k t with
      | .error e => .error e
      | .ok (y, u) =>
        have := entry.shrinks h
        entriesFrom entry y false u
termination_by s.length
decreasing_by simp only [Turn.rest] at *; omega

theorem length_entriesFrom {entry : EntryReader β} {x y : β} {first : Bool} {s r : Bytes}
    (h : entriesFrom entry x first s = .ok (y, r)) : r.length < s.length := by
  fun_induction entriesFrom entry x first s with
  | case1 => simp at h
  | case2 x first s t ht =>
    have := length_nextKey ht
    simp only [Except.ok.injEq, Prod.mk.injEq] at h
    simp only [Turn.rest] at this; rw [← h.2]; exact this
  | case3 => simp at h
  | case4 => simp at h
  | case5 =>
    next ih => have := ih h; simp only [Turn.rest] at *; omega

/-- An entry of a map: the last value of a key counts. -/
def mapEntry (value : Reader α) : EntryReader (SortedMap α) where
  run m k s := match afterColon s with
    | .error e => .error e
    | .ok r => match value.run r with
      | .error e => .error e
      | .ok (v, t) => .ok (m.insert k v, t)
  shrinks {x y k s r} h := by
    split at h
    · simp at h
    · next t ht =>
      have := length_afterColon ht
      split at h
      · simp at h
      · next v u hu =>
        have := value.consumes hu
        simp only [Except.ok.injEq, Prod.mk.injEq] at h; rw [← h.2]; omega

/-- An object as a map from its keys. -/
def sortedMap (value : Reader α) : Reader (SortedMap α) :=
  leaf "a map" (· == Ascii.openBrace)
    (fun _ r => entriesFrom (mapEntry value) SortedMap.empty true r)
    fun h => Nat.le_of_lt (length_entriesFrom h)

/-! ## Whole texts -/

/-- Reads a text that holds one value and nothing else but blanks. -/
def document (item : Reader α) (s : Bytes) : Except ReadError α :=
  match item.run s with
  | .error e => .error e
  | .ok (a, r) => if (Lexeme.skipBlanks r).isEmpty then .ok a else .error .malformed

end Reader
end TopicRelay.Json
