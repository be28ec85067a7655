/-
  MessagePack: the binary format of stored records.

  A value starts with a byte that says what it is; numbers, texts and collections come in several
  widths.  The writer always takes the shortest.  The reader looks at a value through its `Head`:
  a single value as a whole, of a collection only the number of its items, which follow.
-/
import TopicRelay.BigEndian

namespace TopicRelay.MessagePack

/-! ## Writing -/

/-- The head of an array of fewer than sixteen items. -/
def smallArray (n : Nat) : Bytes := [UInt8.ofNat (0x90 + n)]

/-- The head of a text of fewer than 2³² bytes. -/
def textHead (n : Nat) : Bytes :=
  if n < 32 then [UInt8.ofNat (0xA0 + n)]
  else if n < 0x100 then 0xD9 :: BigEndian.encode 1 n
  else if n < 0x10000 then 0xDA :: BigEndian.encode 2 n
  else 0xDB :: BigEndian.encode 4 n

/-- A text from its bytes.  Of their number only the lowest 32 bits are written, so that a text of 2³²
    bytes or more gets the head of a shorter one. -/
def text (bs : Bytes) : Bytes := textHead (bs.length % 0x100000000) ++ bs

/-- A natural number below 2⁶⁴. -/
def natural (n : Nat) : Bytes :=
  if n < 0x80 then [UInt8.ofNat n]
  else if n < 0x100 then 0xCC :: BigEndian.encode 1 n
  else if n < 0x10000 then 0xCD :: BigEndian.encode 2 n
  else if n < 0x100000000 then 0xCE :: BigEndian.encode 4 n
  else 0xCF :: BigEndian.encode 8 n

/-! ## Reading -/

/-- What a value starts with. -/
inductive Head where
  /-- A whole number in one of the forms without a sign. -/
  | unsigned (n : Nat)
  /-- A whole number in one of the forms with a sign. -/
  | signed (n : Int)
  /-- The bytes of a text, which need not be UTF-8. -/
  | text (bs : Bytes)
  | binary (bs : Bytes)
  | array (items : Nat)
  | map (entries : Nat)
  /-- Any other single value. -/
  | other
deriving DecidableEq, Repr

/-- The number with a sign that a word of `count` bytes stands for. -/
def ofTwosComplement (count n : Nat) : Int :=
  if n < 1 <<< (8 * count - 1) then (n : Int) else (n : Int) - (1 <<< (8 * count) : Nat)

/-- How a head goes on after its first byte. -/
inductive Form where
  /-- The head is complete. -/
  | complete (head : Head)
  /-- A number of `width` bytes. -/
  | word (width : Nat) (head : Nat → Head)
  /-- As many bytes as `size` says. -/
  | sized (size : Nat) (head : Bytes → Head)
  /-- A length of `width` bytes, and then as many bytes and `extra` ones. -/
  | counted (width extra : Nat) (head : Bytes → Head)

/-- How the head goes on that starts with a byte; one byte starts none. -/
def form (b : UInt8) : Option Form :=
  let other (_ : Bytes) : Head := .other
  let n := b.toNat
  if n < 0x80 then some (.complete (.unsigned n))
  else if n < 0x90 then some (.complete (.map (n - 0x80)))
  else if n < 0xA0 then some (.complete (.array (n - 0x90)))
  else if n < 0xC0 then some (.sized (n - 0xA0) .text)
  else if n ≥ 0xE0 then some (.complete (.signed (ofTwosComplement 1 n)))
  else match n with
    | 0xC0 => some (.complete .other)
    | 0xC1 => none
    | 0xC2 => some (.complete .other)
    | 0xC3 => some (.complete .other)
    | 0xC4 => some (.counted 1 0 .binary)
    | 0xC5 => some (.counted 2 0 .binary)
    | 0xC6 => some (.counted 4 0 .binary)
    -- an extension has one more byte, for its type
    | 0xC7 => some (.counted 1 1 other)
    | 0xC8 => some (.counted 2 1 other)
    | 0xC9 => some (.counted 4 1 other)
    | 0xCA => some (.sized 4 other)
    | 0xCB => some (.sized 8 other)
    | 0xCC => some (.word 1 .unsigned)
    | 0xCD => some (.word 2 .unsigned)
    | 0xCE => some (.word 4 .unsigned)
    | 0xCF => some (.word 8 .unsigned)
    | 0xD0 => some (.word 1 fun w => .signed (ofTwosComplement 1 w))
    | 0xD1 => some (.word 2 fun w => .signed (ofTwosComplement 2 w))
    | 0xD2 => some (.word 4 fun w => .signed (ofTwosComplement 4 w))
    | 0xD3 => some (.word 8 fun w => .signed (ofTwosComplement 8 w))
    | 0xD4 => some (.sized 2 other)
    | 0xD5 => some (.sized 3 other)
    | 0xD6 => some (.sized 5 other)
    | 0xD7 => some (.sized 9 other)
    | 0xD8 => some (.sized 17 other)
    | 0xD9 => some (.counted 1 0 .text)
    | 0xDA => some (.counted 2 0 .text)
    | 0xDB => some (.counted 4 0 .text)
    | 0xDC => some (.word 2 .array)
    | 0xDD => some (.word 4 .array)
    | 0xDE => some (.word 2 .map)
    | _ => some (.word 4 .map)

/-- Reads what follows the first byte of a head. -/
def Form.read (bs : Bytes) : Form → Option (Head × Bytes)
  | .complete head => some (head, bs)
  | .word width head => (BigEndian.decode? width bs).map fun w => (head w.1, w.2)
  | .sized size head => (BigEndian.split? size bs).map fun s => (head s.1, s.2)
  | .counted width extra head => match BigEndian.decode? width bs with
    | none => none
    | some (n, rest) => (BigEndian.split? (n + extra) rest).map fun s => (head s.1, s.2)

theorem Form.length_read {form : Form} {h : Head} {bs rest : Bytes}
    (heq : form.read bs = some (h, rest)) : rest.length ≤ bs.length := by
  cases form with
  | complete head =>
    simp only [read, Option.some.injEq, Prod.mk.injEq] at heq
    exact heq.2 ▸ Nat.le_refl _
  | word width head =>
    obtain ⟨w, hw, e⟩ := Option.map_eq_some_iff.mp heq
    simp only [Prod.mk.injEq] at e
    exact e.2 ▸ BigEndian.length_decode? hw
  | sized size head =>
    obtain ⟨s, hs, e⟩ := Option.map_eq_some_iff.mp heq
    simp only [Prod.mk.injEq] at e
    exact e.2 ▸ BigEndian.length_split? hs
  | counted width extra head =>
    simp only [read] at heq
    split at heq
    · simp at heq
    · next n t ht =>
      have hle := BigEndian.length_decode? ht
      obtain ⟨s, hs, e⟩ := Option.map_eq_some_iff.mp heq
      simp only [Prod.mk.injEq] at e
      exact Nat.le_trans (e.2 ▸ BigEndian.length_split? hs) hle

/-- The head of the value that starts with the byte `b`, and what follows it. -/
def headFrom (b : UInt8) (rest : Bytes) : Option (Head × Bytes) := (form b).bind (·.read rest)

theorem length_headFrom {b : UInt8} {h : Head} {bs rest : Bytes}
    (heq : headFrom b bs = some (h, rest)) : rest.length ≤ bs.length := by
  obtain ⟨f, _, hf⟩ := Option.bind_eq_some_iff.mp heq
  exact Form.length_read hf

/-- The head of the first value, and what follows it. -/
def head? : Bytes → Option (Head × Bytes)
  | [] => none
  | b :: rest => headFrom b rest

/-! ## Passing values over -/

/-- How many collections may stand inside one another. -/
def maxDepth : Nat := 1023

/-- How many values follow a head on the level below it, if it opens one. -/
def Head.opens : Head → Option Nat
  | .array n => some n
  | .map n => some (2 * n)
  | _ => none

/-- Passes over the values that are due.  The list has their number for each open level, the
    innermost first. -/
def passFrom : List Nat → Bytes → Option Bytes
  | [], bs => some bs
  | 0 :: levels, bs => passFrom levels bs
  | (due + 1) :: levels, bs => match bs with
    | [] => none
    | b :: rest => match h : headFrom b rest with
      | none => none
      | some (head, tail) =>
        have := length_headFrom h
        match head.opens with
        | none => passFrom (due :: levels) tail
        | some n =>
          if levels.length + 2 ≤ maxDepth then passFrom (n :: due :: levels) tail else none
termination_by levels bs => (bs.length, levels.length)
decreasing_by
  · exact Prod.Lex.right _ (by simp)
  all_goals exact Prod.Lex.left _ _ (by simp only [List.length_cons]; omega)

/-- Passes over one value that stands inside one collection. -/
def pass (bs : Bytes) : Option Bytes := passFrom [1] bs

example : natural 200 = [0xCC, 200] ∧ natural 0x100000000 = [0xCF, 0, 0, 0, 1, 0, 0, 0, 0] := by decide
example : head? [0xD9, 1, 0x74, 5] = some (.text [0x74], [5]) := by decide
example : ofTwosComplement 1 0xFF = -1 ∧ ofTwosComplement 2 5 = 5 := by decide

end TopicRelay.MessagePack
