/-
  Base64 with the standard alphabet: payload bytes as text.

  Three bytes become four symbols; one or two bytes at the end are filled up with `=`.  The reader
  is strict: it accepts exactly the texts that the writer produces, so it wants the padding, knows
  no white space and no other alphabet, and refuses a last symbol whose unused bits are set.
-/
import TopicRelay.Text.Ascii

namespace TopicRelay.Base64

/-! ## The alphabet -/

/-- The symbol of a six bit value. -/
def symbol (v : Nat) : UInt8 :=
  if v < 26 then UInt8.ofNat (0x41 + v)
  else if v < 52 then UInt8.ofNat (0x61 + (v - 26))
  else if v < 62 then UInt8.ofNat (0x30 + (v - 52))
  else if v = 62 then Ascii.plus
  else Ascii.slash

/-- The six bit value of a symbol. -/
def value? (b : UInt8) : Option Nat :=
  if 0x41 ≤ b && b ≤ 0x5A then some (b.toNat - 0x41)
  else if 0x61 ≤ b && b ≤ 0x7A then some (b.toNat - 0x61 + 26)
  else if 0x30 ≤ b && b ≤ 0x39 then some (b.toNat - 0x30 + 52)
  else if b = Ascii.plus then some 62
  else if b = Ascii.slash then some 63
  else none

/-- Every six bit value is read back from its symbol. -/
theorem value?_symbol : ∀ v < 64, value? (symbol v) = some v := by decide

/-! ## Writing -/

/-- The four symbols of three bytes. -/
def group (a b c : UInt8) : Bytes :=
  [symbol (a.toNat / 4), symbol (a.toNat % 4 * 16 + b.toNat / 16),
    symbol (b.toNat % 16 * 4 + c.toNat / 64), symbol (c.toNat % 64)]

/-- The symbols of the last one or two bytes, filled up. -/
def lastGroup : Bytes → Bytes
  | [a] => [symbol (a.toNat / 4), symbol (a.toNat % 4 * 16), Ascii.equals, Ascii.equals]
  | [a, b] => [symbol (a.toNat / 4), symbol (a.toNat % 4 * 16 + b.toNat / 16),
      symbol (b.toNat % 16 * 4), Ascii.equals]
  | _ => []

/-- The symbols of some bytes after those in `written`, which is in reverse. -/
def encodeFrom (written : Bytes) : Bytes → Bytes
  | a :: b :: c :: rest => encodeFrom ((group a b c).reverse ++ written) rest
  | last => written.reverse ++ lastGroup last

/-- The text of some bytes. -/
def encode (bs : Bytes) : Bytes := encodeFrom [] bs

/-! ## Reading -/

/-- The bytes of the last four symbols, which may be filled up. -/
def decodeLast (a b c d : UInt8) : Option Bytes := do
  let p ← value? a
  let q ← value? b
  if c = Ascii.equals then
    if d = Ascii.equals ∧ q % 16 = 0 then pure [UInt8.ofNat (p * 4 + q / 16)] else none
  else
    let r ← value? c
    if d = Ascii.equals then
      if r % 4 = 0 then pure [UInt8.ofNat (p * 4 + q / 16), UInt8.ofNat (q % 16 * 16 + r / 4)]
      else none
    else
      let s ← value? d
      pure [UInt8.ofNat (p * 4 + q / 16), UInt8.ofNat (q % 16 * 16 + r / 4),
        UInt8.ofNat (r % 4 * 64 + s)]

/-- The bytes of four symbols in the middle of a text. -/
def decodeGroup (a b c d : UInt8) : Option Bytes := do
  let p ← value? a
  let q ← value? b
  let r ← value? c
  let s ← value? d
  pure [UInt8.ofNat (p * 4 + q / 16), UInt8.ofNat (q % 16 * 16 + r / 4),
    UInt8.ofNat (r % 4 * 64 + s)]

/-- The bytes of a text after those in `read`, which is in reverse. -/
def decodeFrom (read : Bytes) : Bytes → Option Bytes
  | [] => some read.reverse
  | [a, b, c, d] => (decodeLast a b c d).map (read.reverse ++ ·)
  | a :: b :: c :: d :: rest =>
    match decodeGroup a b c d with
    | some bytes => decodeFrom (bytes.reverse ++ read) rest
    | none => none
  | _ => none

/-- The bytes of a text, if it is one that `encode` writes. -/
def decode? (text : Bytes) : Option Bytes := decodeFrom [] text

example : encode (Ascii.bytes "ab") = Ascii.bytes "YWI=" := by decide
example : decode? (Ascii.bytes "YWJj") = some (Ascii.bytes "abc") := by decide
example : decode? (Ascii.bytes "YWJ=") = none ∧ decode? (Ascii.bytes "YWI") = none := by decide

end TopicRelay.Base64
