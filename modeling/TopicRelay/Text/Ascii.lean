/-
  Bytes, and the ASCII bytes that the formats of this library are punctuated with.

  Everything that travels or is stored is a list of bytes.  The formats only ever look at single
  ASCII bytes to find their way, so those are named here once; a grammar then reads
  `b = Ascii.comma` and not `b = 0x2C`.
-/

namespace TopicRelay

/-- What is sent, received or stored. -/
abbrev Bytes := List UInt8

namespace Ascii

/-! ## Punctuation -/

abbrev tab : UInt8 := 0x09
abbrev lineFeed : UInt8 := 0x0A
abbrev formFeed : UInt8 := 0x0C
abbrev carriageReturn : UInt8 := 0x0D
abbrev space : UInt8 := 0x20
abbrev quote : UInt8 := 0x22
abbrev plus : UInt8 := 0x2B
abbrev comma : UInt8 := 0x2C
abbrev minus : UInt8 := 0x2D
abbrev dot : UInt8 := 0x2E
abbrev slash : UInt8 := 0x2F
abbrev zero : UInt8 := 0x30
abbrev colon : UInt8 := 0x3A
abbrev equals : UInt8 := 0x3D
abbrev openBracket : UInt8 := 0x5B
abbrev backslash : UInt8 := 0x5C
abbrev closeBracket : UInt8 := 0x5D
abbrev openBrace : UInt8 := 0x7B
abbrev closeBrace : UInt8 := 0x7D

/-! ## Classes -/

/-- A decimal digit. -/
def isDigit (b : UInt8) : Bool := 0x30 ≤ b && b ≤ 0x39

/-- The value of a decimal digit. -/
def digitValue (b : UInt8) : Nat := b.toNat - 0x30

/-- A letter of the basic Latin alphabet, of either case. -/
def isLetter (b : UInt8) : Bool := (0x41 ≤ b && b ≤ 0x5A) || (0x61 ≤ b && b ≤ 0x7A)

/-- The lower-case letter of an upper-case one; every other byte is left alone. -/
def lower (b : UInt8) : UInt8 := if 0x41 ≤ b && b ≤ 0x5A then b + 0x20 else b

/-- The lower-case hexadecimal digit of a value below sixteen. -/
def hexDigit (n : Nat) : UInt8 := if n < 10 then UInt8.ofNat (0x30 + n) else UInt8.ofNat (0x57 + n)

/-- The value of a hexadecimal digit of either case. -/
def hexValue? (b : UInt8) : Option Nat :=
  if 0x30 ≤ b && b ≤ 0x39 then some (b.toNat - 0x30)
  else if 0x41 ≤ b && b ≤ 0x46 then some (b.toNat - 0x37)
  else if 0x61 ≤ b && b ≤ 0x66 then some (b.toNat - 0x57)
  else none

/-- The bytes of a text that is known to be ASCII, such as a keyword. -/
def bytes (s : String) : Bytes := s.toList.map fun c => UInt8.ofNat c.toNat

/-- The text of bytes that are known to be ASCII. -/
def text (bs : Bytes) : String := String.ofList (bs.map fun b => Char.ofNat b.toNat)

end Ascii

/-! ## Hexadecimal text -/

namespace Hex

/-- The two lower-case digits of a byte. -/
def ofByte (b : UInt8) : Bytes := [Ascii.hexDigit (b.toNat / 16), Ascii.hexDigit (b.toNat % 16)]

/-- Two digits for each byte, in order. -/
def encode (bs : Bytes) : Bytes := bs.flatMap ofByte

/-- The bytes that a text of digit pairs stands for. -/
def decode? : Bytes → Option Bytes
  | [] => some []
  | hi :: lo :: rest => do
    let h ← Ascii.hexValue? hi
    let l ← Ascii.hexValue? lo
    let tail ← decode? rest
    pure (UInt8.ofNat (h * 16 + l) :: tail)
  | [_] => none

theorem length_encode (bs : Bytes) : (encode bs).length = 2 * bs.length := by
  induction bs with
  | nil => rfl
  | cons b rest ih => simp only [encode, List.flatMap_cons, List.length_append] at ih ⊢
                      simp only [ofByte, List.length_cons, List.length_nil, ih]; omega

/-- The text of the digits of some bytes. -/
def text (bs : Bytes) : String := Ascii.text (encode bs)

end Hex

example : Hex.encode [0x00, 0xff] = Ascii.bytes "00ff" := by decide
example : Hex.decode? (Ascii.bytes "00fF") = some [0x00, 0xff] := by decide

end TopicRelay
