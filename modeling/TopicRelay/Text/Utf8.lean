/-
  UTF-8: the bytes of a text, and the text of bytes.

  There is one scanner, `next`: the character at the head of some bytes, or the fact that there is
  none, with what follows.  Where there is none, what follows starts after the longest beginning
  of a character that the bytes hold (one byte if they hold none).  Two decoders are built on it:

  * `decode?` refuses bytes that are not UTF-8 (text that arrives in a format);
  * `decodeLossy` writes U+FFFD for each broken character (text that is only shown).

  Comparing two texts by character and comparing their bytes give the same order, so a text is
  used as a key directly.
-/
import TopicRelay.Text.Ascii

namespace TopicRelay.Text.Utf8

/-! ## Writing -/

/-- The one to four bytes of a character. -/
def encodeChar (c : Char) : Bytes :=
  let v := c.toNat
  if v < 0x80 then [UInt8.ofNat v]
  else if v < 0x800 then [UInt8.ofNat (0xC0 + v / 0x40), UInt8.ofNat (0x80 + v % 0x40)]
  else if v < 0x10000 then
    [UInt8.ofNat (0xE0 + v / 0x1000), UInt8.ofNat (0x80 + v / 0x40 % 0x40),
      UInt8.ofNat (0x80 + v % 0x40)]
  else
    [UInt8.ofNat (0xF0 + v / 0x40000), UInt8.ofNat (0x80 + v / 0x1000 % 0x40),
      UInt8.ofNat (0x80 + v / 0x40 % 0x40), UInt8.ofNat (0x80 + v % 0x40)]

/-- The bytes of a text. -/
def encode (s : String) : Bytes := s.toList.flatMap encodeChar

/-- How many bytes a text takes. -/
def length (s : String) : Nat := (encode s).length

/-! ## Reading -/

/-- A byte that continues a character. -/
def isTail (b : UInt8) : Bool := 0x80 ≤ b && b ≤ 0xBF

/-- Whether `b` may be the second byte of a character that starts with `lead`.  The narrower ranges
    after `E0`, `ED`, `F0` and `F4` keep out long forms, surrogates and values above U+10FFFF. -/
def isSecond (lead b : UInt8) : Bool :=
  if lead = 0xE0 then 0xA0 ≤ b && b ≤ 0xBF
  else if lead = 0xED then 0x80 ≤ b && b ≤ 0x9F
  else if lead = 0xF0 then 0x90 ≤ b && b ≤ 0xBF
  else if lead = 0xF4 then 0x80 ≤ b && b ≤ 0x8F
  else isTail b

/-- The six low bits that a continuing byte carries. -/
def tailBits (b : UInt8) : Nat := b.toNat - 0x80

/-- The character that starts with the byte `lead`, if there is one, and what follows it. -/
def next (lead : UInt8) (rest : Bytes) : Option Char × Bytes :=
  if lead < 0x80 then (some (Char.ofNat lead.toNat), rest)
  else if lead < 0xC2 then (none, rest)
  else if lead < 0xE0 then
    match rest with
    | b :: r =>
      if isTail b then (some (Char.ofNat ((lead.toNat - 0xC0) * 0x40 + tailBits b)), r)
      else (none, rest)
    | [] => (none, [])
  else if lead < 0xF0 then
    match rest with
    | b :: r =>
      if isSecond lead b then
        match r with
        | c :: r' =>
          if isTail c then
            (some (Char.ofNat
              ((lead.toNat - 0xE0) * 0x1000 + tailBits b * 0x40 + tailBits c)), r')
          else (none, r)
        | [] => (none, [])
      else (none, rest)
    | [] => (none, [])
  else if lead < 0xF5 then
    match rest with
    | b :: r =>
      if isSecond lead b then
        match r with
        | c :: r' =>
          if isTail c then
            match r' with
            | d :: r'' =>
              if isTail d then
                (some (Char.ofNat ((lead.toNat - 0xF0) * 0x40000 + tailBits b * 0x1000
                  + tailBits c * 0x40 + tailBits d)), r'')
              else (none, r')
            | [] => (none, [])
          else (none, r)
        | [] => (none, [])
      else (none, rest)
    | [] => (none, [])
  else (none, rest)

/-- What follows a character is never longer than what followed its first byte. -/
theorem length_next_le (lead : UInt8) (rest : Bytes) :
    (next lead rest).2.length ≤ rest.length := by
  unfold next
  repeat' split
  all_goals simp only [List.length_cons, List.length_nil]; omega

/-- The characters of `bs` after those in `seen`, which is in reverse. -/
def decodeFrom (seen : List Char) : Bytes → Option (List Char)
  | [] => some seen.reverse
  | lead :: rest =>
    let found := next lead rest
    match found.1 with
    | some c => decodeFrom (c :: seen) found.2
    | none => none
termination_by bs => bs.length
decreasing_by
  have := length_next_le lead rest
  simp only [List.length_cons]; omega

/-- The text of some bytes, if they are UTF-8. -/
def decode? (bs : Bytes) : Option String := (decodeFrom [] bs).map String.ofList

/-- The characters of `bs` after those in `seen`, with U+FFFD for what is not a character. -/
def decodeLossyFrom (seen : List Char) : Bytes → List Char
  | [] => seen.reverse
  | lead :: rest =>
    let found := next lead rest
    decodeLossyFrom (found.1.getD '\uFFFD' :: seen) found.2
termination_by bs => bs.length
decreasing_by
  have := length_next_le lead rest
  simp only [List.length_cons]; omega

/-- The text of some bytes, with U+FFFD in place of each broken character. -/
def decodeLossy (bs : Bytes) : String := String.ofList (decodeLossyFrom [] bs)

example : encode "aé😀" = [0x61, 0xC3, 0xA9, 0xF0, 0x9F, 0x98, 0x80] := by decide +kernel
example : (decodeFrom [] [0xED, 0xA0, 0x80]) = none := by decide +kernel
example : decodeLossyFrom [] [0xF0, 0x9F, 0x98, 0x41, 0xFF] = ['\uFFFD', 'A', '\uFFFD'] := by
  decide +kernel

end TopicRelay.Text.Utf8
