/-
  SHA-256: a digest of 32 bytes for bytes of any length.

  The message is filled up to whole blocks of 64 bytes: a byte 0x80, zeros, and its length in bits
  in eight bytes.  Each block is mixed into eight words in 64 rounds.  The words that the rounds
  use are the sixteen of the block and then ever new ones, each made from the sixteen before it, so
  a window of sixteen words that slides along is all there is to keep.
-/
import TopicRelay.BigEndian

namespace TopicRelay.Sha256

/-! ## Words -/

/-- A word turned right by `n` bits. -/
def turn (n x : UInt32) : UInt32 := (x >>> n) ||| (x <<< (32 - n))

/-- The word of four bytes, the highest first. -/
def word : Bytes → UInt32
  | [a, b, c, d] => a.toUInt32 <<< 24 ||| b.toUInt32 <<< 16 ||| c.toUInt32 <<< 8 ||| d.toUInt32
  | _ => 0

/-- The four bytes of a word. -/
def wordBytes (w : UInt32) : Bytes :=
  [(w >>> 24).toUInt8, (w >>> 16).toUInt8, (w >>> 8).toUInt8, w.toUInt8]

/-- The words of some bytes. -/
def words : Bytes → List UInt32
  | a :: b :: c :: d :: rest => word [a, b, c, d] :: words rest
  | _ => []

/-! ## Filling up -/

/-- What is written after a message of `length` bytes. -/
def filler (length : Nat) : Bytes :=
  0x80 :: (List.replicate ((119 - length % 64) % 64) 0 ++ BigEndian.encode 8 (length * 8))

/-! ## Mixing -/

/-- The eight words that a digest is made of. -/
structure State where
  a : UInt32
  b : UInt32
  c : UInt32
  d : UInt32
  e : UInt32
  f : UInt32
  g : UInt32
  h : UInt32
deriving DecidableEq, Repr

/-- The words before the first block. -/
def start : State :=
  ⟨0x6A09E667, 0xBB67AE85, 0x3C6EF372, 0xA54FF53A, 0x510E527F, 0x9B05688C, 0x1F83D9AB, 0x5BE0CD19⟩

/-- The constants of the rounds. -/
def constants : List UInt32 := [
  0x428A2F98, 0x71374491, 0xB5C0FBCF, 0xE9B5DBA5, 0x3956C25B, 0x59F111F1, 0x923F82A4, 0xAB1C5ED5,
  0xD807AA98, 0x12835B01, 0x243185BE, 0x550C7DC3, 0x72BE5D74, 0x80DEB1FE, 0x9BDC06A7, 0xC19BF174,
  0xE49B69C1, 0xEFBE4786, 0x0FC19DC6, 0x240CA1CC, 0x2DE92C6F, 0x4A7484AA, 0x5CB0A9DC, 0x76F988DA,
  0x983E5152, 0xA831C66D, 0xB00327C8, 0xBF597FC7, 0xC6E00BF3, 0xD5A79147, 0x06CA6351, 0x14292967,
  0x27B70A85, 0x2E1B2138, 0x4D2C6DFC, 0x53380D13, 0x650A7354, 0x766A0ABB, 0x81C2C92E, 0x92722C85,
  0xA2BFE8A1, 0xA81A664B, 0xC24B8B70, 0xC76C51A3, 0xD192E819, 0xD6990624, 0xF40E3585, 0x106AA070,
  0x19A4C116, 0x1E376C08, 0x2748774C, 0x34B0BCB5, 0x391C0CB3, 0x4ED8AA4A, 0x5B9CCA4F, 0x682E6FF3,
  0x748F82EE, 0x78A5636F, 0x84C87814, 0x8CC70208, 0x90BEFFFA, 0xA4506CEB, 0xBEF9A3F7, 0xC67178F2]

/-- One round, with its constant `k` and its word `w`. -/
def round (s : State) (k w : UInt32) : State :=
  let mixE := turn 6 s.e ^^^ turn 11 s.e ^^^ turn 25 s.e
  let choice := (s.e &&& s.f) ^^^ (~~~s.e &&& s.g)
  let first := s.h + mixE + choice + k + w
  let mixA := turn 2 s.a ^^^ turn 13 s.a ^^^ turn 22 s.a
  let majority := (s.a &&& s.b) ^^^ (s.a &&& s.c) ^^^ (s.b &&& s.c)
  ⟨first + (mixA + majority), s.a, s.b, s.c, s.d + first, s.e, s.f, s.g⟩

/-- The word that comes after a window of sixteen. -/
def nextWord (window : List UInt32) : UInt32 :=
  let near := window.getD 14 0
  let far := window.getD 1 0
  (turn 17 near ^^^ turn 19 near ^^^ near >>> 10) + window.getD 9 0
    + (turn 7 far ^^^ turn 18 far ^^^ far >>> 3) + window.getD 0 0

/-- The rounds of some constants, the first of them with the first word of the window. -/
def rounds : List UInt32 → List UInt32 → State → State
  | k :: ks, w :: window, s => rounds ks (window ++ [nextWord (w :: window)]) (round s k w)
  | _, _, s => s

/-- Mixes a block in. -/
def mix (s : State) (block : Bytes) : State :=
  let t := rounds constants (words block) s
  ⟨s.a + t.a, s.b + t.b, s.c + t.c, s.d + t.d, s.e + t.e, s.f + t.f, s.g + t.g, s.h + t.h⟩

/-- Mixes in the blocks of some bytes. -/
def blocks (s : State) (bs : Bytes) : State :=
  if 64 ≤ bs.length then blocks (mix s (bs.take 64)) (bs.drop 64) else s
termination_by bs.length
decreasing_by simp only [List.length_drop]; omega

/-! ## Digests -/

/-- The digest of some bytes. -/
def digest (bs : Bytes) : Bytes :=
  let s := blocks start (bs ++ filler bs.length)
  [s.a, s.b, s.c, s.d, s.e, s.f, s.g, s.h].flatMap wordBytes

theorem length_digest (bs : Bytes) : (digest bs).length = 32 := rfl

/-- A message and what fills it up are whole blocks. -/
theorem length_filler (n : Nat) : (n + (filler n).length) % 64 = 0 := by
  simp only [filler, List.length_cons, List.length_append, List.length_replicate,
    BigEndian.length_encode]
  omega

end TopicRelay.Sha256
