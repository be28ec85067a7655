/-
  Which texts are addresses of HTTP.

  An address is a scheme with an authority and perhaps a path, an authority alone, or a path alone.
  An authority is a host, with a user before it or a port after it or not; a host in brackets may
  have colons in it.  A percent sign may stand only in what names a user or within brackets.
-/
import TopicRelay.Text.Utf8

namespace TopicRelay.Http.Uri

abbrev atSign : UInt8 := 0x40
abbrev question : UInt8 := 0x3F
abbrev hash : UInt8 := 0x23
abbrev percent : UInt8 := 0x25

/-! ## Schemes -/

/-- A byte that schemes are made of. -/
def isSchemeByte (b : UInt8) : Bool :=
  Ascii.isLetter b || Ascii.isDigit b || (Ascii.bytes "+-.~").contains b

/-- The longest scheme that is not one of HTTP itself. -/
def maxScheme : Nat := 64

/-- What follows the scheme of an address: `none` for a scheme that is too long, `some none` if there
    is no scheme. -/
def afterScheme (s : Bytes) : Option (Option Bytes) :=
  let scheme := s.takeWhile isSchemeByte
  match s.dropWhile isSchemeByte with
  | a :: b :: c :: rest =>
    if a = Ascii.colon ∧ b = Ascii.slash ∧ c = Ascii.slash then
      if maxScheme < scheme.length then none else some (some rest)
    else some none
  | _ => some none

/-! ## Authorities -/

/-- A byte that an authority may have without being encoded, those that end it included. -/
def isAuthorityByte (b : UInt8) : Bool :=
  Ascii.isLetter b || Ascii.isDigit b || (Ascii.bytes "!#$&'()*+,-./:;=?@[]_~").contains b

/-- A byte that ends an authority. -/
def endsAuthority (b : UInt8) : Bool := b == Ascii.slash || b == question || b == hash

/-- What was seen of an authority so far. -/
structure AuthorityScan where
  colons : Nat
  opened : Bool
  closed : Bool
  encoded : Bool
  lastAt : Bool

/-- The most colons that are looked at. -/
def maxColons : Nat := 8

/-- The scan after one more byte of the authority, unless it may not stand there. -/
def AuthorityScan.next (a : AuthorityScan) (b : UInt8) : Option AuthorityScan :=
  let a := { a with lastAt := false }
  if b = Ascii.colon then
    if maxColons ≤ a.colons then none else some { a with colons := a.colons + 1 }
  else if b = Ascii.openBracket then
    if a.encoded || a.opened then none else some { a with opened := true }
  else if b = Ascii.closeBracket then
    if !a.opened || a.closed then none
    else some { a with closed := true, colons := 0, encoded := false }
  else if b = atSign then some { a with colons := 0, encoded := false, lastAt := true }
  else if b = percent then some { a with encoded := true }
  else if isAuthorityByte b then some a
  else none

/-- Whether an authority may end there. -/
def AuthorityScan.mayEnd (a : AuthorityScan) : Bool :=
  a.opened == a.closed && a.colons ≤ 1 && !a.lastAt && !a.encoded

/-- Whether some bytes, none of which ends an authority, are one. -/
def isAuthority (s : Bytes) : Bool :=
  (s.foldlM AuthorityScan.next ⟨0, false, false, false, false⟩).any AuthorityScan.mayEnd

/-! ## Paths -/

/-- A byte that may stand in a path. -/
def isPathByte (b : UInt8) : Bool :=
  b == 0x21 || b == 0x22 || (0x24 ≤ b && b ≤ 0x3B) || b == 0x3D || (0x40 ≤ b && b ≤ 0x5F)
    || 0x61 ≤ b

/-- A byte that may stand in a query. -/
def isQueryByte (b : UInt8) : Bool :=
  b == 0x21 || (0x24 ≤ b && b ≤ 0x3B) || b == 0x3D || 0x3F ≤ b

/-- Whether some bytes are a path, which a query may follow.  What comes after a hash is not looked
    at. -/
def isPath (s : Bytes) : Bool :=
  let s := s.takeWhile (· != hash)
  let path := s.takeWhile (· != question)
  let query := (s.dropWhile (· != question)).drop 1
  path.all isPathByte && query.all isQueryByte

/-! ## Addresses -/

/-- The longest address, in bytes. -/
def maxLength : Nat := 65534

/-- Whether some bytes with a scheme or without are an address. -/
def isFull (s : Bytes) : Bool :=
  match afterScheme s with
  | none => false
  | some none => s.all (fun b => !endsAuthority b) && isAuthority s
  | some (some rest) =>
    let authority := rest.takeWhile (fun b => !endsAuthority b)
    !authority.isEmpty && isAuthority authority && isPath (rest.dropWhile (fun b => !endsAuthority b))

/-- Whether a text is an address. -/
def isUri (text : String) : Bool :=
  let s := Text.Utf8.encode text
  if maxLength < s.length then false
  else match s with
    | [] => false
    | [b] => b == Ascii.slash || b == 0x2A || isFull s
    | b :: _ => if b = Ascii.slash then isPath s else isFull s

example : isUri "http://[::1]:80" = true ∧ isUri "h:80" = true ∧ isUri "/path" = true
    ∧ isUri "https://h/?q" = true := by decide +kernel
example : isUri "" = false ∧ isUri "not a url" = false ∧ isUri "http://é/" = false
    ∧ isUri "http://a:b:c" = false ∧ isUri "http://" = false := by decide +kernel

end TopicRelay.Http.Uri
