/-
  What the values of a configuration are taken for.

  Nobody who writes a configuration thinks of types, so a value is converted to what a setting needs
  if that makes any sense: a number may be written as text, and a truth value in several words.  A
  whole number that is too large for its setting loses its upper bits.
-/
import TopicRelay.Config.Value
import TopicRelay.Decimal.Shortest
import TopicRelay.SortedMap
import TopicRelay.Text.Blank
import TopicRelay.Text.Utf8

namespace TopicRelay.Config

namespace Value

/-- The words for yes. -/
def yes : List String := ["true", "on", "yes"]

/-- The words for no. -/
def no : List String := ["false", "off", "no"]

/-- A value as a truth value. -/
def toBoolean? : Value → Option Bool
  | .boolean b => some b
  | .integer n => some (n != 0)
  | .number x => some (x != 0)
  | .text s =>
    let word := Text.lowerAscii s
    if word = "1" ∨ word ∈ yes then some true
    else if word = "0" ∨ word ∈ no then some false
    else none
  | _ => none

/-- A value as a natural number of 64 bits. -/
def toNatural? : Value → Option Nat
  | .boolean b => some b.toNat
  | .integer n => if 0 ≤ n then some n.toNat else none
  | .number x => some x.round.toUInt64.toNat
  | .text s =>
    let word := Text.lowerAscii s
    if word ∈ yes then some 1
    else if word ∈ no then some 0
    else Text.Numeral.parse? 0xFFFFFFFFFFFFFFFF (Text.Utf8.encode s)
  | _ => none

/-- A value as text. -/
def toText? : Value → Option String
  | .boolean b => some (if b then "true" else "false")
  | .integer n => some (if n < 0 then "-" ++ Text.Numeral.text n.natAbs else Text.Numeral.text n.toNat)
  | .number x => some (Decimal.text x)
  | .text s => some s
  | _ => none

/-- A value as a list of texts. -/
def toTexts? : Value → Option (List String)
  | .list items => items.mapM toText?
  | _ => none

/-- A value as texts by name. -/
def toTextMap? : Value → Option (SortedMap String)
  | .table entries =>
    (entries.mapM fun e : String × Value => (toText? e.2).map fun s => (e.1, s)).map SortedMap.ofList
  | _ => none

/-- A value as one of some choices: the name of one, or a table with that as its only name. -/
def toChoice? {α : Type} (choices : List (String × α)) : Value → Option α
  | .text name => choices.lookup name
  | .table [(name, _)] => choices.lookup name
  | _ => none

end Value

/-! ## Records -/

/-- A setting of a record: its name, and the change that its value makes to the record. -/
structure Field (ρ : Type) where
  name : String
  assign : Value → Option (ρ → ρ)

namespace Field

variable {ρ α : Type}

/-- A setting whose value is converted in some way. -/
def converted (convert : Value → Option α) (name : String) (set : α → ρ → ρ) : Field ρ :=
  ⟨name, fun v => (convert v).map set⟩

/-- A setting that is a truth value. -/
def boolean (name : String) (set : Bool → ρ → ρ) : Field ρ := converted Value.toBoolean? name set
/-- A setting that is a natural number. -/
def natural (name : String) (set : Nat → ρ → ρ) : Field ρ := converted Value.toNatural? name set
/-- A setting that is a text. -/
def text (name : String) (set : String → ρ → ρ) : Field ρ := converted Value.toText? name set

/-- Fills in a record from the entries of a table; other entries are of no interest. -/
def ofEntries (entries : Table) (x : ρ) : List (Field ρ) → Option ρ
  | [] => some x
  | f :: rest => match entries.lookup f.name with
    | none => ofEntries entries x rest
    | some v => match f.assign v with
      | none => none
      | some change => ofEntries entries (change x) rest

/-- Fills in a record from a list with the values of its first settings. -/
def ofItems (x : ρ) : List (Field ρ) → List Value → Option ρ
  | f :: fields, v :: rest => match f.assign v with
    | none => none
    | some change => ofItems (change x) fields rest
  | _, _ => some x

/-- A value as a record; settings that are left out stay as they are in `blank`. -/
def record (blank : ρ) (fields : List (Field ρ)) : Value → Option ρ
  | .table entries => ofEntries entries blank fields
  | .list items => ofItems blank fields items
  | _ => none

/-- A group of settings. -/
def group (name : String) (blank : α) (fields : List (Field α)) (set : α → ρ → ρ) : Field ρ :=
  converted (record blank fields) name set

end Field
end TopicRelay.Config
