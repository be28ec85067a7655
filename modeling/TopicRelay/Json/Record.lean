/-
  Reading records: JSON objects, or rows, with named fields.

  A record is written as an object, whose entries come in any order and may include unknown ones,
  or as a row: an array of the fields in the order of their declaration.  A `Layout` lists the
  fields; both ways of reading follow from it.

  * A field twice in an object is an error at its second key, before its value is looked at.
  * A needed field that is missing is an error at the closing bracket; of several the first in
    declaration order is named.
  * A field that is not needed keeps its value from `blank` when it is left out.  From a row only
    fields at the end can be left out, and nothing may follow the last one.
-/
import TopicRelay.Json.Reader

namespace TopicRelay.Json

variable {ρ α : Type}

/-- A field of a record of type `ρ`: reading it gives the change it makes to the record. -/
structure Field (ρ : Type) where
  name : String
  needed : Bool
  assign : Reader (ρ → ρ)

/-- A field that has to be there. -/
def Field.required (name : String) (value : Reader α) (set : α → ρ → ρ) : Field ρ :=
  ⟨name, true, value.map set⟩

/-- A field that may be left out. -/
def Field.optional (name : String) (value : Reader α) (set : α → ρ → ρ) : Field ρ :=
  ⟨name, false, value.map set⟩

/-- The fields of a record in the order of their declaration.  `blank` is the record that none of
    them has been read into; a value in it counts only for a field that may be left out. -/
structure Layout (ρ : Type) where
  name : String
  blank : ρ
  fields : List (Field ρ)

namespace Layout

/-! ## Objects -/

/-- A record while it is read from an object: its value so far and the fields already read. -/
structure Draft (ρ : Type) where
  value : ρ
  seen : List String

/-- Takes in one entry of an object. -/
def entry (layout : Layout ρ) : Reader.EntryReader (Draft ρ) where
  run d k s := match layout.fields.find? (·.name == k) with
    | none => match afterColon s with
      | .error e => .error e
      | .ok r => match skipValue r with
        | .error e => .error e
        | .ok t => .ok (d, t)
    | some field =>
      if d.seen.contains k then .error (.duplicateField k)
      else match afterColon s with
        | .error e => .error e
        | .ok r => match field.assign.run r with
          | .error e => .error e
          | .ok (f, t) => .ok (⟨f d.value, k :: d.seen⟩, t)
  shrinks {x y k s r} h := by
    split at h
    · split at h
      · simp at h
      · next t ht =>
        have := length_afterColon ht
        split at h
        · simp at h
        · next u hu =>
          have := length_skipValue hu
          simp only [Except.ok.injEq, Prod.mk.injEq] at h; rw [← h.2]; omega
    · next field _ =>
      split at h
      · simp at h
      · split at h
        · simp at h
        · next t ht =>
          have := length_afterColon ht
          split at h
          · simp at h
          · next f u hu =>
            have := field.assign.consumes hu
            simp only [Except.ok.injEq, Prod.mk.injEq] at h; rw [← h.2]; omega

/-- The first needed field that has not been read. -/
def missing? (layout : Layout ρ) (seen : List String) : Option String :=
  (layout.fields.find? fun f => f.needed && !seen.contains f.name).map (·.name)

/-- The record of an object, after its opening brace. -/
def object (layout : Layout ρ) (s : Bytes) : Step ρ :=
  match Reader.entriesFrom layout.entry ⟨layout.blank, []⟩ true s with
  | .error e => .error e
  | .ok (d, r) => match layout.missing? d.seen with
    | some name => .error (.missingField name)
    | none => .ok (d.value, r)

theorem length_object {layout : Layout ρ} {s r : Bytes} {x : ρ}
    (h : layout.object s = .ok (x, r)) : r.length < s.length := by
  unfold object at h
  split at h
  · simp at h
  · next d t ht =>
    have := Reader.length_entriesFrom ht
    split at h
    · simp at h
    · simp only [Except.ok.injEq, Prod.mk.injEq] at h; rw [← h.2]; exact this

/-! ## Rows -/

/-- The place of the first needed field in a list of fields that starts at `index`. -/
def firstNeeded? (index : Nat) : List (Field ρ) → Option Nat
  | [] => none
  | f :: fs => if f.needed then some index else firstNeeded? (index + 1) fs

/-- The rest of a row from the field at `index` on, into the record `x`. -/
def rowFrom (layout : Layout ρ) (index : Nat) (x : ρ) : List (Field ρ) → Bytes → Step ρ
  | [], s => match Lexeme.skipBlanks s with
    | [] => .error .unexpectedEnd
    | b :: r => if b = Ascii.closeBracket then .ok (x, r) else .error .malformed
  | f :: fs, s => match nextItem (index = 0) s with
    | .error e => .error e
    | .ok (.closed r) => match firstNeeded? index (f :: fs) with
      | some i => .error (.rowTooShort i layout.name layout.fields.length)
      | none => .ok (x, r)
    | .ok (.more r) => match f.assign.run r with
      | .error e => .error e
      | .ok (g, t) => layout.rowFrom (index + 1) (g x) fs t

theorem length_rowFrom {layout : Layout ρ} {index : Nat} {x y : ρ} {fs : List (Field ρ)}
    {s r : Bytes} (h : layout.rowFrom index x fs s = .ok (y, r)) : r.length ≤ s.length := by
  induction fs generalizing index x s with
  | nil =>
    simp only [rowFrom] at h
    have hs := Lexeme.length_skipBlanks_le s
    split at h
    · simp at h
    · next b t heq =>
      rw [heq, List.length_cons] at hs
      split at h
      · simp only [Except.ok.injEq, Prod.mk.injEq] at h; rw [← h.2]; omega
      · simp at h
  | cons f fs ih =>
    simp only [rowFrom] at h
    split at h
    · simp at h
    · next t ht =>
      have := length_nextItem ht
      split at h
      · simp at h
      · simp only [Except.ok.injEq, Prod.mk.injEq] at h; rw [← h.2]; exact this
    · next t ht =>
      have hlen := length_nextItem ht
      split at h
      · simp at h
      · next g u hu =>
        have := f.assign.consumes hu
        have := ih h
        simp only [Turn.rest] at hlen; omega

/-! ## Either way -/

/-- Reads a record written in either way. -/
def reader (layout : Layout ρ) : Reader ρ :=
  Reader.leaf ("struct " ++ layout.name)
    (fun b => b == Ascii.openBrace || b == Ascii.openBracket)
    (fun b r =>
      if b = Ascii.openBrace then layout.object r
      else layout.rowFrom 0 layout.blank layout.fields r)
    fun h => by
      split at h
      · exact Nat.le_of_lt (length_object h)
      · exact length_rowFrom h

end Layout
end TopicRelay.Json
