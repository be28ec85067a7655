/-
  A decoder with one buffer, and places in it.

  Instead of the element that has begun, a decoder may keep the bytes as they came, and remember where
  the scan stands and where the element starts.  What is done with is cut off when a piece ends.

      buffer        , { " t o p i c " : " a
                      ^                     ^
                      start                 index

  specification   the same decoder over such a buffer, in which every access is checked: a byte at a
                  place that is not there, a subtraction below zero and a start behind the scan have no
                  result (`Cursor.push?`)
  invariant       the start and the index enclose the bytes of the element that has begun, and what is
                  done with ends where it starts (`Follows`)
  step            a byte that is taken in, or fails, is looked at with no check failing
                  (`Follows.look_takes`, `Follows.look_fails`)
  run             so is a whole piece, with the same result as without a buffer (`Rest.push`)
-/
import TopicRelay.Proofs.Log.Search
import TopicRelay.Proofs.Wire.Acceptance

namespace TopicRelay.Wire

open Json
open Log (slice?)

/-! ## The buffer -/

/-- What may come next, without what is kept of an element. -/
inductive Cursor.Phase where
  | beforeArray | beforeFirst | beforeElement | inElement | afterElement | closed
deriving DecidableEq, Repr

/-- A decoder with one buffer. -/
structure Cursor where
  buffer : Bytes
  /-- The place of the next byte to look at. -/
  index : Nat
  /-- Where the element starts that has begun. -/
  start : Nat
  phase : Cursor.Phase
  depth : Nat
  inString : Bool
  escaped : Bool
  /-- How many bytes were cut off in front of the buffer. -/
  offset : Nat
  limit : Nat
deriving DecidableEq, Repr

namespace Cursor

/-- A decoder at the start of an answer. -/
def new (limit : Nat) : Cursor := ⟨[], 0, 0, .beforeArray, 0, false, false, 0, limit⟩

/-- A difference, if it is not below zero. -/
def minus? (a b : Nat) : Option Nat := if b ≤ a then some (a - b) else none

/-- What a piece, or one byte of it, led to: how many bytes of the buffer are done with and which
    elements there are, in reverse; or why the piece failed. -/
abbrev Turn := Except DecodeError (Nat × List TopicMessages) × Cursor

/-- One more byte of an element, and whether it is the last one. -/
def scanByte? (c : Cursor) (b : UInt8) : Option (Bool × Cursor) :=
  if c.inString then
    if c.escaped then some (false, { c with escaped := false })
    else if b = Ascii.backslash then some (false, { c with escaped := true })
    else if b = Ascii.quote then some (false, { c with inString := false })
    else some (false, c)
  else if b = Ascii.quote then some (false, { c with inString := true })
  else if b = Ascii.openBrace ∨ b = Ascii.openBracket then
    some (false, { c with depth := c.depth + 1 })
  else if b = Ascii.closeBrace ∨ b = Ascii.closeBracket then
    (minus? c.depth 1).map fun depth => (depth == 0, { c with depth := depth })
  else some (false, c)

/-- Reads the element that ends in front of the index. -/
def decode? (c : Cursor) (seen : List TopicMessages) : Option Turn :=
  (slice? c.buffer c.start c.index).map fun text =>
    match Reader.document TopicMessages.reader text with
    | .error e => (.error (.badElement e), c)
    | .ok element => (.ok (c.index, element :: seen), { c with phase := .afterElement })

/-- A byte between elements, which stands in front of the index. -/
def between (c : Cursor) (place : Nat) (b : UInt8) (consumed : Nat) (seen : List TopicMessages) : Turn :=
  let refused : Turn := (.error (.unexpectedByte (c.offset + place) b), c)
  let goOn (phase : Phase) : Turn := (.ok (place + 1, seen), { c with phase := phase })
  let enter : Turn := (.ok (consumed, seen), { c with phase := .inElement, start := place, depth := 1 })
  if Decoder.isSeparator b then goOn c.phase
  else match c.phase with
    | .beforeArray => if b = Ascii.openBracket then goOn .beforeFirst else refused
    | .beforeFirst =>
      if b = Ascii.openBrace then enter
      else if b = Ascii.closeBracket then goOn .closed
      else refused
    | .beforeElement => if b = Ascii.openBrace then enter else refused
    | .afterElement =>
      if b = Ascii.comma then goOn .beforeElement
      else if b = Ascii.closeBracket then goOn .closed
      else refused
    | _ => refused

/-- The same with the index behind one more byte. -/
def advance (c : Cursor) : Cursor := { c with index := c.index + 1 }

/-- Looks at the byte at the index. -/
def look? (c : Cursor) (consumed : Nat) (seen : List TopicMessages) : Option Turn :=
  match c.buffer[c.index]? with
  | none => none
  | some b =>
    if c.phase = .inElement then
      match c.advance.scanByte? b with
      | none => none
      | some (true, c) => c.decode? seen
      | some (false, c) => some (.ok (consumed, seen), c)
    else some (c.advance.between c.index b consumed seen)

/-- The same buffer, looked at up to the same place. -/
structure SamePlace (c c' : Cursor) : Prop where
  buffer : c'.buffer = c.buffer
  index : c'.index = c.index
  offset : c'.offset = c.offset
  limit : c'.limit = c.limit

theorem SamePlace.trans {c c' c'' : Cursor} (h : SamePlace c c') (h' : SamePlace c' c'') :
    SamePlace c c'' :=
  ⟨h'.buffer.trans h.buffer, h'.index.trans h.index, h'.offset.trans h.offset, h'.limit.trans h.limit⟩

theorem samePlace_scanByte? {c c' : Cursor} {b : UInt8} {done : Bool}
    (h : c.scanByte? b = some (done, c')) : SamePlace c c' := by
  unfold scanByte? at h
  grind [SamePlace, minus?]

theorem samePlace_decode? {c c' : Cursor} {seen : List TopicMessages}
    {result : Except DecodeError (Nat × List TopicMessages)} (h : c.decode? seen = some (result, c')) :
    SamePlace c c' := by
  obtain ⟨text, -, hturn⟩ := Option.map_eq_some_iff.mp h
  split at hturn
  · cases hturn
    exact ⟨rfl, rfl, rfl, rfl⟩
  · cases hturn
    exact ⟨rfl, rfl, rfl, rfl⟩

theorem samePlace_between (c : Cursor) (place : Nat) (b : UInt8) (consumed : Nat)
    (seen : List TopicMessages) : SamePlace c (c.between place b consumed seen).2 := by
  unfold between
  grind [SamePlace]

/-- A look goes one place further. -/
theorem samePlace_look? {c c' : Cursor} {consumed : Nat} {seen : List TopicMessages}
    {result : Except DecodeError (Nat × List TopicMessages)}
    (h : c.look? consumed seen = some (result, c')) : SamePlace c.advance c' := by
  unfold look? at h
  split at h
  · cases h
  split at h
  · split at h
    · cases h
    · next hscan => exact (samePlace_scanByte? hscan).trans (samePlace_decode? h)
    · next hscan =>
      cases h
      exact samePlace_scanByte? hscan
  · rw [← (Prod.mk.inj (Option.some.inj h)).2]
    exact samePlace_between _ _ _ _ _

/-- Looks at bytes until the buffer ends or one of them fails. -/
def run? (c : Cursor) (consumed : Nat) (seen : List TopicMessages) : Option Turn :=
  if c.index < c.start then none
  else if c.index < c.buffer.length then
    match h : c.look? consumed seen with
    | none => none
    | some (.error e, next) => some (.error e, next)
    | some (.ok (consumed, seen), next) =>
      have := samePlace_look? h
      run? next consumed seen
  else some (.ok (consumed, seen), c)
termination_by c.buffer.length - c.index
decreasing_by
  rw [this.buffer, this.index]
  simp only [advance]
  omega

/-- Cuts off what is done with. -/
def compact? (c : Cursor) (consumed : Nat) : Option Cursor :=
  if consumed = 0 then some c
  else match slice? c.buffer consumed c.buffer.length, minus? c.index consumed with
    | some buffer, some index => some { c with
        buffer := buffer, index := index, start := c.start - consumed, offset := c.offset + consumed }
    | _, _ => none

/-- The same with more bytes behind those of the buffer. -/
def extend (c : Cursor) (piece : Bytes) : Cursor := { c with buffer := c.buffer ++ piece }

/-- Ends a piece of which all bytes were taken in. -/
def settle? (c : Cursor) (consumed : Nat) (seen : List TopicMessages) :
    Option (Except DecodeError (List TopicMessages) × Cursor) :=
  if c.phase = .inElement then
    match minus? c.buffer.length c.start with
    | none => none
    | some size =>
      if c.limit < size then some (.error (.elementTooLarge c.limit), c)
      else (c.compact? (min consumed c.start)).map fun c => (.ok seen.reverse, c)
  else (c.compact? consumed).map fun c => (.ok seen.reverse, c)

/-- Takes in one piece: the elements it completed, or why it failed, and the decoder after it. -/
def push? (c : Cursor) (piece : Bytes) :
    Option (Except DecodeError (List TopicMessages) × Cursor) :=
  match (c.extend piece).run? 0 [] with
  | none => none
  | some (.error e, c) => some (.error e, c)
  | some (.ok (consumed, seen), c) => c.settle? consumed seen

/-- Takes in pieces one after the other, up to the first that fails. -/
def pushAll? : Cursor → List Bytes → Option (List TopicMessages × Except DecodeError Cursor)
  | c, [] => some ([], .ok c)
  | c, piece :: rest => match c.push? piece with
    | none => none
    | some (.error e, _) => some ([], .error e)
    | some (.ok elements, c) => (c.pushAll? rest).map fun (more, result) => (elements ++ more, result)

end Cursor

/-! ## Decoders without a buffer -/

namespace Decoder

/-- Bytes that are taken in by a decoder, and what comes of it. -/
structure Advances (d : Decoder) (bs : Bytes) (es : List TopicMessages) (d' : Decoder) : Prop where
  takes : Takes d.stage bs es d'.stage
  position : d'.position = d.position + bs.length
  limit : d'.limit = d.limit

theorem Advances.append {d d₁ d' : Decoder} {bs cs : Bytes} {es es' : List TopicMessages}
    (h : Advances d bs es d₁) (h' : Advances d₁ cs es' d') : Advances d (bs ++ cs) (es ++ es') d' where
  takes := h.takes.append h'.takes
  position := by rw [h'.position, h.position, List.length_append, Nat.add_assoc]
  limit := h'.limit.trans h.limit

/-- A piece that is taken in leaves nothing that is done with. -/
theorem spent_of_push {d d' : Decoder} {piece : Bytes} {es : List TopicMessages} (hspent : d.spent = 0)
    (h : d.push piece = (.ok es, d')) : d'.spent = 0 := by
  rw [push] at h
  split at h
  · cases h
  split at h
  · cases h
  · cases h
    exact ite_eq_left_iff.mpr fun _ => hspent

end Decoder

/-! ## The invariant -/

/-- The phase of a stage. -/
def Stage.phase : Stage → Cursor.Phase
  | .beforeArray => .beforeArray
  | .beforeFirst => .beforeFirst
  | .beforeElement => .beforeElement
  | .inElement _ => .inElement
  | .afterElement => .afterElement
  | .closed => .closed

/-- Whether a string is open, and whether a backslash came before. -/
def ScanMode.flags : ScanMode → Bool × Bool
  | .outside => (false, false)
  | .inString => (true, false)
  | .escaped => (true, true)

namespace Cursor

open Decoder (Advances Takes Fails effect isSeparator)
open Partial (Unfinished after)

/-- The same buffer with the element scanned so far. -/
def scanned (c : Cursor) (p : Partial) : Cursor :=
  { c with depth := p.depth, inString := p.mode.flags.1, escaped := p.mode.flags.2 }

/-- The element that has begun is between the start and the index, and is scanned up to there. -/
structure Holds (c : Cursor) (v : Bytes) : Prop where
  kept : slice? c.buffer c.start c.index = some (Ascii.openBrace :: v)
  unfinished : Unfinished v
  scan : c.scanned (after v) = c

/-- A decoder with a buffer, at some stage, of whose buffer so many bytes are done with: all up to the
    index, or up to the start of the element that has begun. -/
inductive Follows (c : Cursor) (stage : Stage) (consumed : Nat) : Prop where
  | between (outside : stage.isBetween = true) (phase : c.phase = stage.phase)
      (started : c.start ≤ c.index) (within : c.index ≤ c.buffer.length)
      (flags : (c.inString, c.escaped) = (false, false)) (done : consumed = c.index)
  | element {v : Bytes} (inside : stage = .inElement (after v)) (phase : c.phase = .inElement)
      (holds : Holds c v) (done : consumed = c.start)

variable {c c' : Cursor} {stage next last : Stage} {consumed : Nat} {b : UInt8} {v : Bytes}
  {seen es : List TopicMessages}

theorem Follows.placed (h : Follows c stage consumed) : c.start ≤ c.index ∧ c.index ≤ c.buffer.length := by
  cases h with
  | between _ _ hstarted hwithin => exact ⟨hstarted, hwithin⟩
  | element _ _ hholds _ =>
    obtain ⟨hle, hlength, -⟩ := Log.places_of_slice? hholds.kept
    exact ⟨hle, hlength⟩

theorem Follows.done_le (h : Follows c stage consumed) : consumed ≤ c.index := by
  obtain ⟨hstarted, -⟩ := h.placed
  cases h with
  | between _ _ _ _ _ hdone => exact Nat.le_of_eq hdone
  | element _ _ _ hdone => rwa [hdone]

/-! ## One byte -/

/-- **Both scans of a byte within an element do the same**, and no bracket closes at depth zero. -/
theorem scanByte?_scanned {p : Partial} (hopen : p.isComplete = false) (c : Cursor) (b : UInt8) :
    (c.scanned p).scanByte? b = some ((p.push b).isComplete, c.scanned (p.push b)) := by
  obtain ⟨reversed, size, depth, mode⟩ := p
  have hdepth : depth ≠ 0 := by
    rintro rfl
    cases hopen
  have hpos : 1 ≤ depth := Nat.pos_of_ne_zero hdepth
  unfold scanByte? scanned Partial.push Partial.scan ScanMode.flags Partial.isComplete
  cases mode with
  | outside =>
    simp only [Bool.false_eq_true, if_false]
    split
    · simp [hdepth]
    split
    · simp
    split
    · simp [minus?, hpos]
    · simp [hdepth]
  | inString =>
    simp only [Bool.false_eq_true, if_false, if_true]
    split
    · simp [hdepth]
    split
    · simp [hdepth]
    · simp [hdepth]
  | escaped => simp [hdepth]

/-- The byte that completes an element is a bracket outside of strings. -/
theorem mode_of_complete {p : Partial} (hopen : p.isComplete = false)
    (hlast : (p.push b).isComplete = true) : (p.push b).mode = .outside := by
  obtain ⟨reversed, size, depth, mode⟩ := p
  unfold Partial.isComplete Partial.push Partial.scan at *
  grind

/-- A byte of an element is scanned, and the element is read if that was its last byte. -/
theorem Holds.look?_eq (h : Holds c v) (hphase : c.phase = .inElement)
    (hb : c.buffer[c.index]? = some b) (consumed : Nat) (seen : List TopicMessages) :
    c.look? consumed seen = if (after (v ++ [b])).isComplete
      then (c.advance.scanned (after (v ++ [b]))).decode? seen
      else some (.ok (consumed, seen), c.advance.scanned (after (v ++ [b]))) := by
  have hscan := scanByte?_scanned (h.unfinished v (List.prefix_refl v)) c.advance b
  have hsame : c.advance.scanned (after v) = c.advance := congrArg advance h.scan
  rw [Partial.after_concat, hsame] at hscan
  simp only [look?, hb, if_pos hphase, hscan]
  cases (after (v ++ [b])).isComplete <;> rfl

/-- The size of an element is the distance between the places. -/
theorem Holds.size_eq (h : Holds c v) : c.index - c.start = (after v).size := by
  obtain ⟨-, -, hlength⟩ := Log.places_of_slice? h.kept
  rw [← hlength, Partial.size_after, List.length_cons]

/-- With one more byte the element is still between the start and the index. -/
theorem Holds.slice_advance (h : Holds c v) (hb : c.buffer[c.index]? = some b) :
    slice? c.buffer c.start (c.index + 1) = some (Ascii.openBrace :: (v ++ [b])) :=
  Log.slice?_concat h.kept hb

theorem Holds.advance (h : Holds c v) (hb : c.buffer[c.index]? = some b)
    (hmore : (after (v ++ [b])).isComplete = false) :
    Holds (c.advance.scanned (after (v ++ [b]))) (v ++ [b]) :=
  ⟨h.slice_advance hb, h.unfinished.concat hmore, rfl⟩

/-- The element is read from its bytes. -/
theorem Holds.decode?_eq (h : Holds c v) (hb : c.buffer[c.index]? = some b) (seen : List TopicMessages) :
    (c.advance.scanned (after (v ++ [b]))).decode? seen
      = some (match Reader.document TopicMessages.reader (after (v ++ [b])).bytes with
        | .error e => (.error (.badElement e), c.advance.scanned (after (v ++ [b])))
        | .ok element => (.ok (c.index + 1, element :: seen),
          { c.advance.scanned (after (v ++ [b])) with phase := .afterElement })) := by
  have hslice : slice? (c.advance.scanned (after (v ++ [b]))).buffer
      (c.advance.scanned (after (v ++ [b]))).start (c.advance.scanned (after (v ++ [b]))).index
      = some (Ascii.openBrace :: (v ++ [b])) := h.slice_advance hb
  rw [decode?, hslice, Partial.bytes_after]
  rfl

/-- A byte between elements leads on between them, or opens one at its place. -/
theorem between_to (outside : stage.isBetween = true) (hphase : c.phase = stage.phase)
    (hnext : Decoder.between stage b = .to next) (consumed : Nat) (seen : List TopicMessages) :
    (next.isBetween = true ∧ c.advance.between c.index b consumed seen
        = (.ok (c.index + 1, seen), { c.advance with phase := next.phase }))
      ∨ (next = .inElement .start ∧ b = Ascii.openBrace ∧ c.advance.between c.index b consumed seen
        = (.ok (consumed, seen), { c.advance with phase := .inElement, start := c.index, depth := 1 })) := by
  have hadvance : c.advance.phase = stage.phase := hphase
  unfold Decoder.between at hnext
  unfold between
  simp only [hadvance]
  split at hnext
  · next hseparator =>
    cases hnext
    exact Or.inl ⟨outside, by rw [if_pos hseparator]⟩
  · next hseparator =>
    rw [if_neg hseparator]
    cases stage with
    | inElement p => cases outside
    | beforeArray => grind [Stage.phase, Stage.isBetween]
    | beforeFirst => grind [Stage.phase, Stage.isBetween]
    | beforeElement => grind [Stage.phase, Stage.isBetween]
    | afterElement => grind [Stage.phase, Stage.isBetween]
    | closed => grind [Stage.phase, Stage.isBetween]

/-- A byte that may not stand between elements is refused, at its place in the answer. -/
theorem between_refused (outside : stage.isBetween = true) (hphase : c.phase = stage.phase)
    (hrefused : Decoder.between stage b = .refused) (consumed : Nat) (seen : List TopicMessages) :
    c.advance.between c.index b consumed seen
      = (.error (.unexpectedByte (c.offset + c.index) b), c.advance) := by
  have hadvance : c.advance.phase = stage.phase := hphase
  unfold Decoder.between at hrefused
  unfold between
  simp only [hadvance]
  split at hrefused
  · cases hrefused
  · next hseparator =>
    rw [if_neg hseparator]
    cases stage with
    | inElement p => cases outside
    | beforeArray => grind [Stage.phase, advance]
    | beforeFirst => grind [Stage.phase, advance]
    | beforeElement => grind [Stage.phase, advance]
    | afterElement => grind [Stage.phase, advance]
    | closed => grind [Stage.phase, advance]

theorem phase_ne_inElement (outside : stage.isBetween = true) (hphase : c.phase = stage.phase) :
    c.phase ≠ .inElement := by
  rw [hphase]
  cases stage with
  | inElement p => cases outside
  | _ => exact Phase.noConfusion

theorem look?_outside (outside : stage.isBetween = true) (hphase : c.phase = stage.phase)
    (hb : c.buffer[c.index]? = some b) (consumed : Nat) (seen : List TopicMessages) :
    c.look? consumed seen = some (c.advance.between c.index b consumed seen) := by
  simp only [look?, hb, if_neg (phase_ne_inElement outside hphase)]

/-- The places that a byte at the index is in front of. -/
theorem Follows.advance_placed (h : Follows c stage consumed) (hb : c.buffer[c.index]? = some b) :
    c.start ≤ c.index + 1 ∧ c.index + 1 ≤ c.buffer.length :=
  ⟨Nat.le_succ_of_le h.placed.1, (List.getElem?_eq_some_iff.mp hb).1⟩

/-- **A byte that is taken in** is looked at with no check failing, and the invariant still holds. -/
theorem Follows.look_takes (h : Follows c stage consumed) (hb : c.buffer[c.index]? = some b)
    (htakes : Takes stage [b] es next) (seen : List TopicMessages) :
    ∃ consumed' c', c.look? consumed seen = some (.ok (consumed', es.reverse ++ seen), c')
      ∧ Follows c' next consumed' := by
  obtain ⟨hstarted, hwithin⟩ := h.advance_placed hb
  cases h with
  | between outside hphase _ _ hflags hdone =>
    obtain ⟨next', hnext, hrest⟩ := htakes.exists_next outside
    cases hrest
    rw [look?_outside outside hphase hb]
    rcases between_to outside hphase hnext consumed seen with ⟨houtside, hbetween⟩ | ⟨rfl, rfl, hbetween⟩
    · rw [hbetween]
      exact ⟨_, _, rfl, .between houtside rfl hstarted hwithin hflags rfl⟩
    · rw [hbetween]
      have hholds : Holds { c.advance with phase := .inElement, start := c.index, depth := 1 } [] := by
        refine ⟨Log.slice?_single hb, Decoder.unfinished_nil, ?_⟩
        obtain ⟨hstring, hescaped⟩ := Prod.mk.inj hflags
        simp only [scanned, advance, hstring, hescaped]
        rfl
      exact ⟨_, _, rfl, .element rfl rfl hholds hdone⟩
  | @element v hstage hphase hholds hdone =>
    subst hstage
    have heffect : effect (.inElement (after v)) b = if (after (v ++ [b])).isComplete
        then .element (after (v ++ [b])) else .to (.inElement (after (v ++ [b]))) := by
      rw [effect, Partial.after_concat]
    rw [hholds.look?_eq hphase hb]
    cases htakes with
    | move hmove rest =>
      cases rest
      rw [heffect] at hmove
      split at hmove
      · cases hmove
      · next hmore =>
        cases hmove
        rw [if_neg hmore]
        exact ⟨_, _, rfl, .element rfl hphase (hholds.advance hb (Bool.eq_false_iff.mpr hmore)) hdone⟩
    | element helement hread rest =>
      cases rest
      rw [heffect] at helement
      split at helement
      · next hlast =>
        cases helement
        rw [if_pos hlast, hholds.decode?_eq hb, hread]
        have hmode : (after (v ++ [b])).mode = .outside := by
          rw [← Partial.after_concat] at hlast ⊢
          exact mode_of_complete (hholds.unfinished v (List.prefix_refl v)) hlast
        refine ⟨_, _, rfl, .between rfl rfl hstarted hwithin ?_ rfl⟩
        simp only [scanned, hmode]
        rfl
      · cases helement

/-- **A byte that fails** is looked at with no check failing, and fails alike. -/
theorem Follows.look_fails (h : Follows c stage consumed) (hb : c.buffer[c.index]? = some b)
    {e : DecodeError} (hfails : Fails (c.offset + c.index) stage b e) (seen : List TopicMessages) :
    ∃ c', c.look? consumed seen = some (.error e, c') ∧ c'.start ≤ c'.index := by
  obtain ⟨hstarted, -⟩ := h.advance_placed hb
  cases h with
  | between outside hphase _ _ _ _ =>
    have heffect := Decoder.effect_of_between outside b
    rw [look?_outside outside hphase hb]
    cases hfails with
    | refused hrefused =>
      rw [between_refused outside hphase (heffect.symm.trans hrefused)]
      exact ⟨_, rfl, hstarted⟩
    | unreadable helement _ =>
      exact absurd (heffect.symm.trans helement) (Decoder.between_ne_element _ _ _)
  | @element v hstage hphase hholds _ =>
    subst hstage
    rw [hholds.look?_eq hphase hb]
    cases hfails with
    | refused hrefused =>
      rw [effect] at hrefused
      split at hrefused <;> cases hrefused
    | unreadable helement hread =>
      rw [effect, Partial.after_concat] at helement
      split at helement
      · next hlast =>
        cases helement
        rw [if_pos hlast, hholds.decode?_eq hb, hread]
        exact ⟨_, rfl, hstarted⟩
      · cases helement

/-! ## One piece -/

/-- A turn of the loop, after which it goes on. -/
theorem Follows.run?_more (h : Follows c stage consumed) (hb : c.buffer[c.index]? = some b)
    {consumed' : Nat} {seen' : List TopicMessages}
    (hlook : c.look? consumed seen = some (.ok (consumed', seen'), c')) :
    c.run? consumed seen = c'.run? consumed' seen' := by
  have hless : c.index < c.buffer.length := (h.advance_placed hb).2
  rw [run?, if_neg (Nat.not_lt.mpr h.placed.1), if_pos hless]
  split
  · next hnone => cases hlook.symm.trans hnone
  · next herror => cases hlook.symm.trans herror
  · next hok =>
    cases hlook.symm.trans hok
    rfl

/-- A turn of the loop that fails. -/
theorem Follows.run?_error (h : Follows c stage consumed) (hb : c.buffer[c.index]? = some b)
    {e : DecodeError} (hlook : c.look? consumed seen = some (.error e, c')) :
    c.run? consumed seen = some (.error e, c') := by
  have hless : c.index < c.buffer.length := (h.advance_placed hb).2
  rw [run?, if_neg (Nat.not_lt.mpr h.placed.1), if_pos hless]
  split
  · next hnone => cases hlook.symm.trans hnone
  · next herror =>
    cases hlook.symm.trans herror
    rfl
  · next hok => cases hlook.symm.trans hok

theorem Follows.run?_end (h : Follows c stage consumed) (hend : c.index = c.buffer.length)
    (seen : List TopicMessages) : c.run? consumed seen = some (.ok (consumed, seen), c) := by
  rw [run?, if_neg (Nat.not_lt.mpr h.placed.1), if_neg (by omega)]

theorem getElem?_of_drop {rest : Bytes} (hrest : c.buffer.drop c.index = b :: rest) :
    c.buffer[c.index]? = some b := by
  rw [← List.head?_drop, hrest]
  rfl

/-- A look leaves what is not looked at yet. -/
theorem SamePlace.drop_eq (h : SamePlace c.advance c') {rest : Bytes}
    (hrest : c.buffer.drop c.index = b :: rest) : c'.buffer.drop c'.index = rest := by
  rw [h.buffer, h.index]
  show c.buffer.drop (c.index + 1) = rest
  rw [← List.drop_drop, hrest]
  rfl

/-- **Bytes that are taken in** are looked at with no check failing. -/
theorem Follows.run_takes {bs rest : Bytes} (htakes : Takes stage bs es last)
    (h : Follows c stage consumed) (hbs : c.buffer.drop c.index = bs ++ rest)
    (seen : List TopicMessages) :
    ∃ consumed' c', c.run? consumed seen = c'.run? consumed' (es.reverse ++ seen)
      ∧ Follows c' last consumed' ∧ c'.buffer = c.buffer ∧ c'.index = c.index + bs.length
      ∧ c'.offset = c.offset ∧ c'.limit = c.limit := by
  induction bs generalizing c stage consumed es seen with
  | nil =>
    cases htakes
    exact ⟨consumed, c, rfl, h, rfl, rfl, rfl, rfl⟩
  | cons b bs ih =>
    obtain ⟨front, behind, middle, rfl, hfirst, hothers⟩ :=
      Takes.split (show Takes stage ([b] ++ bs) es last from htakes)
    have hb := getElem?_of_drop hbs
    obtain ⟨consumed₁, c₁, hlook, h₁⟩ := h.look_takes hb hfirst seen
    have hplace := samePlace_look? hlook
    obtain ⟨consumed', c', hrun, h', hbuffer, hindex, hoffset, hlimit⟩ :=
      ih hothers h₁ (hplace.drop_eq hbs) (front.reverse ++ seen)
    refine ⟨consumed', c', ?_, h', hbuffer.trans hplace.buffer, ?_, hoffset.trans hplace.offset,
      hlimit.trans hplace.limit⟩
    · rw [h.run?_more hb hlook, hrun, List.reverse_append, List.append_assoc]
    · rw [hindex, hplace.index, List.length_cons]
      show c.index + 1 + bs.length = _
      omega

/-- **A byte that fails**, behind others that are taken in. -/
theorem Follows.run_fails {good rest : Bytes} {e : DecodeError} (htakes : Takes stage good es last)
    (hfails : Fails (c.offset + c.index + good.length) last b e) (h : Follows c stage consumed)
    (hbs : c.buffer.drop c.index = good ++ b :: rest) (seen : List TopicMessages) :
    ∃ c', c.run? consumed seen = some (.error e, c') ∧ c'.start ≤ c'.index := by
  obtain ⟨consumed', c', hrun, h', hbuffer, hindex, hoffset, -⟩ := h.run_takes htakes hbs seen
  have hrest : c'.buffer.drop c'.index = b :: rest := by
    rw [hbuffer, hindex, ← List.drop_drop, hbs, List.drop_left]
  have hb := getElem?_of_drop hrest
  rw [Nat.add_assoc, ← hindex, ← hoffset] at hfails
  obtain ⟨c'', hlook, hplaced⟩ := h'.look_fails hb hfails (es.reverse ++ seen)
  exact ⟨c'', hrun.trans (h'.run?_error hb hlook), hplaced⟩

/-! ## Between pieces -/

/-- The same without the first bytes of the buffer. -/
def cut (c : Cursor) (n : Nat) : Cursor :=
  { c with buffer := c.buffer.drop n, index := c.index - n, start := c.start - n, offset := c.offset + n }

theorem compact?_eq (hle : consumed ≤ c.index) (hend : c.index = c.buffer.length) :
    c.compact? consumed = some (c.cut consumed) := by
  rw [compact?]
  split
  · next hzero =>
    subst hzero
    rfl
  · rw [Log.slice?_drop (hend ▸ hle), minus?, if_pos hle]
    rfl

/-- What is done with can be cut off, and nothing else is lost. -/
theorem Follows.compact (h : Follows c stage consumed) (hend : c.index = c.buffer.length) :
    c.compact? consumed = some (c.cut consumed) ∧ Follows (c.cut consumed) stage 0 := by
  obtain ⟨hstarted, -⟩ := h.placed
  cases h with
  | between outside hphase _ _ hflags hdone =>
    subst hdone
    refine ⟨compact?_eq (Nat.le_refl _) hend, .between outside hphase ?_ ?_ hflags ?_⟩
    · show c.start - c.index ≤ c.index - c.index
      omega
    · show c.index - c.index ≤ _
      omega
    · exact (Nat.sub_self c.index).symm
  | @element v hstage hphase hholds hdone =>
    subst hdone
    have hkept : c.buffer.drop c.start = Ascii.openBrace :: v := by
      have hslice := hholds.kept
      rw [hend, Log.slice?_drop (hend ▸ hstarted)] at hslice
      exact Option.some.inj hslice
    refine ⟨compact?_eq hstarted hend, .element hstage hphase ⟨?_, hholds.unfinished, ?_⟩ ?_⟩
    · have hlength : c.index - c.start = (c.buffer.drop c.start).length := by
        rw [List.length_drop, hend]
      show slice? (c.buffer.drop c.start) (c.start - c.start) (c.index - c.start) = _
      rw [Nat.sub_self, hlength, Log.slice?_drop (Nat.zero_le _), List.drop_zero, hkept]
    · exact congrArg (cut · c.start) hholds.scan
    · exact (Nat.sub_self c.start).symm

/-- A piece may end within the limit. -/
theorem Follows.settle (h : Follows c last consumed) (hend : c.index = c.buffer.length)
    (hsize : last.size ≤ c.limit) (seen : List TopicMessages) :
    c.settle? consumed seen = some (.ok seen.reverse, c.cut consumed) := by
  obtain ⟨hcompact, -⟩ := h.compact hend
  cases h with
  | between outside hphase _ _ _ _ =>
    rw [settle?, if_neg (phase_ne_inElement outside hphase), hcompact]
    rfl
  | @element v hstage hphase hholds hdone =>
    subst hstage
    have hlength := hholds.size_eq
    obtain ⟨hle, -, -⟩ := Log.places_of_slice? hholds.kept
    have hfits : ¬ c.limit < (after v).size := Nat.not_lt.mpr hsize
    rw [settle?, if_pos hphase, minus?, ← hend, if_pos hle, hlength, hdone, Nat.min_self, ← hdone]
    simp only [if_neg hfits, hcompact]
    rfl

/-- A piece may end beyond the limit. -/
theorem Follows.settle_large (h : Follows c last consumed) (hend : c.index = c.buffer.length)
    (hsize : c.limit < last.size) (seen : List TopicMessages) :
    c.settle? consumed seen = some (.error (.elementTooLarge c.limit), c) := by
  cases h with
  | between outside _ _ _ _ _ =>
    cases last with
    | inElement p => cases outside
    | _ => exact absurd hsize (Nat.not_lt_zero _)
  | @element v hstage hphase hholds hdone =>
    subst hstage
    have hlength := hholds.size_eq
    obtain ⟨hle, -, -⟩ := Log.places_of_slice? hholds.kept
    rw [settle?, if_pos hphase, minus?, ← hend, if_pos hle, hlength]
    exact if_pos hsize

/-- Between pieces all is looked at, nothing is done with that is still held, and a decoder without a
    buffer is at the same stage. -/
structure Rest (c : Cursor) (d : Decoder) : Prop where
  follows : Follows c d.stage 0
  scanned : c.index = c.buffer.length
  position : c.offset + c.index = d.position
  limit : c.limit = d.limit
  fits : d.stage.size ≤ d.limit
  pending : d.pending = []
  spent : d.spent = 0

theorem rest_new (limit : Nat) : Rest (new limit) (Decoder.new limit) :=
  ⟨.between rfl rfl (Nat.le_refl _) (Nat.le_refl _) rfl rfl, rfl, rfl, rfl, Nat.zero_le _, rfl, rfl⟩

/-- More bytes behind the ones that are there. -/
theorem Follows.extend (h : Follows c stage consumed) (piece : Bytes) :
    Follows (c.extend piece) stage consumed := by
  cases h with
  | between outside hphase hstarted hwithin hflags hdone =>
    refine .between outside hphase hstarted ?_ hflags hdone
    show c.index ≤ (c.buffer ++ piece).length
    rw [List.length_append]
    exact Nat.le_add_right_of_le hwithin
  | element hstage hphase hholds hdone =>
    exact .element hstage hphase ⟨Log.slice?_append hholds.kept piece, hholds.unfinished,
      congrArg (Cursor.extend · piece) hholds.scan⟩ hdone

/-- **One piece.**  It is taken in, or fails, with no check failing, and the result is the one there is
    without a buffer. -/
theorem Rest.push {d : Decoder} (h : Rest c d) (piece : Bytes) :
    ∃ c', c.push? piece = some ((d.push piece).1, c') ∧ c'.start ≤ c'.index
      ∧ ∀ es, (d.push piece).1 = .ok es → Rest c' (d.push piece).2
        ∧ Advances d piece es (d.push piece).2 := by
  have hmore := h.follows.extend piece
  have hbs : (c.extend piece).buffer.drop (c.extend piece).index = piece := by
    show (c.buffer ++ piece).drop c.index = piece
    rw [h.scanned, List.drop_left]
  rcases Decoder.takes_or_fails d.stage d.position piece with
    ⟨es, last, htakes⟩ | ⟨good, b, rest, es, last, e, rfl, htakes, hfails⟩
  · obtain ⟨consumed, c₁, hrun, hfollows, hbuffer, hindex, hoffset, hlimit⟩ :=
      hmore.run_takes htakes (hbs.trans (List.append_nil piece).symm) []
    have hend : c₁.index = c₁.buffer.length := by
      rw [hindex, hbuffer]
      show c.index + piece.length = (c.buffer ++ piece).length
      rw [List.length_append, h.scanned]
    have hcapacity : c₁.limit = d.limit := hlimit.trans h.limit
    rw [hfollows.run?_end hend, List.append_nil] at hrun
    by_cases hsize : last.size ≤ d.limit
    · obtain ⟨d', hpush, rfl, hlimit', hposition, hpending⟩ := htakes.push h.pending hsize
      have hsettle := hfollows.settle hend (hcapacity ▸ hsize) es.reverse
      obtain ⟨-, hcut⟩ := hfollows.compact hend
      rw [List.reverse_reverse] at hsettle
      have hless := hfollows.done_le
      have hscanned : (c₁.cut consumed).index = (c₁.cut consumed).buffer.length := by
        show c₁.index - consumed = (c₁.buffer.drop consumed).length
        rw [List.length_drop, hend]
      have hplace : (c₁.cut consumed).offset + (c₁.cut consumed).index = d'.position := by
        show c₁.offset + consumed + (c₁.index - consumed) = d'.position
        rw [hposition, ← h.position, Nat.add_assoc, Nat.add_sub_cancel' hless, hoffset, hindex]
        exact (Nat.add_assoc _ _ _).symm
      rw [hpush]
      refine ⟨c₁.cut consumed, ?_, hcut.placed.1, fun es' hes => ⟨⟨hcut, hscanned, hplace, ?_, ?_,
        hpending, Decoder.spent_of_push h.spent hpush⟩, ⟨Except.ok.inj hes ▸ htakes, hposition, hlimit'⟩⟩⟩
      · rw [push?, hrun]
        exact hsettle
      · exact hcapacity.trans hlimit'.symm
      · rw [hlimit']
        exact hsize
    · have hsettle := hfollows.settle_large hend (hcapacity ▸ Nat.not_le.mp hsize) es.reverse
      have hlarge := htakes.push_of_lt h.pending (Nat.not_le.mp hsize)
      rw [hlarge]
      refine ⟨c₁, ?_, hfollows.placed.1, fun es hes => by cases hes⟩
      rw [push?, hrun, ← hcapacity]
      exact hsettle
  · obtain ⟨d', hpush⟩ := htakes.push_of_fails h.pending hfails rest
    rw [← h.position] at hfails
    obtain ⟨c', hrun, hplaced⟩ :=
      Follows.run_fails (c := c.extend (good ++ b :: rest)) htakes hfails hmore hbs []
    rw [hpush]
    refine ⟨c', ?_, hplaced, fun es hes => by cases hes⟩
    rw [push?, hrun]

/-- **Any number of pieces**, as long as each is taken in. -/
theorem Rest.pushAll {d d' : Decoder} (h : Rest c d) {pieces : List Bytes}
    (hall : d.pushAll pieces = (es, .ok d')) :
    ∃ c', c.pushAll? pieces = some (es, .ok c') ∧ Rest c' d' ∧ Advances d pieces.flatten es d' := by
  induction pieces generalizing c d es with
  | nil =>
    cases hall
    exact ⟨c, rfl, h, ⟨.nil _, rfl, rfl⟩⟩
  | cons piece pieces ih =>
    obtain ⟨c₁, hpush, -, hnext⟩ := h.push piece
    rw [Decoder.pushAll] at hall
    rcases hpiece : d.push piece with ⟨e | front, d₁⟩
    · rw [hpiece] at hall
      cases (Prod.mk.inj hall).2
    · rw [hpiece] at hall hpush hnext
      obtain ⟨hrest, hfront⟩ := hnext front rfl
      obtain ⟨behind, hbehind⟩ : ∃ behind, d₁.pushAll pieces = (behind, .ok d') :=
        ⟨_, Prod.ext rfl (Prod.mk.inj hall).2⟩
      simp only [hbehind] at hall
      obtain rfl := (Prod.mk.inj hall).1
      obtain ⟨c', hpushAll, hrest', hothers⟩ := ih hrest hbehind
      refine ⟨c', ?_, hrest', hfront.append hothers⟩
      rw [pushAll?, hpush]
      simp only [hpushAll]
      rfl

end Cursor
end TopicRelay.Wire
