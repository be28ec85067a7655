/-
  What a decoder holds between pieces.

  specification   between elements nothing is held; within one, just its bytes since its opening brace,
                  no more than the limit, and the depth is the number of its brackets that are open
                  (`Represents`)
  brackets        their number is counted apart from the scan: in what is left of the bytes without the
                  strings, a bracket that opens counts one, and one that closes takes one away
                  (`openBrackets`)
  beginning       a decoder within an element came there through a brace where an element may begin,
                  and no byte since then has completed it (`Takes.exists_opening`)
  any pieces      a decoder with one buffer comes from piece to piece with no check failing, and one
                  more piece fails no check either, be it taken in or not (`pushAll_represents`)
-/
import Mathlib.Algebra.Ring.Int.Defs
import TopicRelay.Proofs.Wire.Cursor

namespace TopicRelay.Wire

open Json
open Partial (Unfinished after)

/-! ## Brackets that are open -/

/-- What is left of bytes without the strings. -/
def outsideStrings : ScanMode → Bytes → Bytes
  | _, [] => []
  | .outside, b :: bs =>
    if b = Ascii.quote then outsideStrings .inString bs else b :: outsideStrings .outside bs
  | .inString, b :: bs =>
    if b = Ascii.backslash then outsideStrings .escaped bs
    else if b = Ascii.quote then outsideStrings .outside bs
    else outsideStrings .inString bs
  | .escaped, _ :: bs => outsideStrings .inString bs

/-- One for a bracket that opens, and one less for a bracket that closes. -/
def bracket (b : UInt8) : Int :=
  if b = Ascii.openBrace ∨ b = Ascii.openBracket then 1
  else if b = Ascii.closeBrace ∨ b = Ascii.closeBracket then -1
  else 0

/-- The number of brackets outside of strings that open, less the number of those that close. -/
def openBrackets (mode : ScanMode) (bs : Bytes) : Int := ((outsideStrings mode bs).map bracket).sum

example : openBrackets .outside (Ascii.bytes "\x7b\"a]\\\"[\":[[]") = 2 := by decide +kernel

theorem openBrackets_cons (mode : ScanMode) (b : UInt8) (bs : Bytes) (depth : Nat) :
    openBrackets mode (b :: bs)
      = openBrackets mode [b] + openBrackets (Partial.scan b depth mode).2 bs := by
  cases mode with
  | outside =>
    simp only [openBrackets, outsideStrings, Partial.scan]
    split
    · simp
    · have hmode : (if b = Ascii.openBrace ∨ b = Ascii.openBracket then (depth + 1, ScanMode.outside)
          else if b = Ascii.closeBrace ∨ b = Ascii.closeBracket then (depth - 1, .outside)
          else (depth, .outside)).2 = .outside := by
        split
        · rfl
        · split <;> rfl
      simp [hmode]
  | inString =>
    simp only [openBrackets, outsideStrings, Partial.scan]
    split
    · simp
    · split <;> simp
  | escaped => simp [openBrackets, outsideStrings, Partial.scan]

/-- While brackets are open, the depth goes up and down with them. -/
theorem depth_push {p : Partial} (hopen : p.isComplete = false) (b : UInt8) :
    ((p.push b).depth : Int) = p.depth + openBrackets p.mode [b] := by
  obtain ⟨reversed, size, depth, mode⟩ := p
  have hdepth : depth ≠ 0 := by
    rintro rfl
    cases hopen
  cases mode with
  | outside =>
    simp only [Partial.push, Partial.scan, openBrackets, outsideStrings]
    split
    · simp
    · simp only [List.map_cons, List.map_nil, List.sum_cons, List.sum_nil, bracket]
      split
      · simp
      · split
        · simp
          omega
        · simp
  | inString =>
    simp only [Partial.push, Partial.scan, openBrackets, outsideStrings]
    split
    · simp
    · split <;> simp
  | escaped => simp [Partial.push, Partial.scan, openBrackets, outsideStrings]

theorem depth_foldl {p : Partial} {bs : Bytes}
    (hopen : ∀ a, a <+: bs → (a.foldl Partial.push p).isComplete = false) :
    ((bs.foldl Partial.push p).depth : Int) = p.depth + openBrackets p.mode bs := by
  induction bs generalizing p with
  | nil => exact (Int.add_zero _).symm
  | cons b bs ih =>
    have hp : p.isComplete = false := hopen [] List.nil_prefix
    have hrest := ih fun a ha => hopen (b :: a) (List.cons_prefix_cons.mpr ⟨rfl, ha⟩)
    rw [List.foldl_cons, hrest, depth_push hp, openBrackets_cons p.mode b bs p.depth, Int.add_assoc]
    rfl

/-- **The depth of an element is the number of its brackets that are open.** -/
theorem depth_eq {v : Bytes} (h : Unfinished v) :
    ((after v).depth : Int) = openBrackets .outside (Ascii.openBrace :: v) := by
  rw [after, depth_foldl h, openBrackets_cons .outside Ascii.openBrace v 0]
  rfl

/-! ## Where an element begins -/

theorem Stage.size_of_isBetween (stage : Stage) (h : stage.isBetween = true) : stage.size = 0 := by
  cases stage with
  | inElement p => cases h
  | _ => rfl

theorem Partial.after_injective {v w : Bytes} (h : after v = after w) : v = w := by
  have hbytes := congrArg Partial.bytes h
  rw [bytes_after, bytes_after] at hbytes
  exact (List.cons.inj hbytes).2

namespace Decoder

/-- The brace that opens the element within which some bytes end: those in front of it are taken in, and
    none of those behind it completes the element. -/
structure Opens (front v : Bytes) (es : List TopicMessages) : Prop where
  may_begin : ∃ stage, Takes .beforeArray front es stage ∧ (stage = .beforeFirst ∨ stage = .beforeElement)
  unfinished : Unfinished v

/-- An element begins with an opening brace, before the first element or behind a comma. -/
theorem start_of_between {stage : Stage} {b : UInt8} {p : Partial} (outside : stage.isBetween = true)
    (h : between stage b = .to (.inElement p)) :
    b = Ascii.openBrace ∧ p = .start ∧ (stage = .beforeFirst ∨ stage = .beforeElement) := by
  unfold between at h
  cases stage with
  | inElement q => cases outside
  | _ => grind

theorem Takes.exists_opening {bs : Bytes} {es : List TopicMessages} {p : Partial}
    (h : Takes .beforeArray bs es (.inElement p)) :
    ∃ front v, bs = front ++ Ascii.openBrace :: v ∧ p = after v ∧ Opens front v es := by
  induction bs using List.reverseRecOn generalizing es p with
  | nil => cases h
  | append_singleton bs b ih =>
    obtain ⟨first, others, middle, rfl, hfirst, hlast⟩ := h.split
    by_cases outside : middle.isBetween = true
    · obtain ⟨next, hnext, hrest⟩ := hlast.exists_next outside
      cases hrest
      obtain ⟨rfl, rfl, hstage⟩ := start_of_between outside hnext
      rw [List.append_nil]
      exact ⟨bs, [], rfl, rfl, ⟨⟨middle, hfirst, hstage⟩, unfinished_nil⟩⟩
    · obtain ⟨q, rfl⟩ : ∃ q, middle = .inElement q := by
        cases middle with
        | inElement q => exact ⟨q, rfl⟩
        | _ => exact absurd rfl outside
      obtain ⟨front, v, rfl, rfl, hopens⟩ := ih hfirst
      cases hlast with
      | move hmove rest =>
        cases rest
        rw [effect, Partial.after_concat] at hmove
        split at hmove
        · cases hmove
        · next hmore =>
          cases hmove
          have hunfinished := hopens.unfinished.concat (Bool.eq_false_iff.mpr hmore)
          rw [List.append_nil]
          exact ⟨front, v ++ [b], by simp, rfl, ⟨hopens.may_begin, hunfinished⟩⟩
      | element _ _ rest => cases rest

end Decoder

/-! ## Between pieces -/

namespace Cursor

/-- What a decoder has in its buffer, and in its other fields, when it was given some bytes. -/
structure Represents (c : Cursor) (limit : Nat) (body : Bytes) : Prop where
  /-- Within an element the buffer holds the bytes since its opening brace. -/
  element : c.phase = .inElement → ∃ front v es, body = front ++ c.buffer
    ∧ c.buffer = Ascii.openBrace :: v ∧ Decoder.Opens front v es
  /-- These are within the limit, and the depth is the number of brackets that are open in them. -/
  within : c.phase = .inElement → c.buffer.length ≤ limit ∧ c.start = 0 ∧ 1 ≤ c.depth
    ∧ (c.depth : Int) = openBrackets .outside c.buffer
  /-- Between elements it holds nothing. -/
  between : c.phase ≠ .inElement → c.buffer = []
  scanned : c.index = c.buffer.length
  counted : c.offset + c.buffer.length = body.length

/-- A decoder without a buffer that stands at the same place. -/
structure Matches (c : Cursor) (d : Decoder) : Prop where
  phase : d.stage.phase = c.phase
  position : d.position = c.offset + c.buffer.length
  buffered : d.buffered = c.buffer.length
  kept : ∀ p, d.stage = .inElement p → p.bytes = c.buffer ∧ p.depth = c.depth
    ∧ p.mode.flags = (c.inString, c.escaped)

variable {c : Cursor} {d : Decoder} {limit : Nat} {body v : Bytes} {es : List TopicMessages}

/-- Between pieces the buffer is the element, from its first byte to its last. -/
theorem Rest.buffer_eq (h : Rest c d) (hholds : Holds c v) (hstart : c.start = 0) :
    c.buffer = Ascii.openBrace :: v := by
  have hkept := hholds.kept
  rw [hstart, h.scanned, Log.slice?_drop (Nat.zero_le _)] at hkept
  exact Option.some.inj hkept

theorem Rest.matches (h : Rest c d) : Matches c d := by
  have hposition : d.position = c.offset + c.buffer.length := by
    rw [← h.position, h.scanned]
  have hbuffered : d.buffered = d.stage.size := by
    rw [Decoder.buffered, h.spent, h.pending, Nat.zero_add]
    rfl
  cases h.follows with
  | between outside hphase _ _ _ hdone =>
    have hempty : c.buffer.length = 0 := h.scanned.symm.trans hdone.symm
    refine ⟨hphase.symm, hposition, ?_, fun p hp => ?_⟩
    · rw [hbuffered, hempty]
      exact d.stage.size_of_isBetween outside
    · rw [hp] at outside
      cases outside
  | @element v hstage hphase hholds hdone =>
    have hbuffer := h.buffer_eq hholds hdone.symm
    refine ⟨?_, hposition, ?_, fun p hp => ?_⟩
    · rw [hstage, hphase]
      rfl
    · rw [hbuffered, hstage, hbuffer]
      exact Partial.size_after v
    · cases hstage.symm.trans hp
      rw [Partial.bytes_after, hbuffer]
      exact ⟨rfl, congrArg Cursor.depth hholds.scan,
        Prod.ext (congrArg Cursor.inString hholds.scan) (congrArg Cursor.escaped hholds.scan)⟩

theorem Rest.represents (h : Rest c d) (hcame : Decoder.Advances (Decoder.new limit) body es d) :
    Represents c limit body := by
  have hcounted : c.offset + c.buffer.length = body.length := by
    rw [← h.scanned, h.position, hcame.position]
    exact Nat.zero_add _
  cases h.follows with
  | between outside hphase _ _ _ hdone =>
    have hne := phase_ne_inElement outside hphase
    have hempty : c.buffer = [] := List.length_eq_zero_iff.mp (h.scanned.symm.trans hdone.symm)
    exact ⟨fun hc => absurd hc hne, fun hc => absurd hc hne, fun _ => hempty, h.scanned, hcounted⟩
  | @element v hstage hphase hholds hdone =>
    have hbuffer := h.buffer_eq hholds hdone.symm
    have htakes := hcame.takes
    rw [hstage] at htakes
    obtain ⟨front, v', hbody, hafter, hopens⟩ := htakes.exists_opening
    obtain rfl := Partial.after_injective hafter
    have hdepth : c.depth = (after v).depth := (congrArg Cursor.depth hholds.scan).symm
    refine ⟨fun _ => ⟨front, v, es, ?_, hbuffer, hopens⟩, fun _ => ⟨?_, hdone.symm, ?_, ?_⟩,
      fun hc => absurd hphase hc, h.scanned, hcounted⟩
    · rw [hbody, hbuffer]
    · have hfits : d.stage.size ≤ limit := Nat.le_trans h.fits (Nat.le_of_eq hcame.limit)
      rw [hstage, Stage.size, Partial.size_after] at hfits
      rw [hbuffer]
      exact hfits
    · have hopen := hopens.unfinished v (List.prefix_refl v)
      rw [Partial.isComplete, beq_eq_false_iff_ne] at hopen
      omega
    · rw [hdepth, hbuffer]
      exact depth_eq hopens.unfinished

/-- **What a decoder holds.**  After any pieces that were all taken in, a decoder with one buffer holds
    nothing between elements, and within one its bytes so far; it counts what it was given, and stands
    where a decoder without a buffer does.  One more piece gives the same result with both, and no
    access fails: no place is outside of the buffer, the start is never behind the scan, and the depth
    never goes below zero. -/
theorem pushAll_represents (limit : Nat) (pieces : List Bytes)
    (h : (Decoder.new limit).pushAll pieces = (es, .ok d)) :
    ∃ c, (new limit).pushAll? pieces = some (es, .ok c)
      ∧ Represents c limit pieces.flatten
      ∧ Matches c d
      ∧ ∀ piece, ∃ c', c.push? piece = some ((d.push piece).1, c') ∧ c'.start ≤ c'.index := by
  obtain ⟨c, hall, hrest, hcame⟩ := (rest_new limit).pushAll h
  refine ⟨c, hall, hrest.represents hcame, hrest.matches, fun piece => ?_⟩
  obtain ⟨c', hpush, hplaced, -⟩ := hrest.push piece
  exact ⟨c', hpush, hplaced⟩

/-! ### Halfway through an element -/

namespace Halfway

/-- An element that has begun, with a bracket in a string. -/
def begun : Bytes := Ascii.bytes "\x7b\"topic\":\"]\",\"messages\":["

/-- Another element, cut in two, and this one behind it. -/
def pieces : List Bytes :=
  let first := (TopicMessages.empty "a").print
  [Ascii.openBracket :: first.take 10, first.drop 10 ++ Ascii.comma :: Ascii.space :: begun]

/-- Within the second element the buffer is what came of it, with two brackets open, and a piece that is
    refused fails no check. -/
theorem halfway_represents :
    ∃ d c, (Decoder.new 40).pushAll pieces = ([.empty "a"], .ok d)
      ∧ (new 40).pushAll? pieces = some ([.empty "a"], .ok c)
      ∧ Represents c 40 pieces.flatten
      ∧ c.buffer = begun ∧ c.depth = 2
      ∧ ∃ c', c.push? (Ascii.bytes "]\x7d x") = some ((d.push (Ascii.bytes "]\x7d x")).1, c') := by
  obtain ⟨d, h⟩ : ∃ d, (Decoder.new 40).pushAll pieces = ([.empty "a"], .ok d) :=
    ⟨⟨40, .inElement (after begun.tail), 55, [], 0⟩, by decide +kernel⟩
  obtain ⟨c, hall, hrepresents, hmatches, hmore⟩ := pushAll_represents 40 pieces h
  have hvalues : ((new 40).pushAll? pieces).map (fun r => r.2.toOption.map fun c => (c.buffer, c.depth))
      = some (some (begun, 2)) := by decide +kernel
  rw [hall] at hvalues
  obtain ⟨hbuffer, hdepth⟩ := Prod.mk.inj (Option.some.inj (Option.some.inj hvalues))
  obtain ⟨c', hpush, -⟩ := hmore (Ascii.bytes "]\x7d x")
  exact ⟨d, c, h, hall, hrepresents, hbuffer, hdepth, c', hpush⟩

end Halfway
end Cursor
end TopicRelay.Wire
