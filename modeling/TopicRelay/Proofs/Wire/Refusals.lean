/-
  What is no answer is refused.

  The places at which an answer can be wrong are told by the scan of brackets alone.  At the top level
  of the array one bracket is open and no string (`AtTopLevel`); an element is what stands there from
  an opening brace to where the depth is back (`Enclosed`).  While the decoder goes over a body, its
  stage says where that scan stands (`Takes.place`), so at each such place only a few stages are left,
  and none of them takes in the byte that comes.
-/
import Mathlib.Data.List.Infix
import TopicRelay.Proofs.Wire.Acceptance

namespace TopicRelay.Wire

open Json

/-! ## Places in a body -/

/-- Behind these bytes the scan is between the elements of an array. -/
def AtTopLevel (front : Bytes) : Prop := Partial.scanAll front (0, .outside) = (1, .outside)

/-- An object by its brackets: they are all closed by the last byte, and not before. -/
structure Enclosed (w : Bytes) : Prop where
  starts : w.head? = some Ascii.openBrace
  closed : (Partial.scanAll w (0, .outside)).1 = 0
  inside : ∀ a, a <+: w → a ≠ [] → a ≠ w → (Partial.scanAll a (0, .outside)).1 ≠ 0

instance (front : Bytes) : Decidable (AtTopLevel front) :=
  inferInstanceAs (Decidable (Partial.scanAll front (0, .outside) = (1, .outside)))

/-- All that is asked can be looked at, one beginning after the other. -/
theorem enclosed_iff (w : Bytes) : (w.head? = some Ascii.openBrace
      ∧ (Partial.scanAll w (0, .outside)).1 = 0
      ∧ ∀ a ∈ w.inits, a ≠ [] → a ≠ w → (Partial.scanAll a (0, .outside)).1 ≠ 0) ↔ Enclosed w := by
  constructor
  · rintro ⟨hstarts, hclosed, hinside⟩
    exact ⟨hstarts, hclosed, fun a ha => hinside a ((List.mem_inits a w).mpr ha)⟩
  · intro h
    exact ⟨h.starts, h.closed, fun a ha => h.inside a ((List.mem_inits a w).mp ha)⟩

instance (w : Bytes) : Decidable (Enclosed w) := decidable_of_iff _ (enclosed_iff w)

/-- **What an answer must not be.** -/
inductive Defective : Bytes → Prop where
  /-- A comma, and then the end of the array. -/
  | trailingComma {front ws rest : Bytes} (h : AtTopLevel front)
      (hws : ∀ b ∈ ws, Decoder.isSeparator b = true) :
      Defective (front ++ Ascii.comma :: (ws ++ Ascii.closeBracket :: rest))
  /-- A comma, and then another one. -/
  | doubledComma {front ws rest : Bytes} (h : AtTopLevel front)
      (hws : ∀ b ∈ ws, Decoder.isSeparator b = true) :
      Defective (front ++ Ascii.comma :: (ws ++ Ascii.comma :: rest))
  /-- The end of an element, and then the next element. -/
  | missingComma {front ws rest : Bytes} (h : AtTopLevel (front ++ [Ascii.closeBrace]))
      (hws : ∀ b ∈ ws, Decoder.isSeparator b = true) :
      Defective (front ++ Ascii.closeBrace :: (ws ++ Ascii.openBrace :: rest))
  /-- An element with brackets that close others of the wrong kind. -/
  | mismatchedBrackets {front w rest : Bytes} (h : AtTopLevel front) (hw : Enclosed w)
      (hbrackets : ¬ Matched w) : Defective (front ++ (w ++ rest))
  /-- At the end of the body a bracket is missing, or a quote. -/
  | unclosed {body : Bytes} (h : Partial.scanAll body (0, .outside) ≠ (0, .outside)) : Defective body
  /-- The end of the array, and then something that is no blank. -/
  | bytesAfterArray {front rest : Bytes} {b : UInt8} (h : AtTopLevel front) (hb : b ∈ rest)
      (hsep : Decoder.isSeparator b = false) : Defective (front ++ Ascii.closeBracket :: rest)
  /-- An object that is not read as an element. -/
  | wrongShape {front w rest : Bytes} {reason : ReadError} (h : AtTopLevel front) (hw : Enclosed w)
      (hread : Reader.document TopicMessages.reader w = .error reason) : Defective (front ++ (w ++ rest))
  /-- An element that is no object. -/
  | notAnObject {front rest : Bytes} {b : UInt8} (h : AtTopLevel front)
      (hsep : Decoder.isSeparator b = false) (hbrace : b ≠ Ascii.openBrace) (hcomma : b ≠ Ascii.comma)
      (hclose : b ≠ Ascii.closeBracket) : Defective (front ++ b :: rest)

/-! ## Where the scan stands at a stage -/

namespace Partial

variable {b : UInt8} {d : Nat} {mode : ScanMode}

/-- One bracket more around all others makes no difference but in the depth. -/
theorem scan_succ (hd : 0 < d) : scan b (d + 1) mode = ((scan b d mode).1 + 1, (scan b d mode).2) := by
  unfold scan
  grind

/-- Only a bracket brings the depth down. -/
theorem mode_of_scan (hd : 0 < d) (h : (scan b d mode).1 = 0) : (scan b d mode).2 = .outside := by
  unfold scan at h ⊢
  grind

end Partial

namespace Stage

/-- The depth and mode of the scan from the start of the answer. -/
def place : Stage → Nat × ScanMode
  | .beforeArray | .closed => (0, .outside)
  | .beforeFirst | .beforeElement | .afterElement => (1, .outside)
  | .inElement p => (p.depth + 1, p.mode)

/-- An element that is not complete has a bracket open. -/
def Open : Stage → Prop
  | .inElement p => 0 < p.depth
  | _ => True

end Stage

namespace Decoder

variable {stage last next : Stage} {bs ws t w rest : Bytes} {es : List TopicMessages} {b : UInt8}
  {p : Partial} {limit : Nat} {body : Bytes}

theorem place_of_between (h : between stage b = .to next) (hstage : stage.isBetween = true) :
    next.Open ∧ Partial.scan b stage.place.1 stage.place.2 = next.place := by
  by_cases hb : isSeparator b = true
  · rw [between_separator stage hb] at h
    cases h
    have hscan : ∀ d, Partial.scanAll [b] (d, .outside) = (d, .outside) :=
      scanAll_separators (by simpa using hb)
    cases stage with
    | inElement p => cases hstage
    | _ => exact ⟨trivial, hscan _⟩
  · simp only [between, if_neg hb] at h
    cases stage <;> grind [Stage.Open, Stage.place, Partial.scan, Partial.start]

theorem place_of_effect (h : effect stage b = .to next) (hopen : stage.Open) :
    next.Open ∧ Partial.scan b stage.place.1 stage.place.2 = next.place := by
  cases stage with
  | inElement p =>
    have hdepth : 0 < p.depth := hopen
    rw [effect] at h
    split at h
    · cases h
    · next hmore =>
      cases h
      refine ⟨Nat.pos_of_ne_zero fun hzero => hmore (beq_iff_eq.mpr hzero), ?_⟩
      exact Partial.scan_succ hdepth
  | _ => exact place_of_between h rfl

theorem place_of_element (h : effect stage b = .element p) (hopen : stage.Open) :
    Partial.scan b stage.place.1 stage.place.2 = (1, .outside) := by
  cases stage with
  | inElement q =>
    have hdepth : 0 < q.depth := hopen
    rw [effect] at h
    split at h
    · next hdone =>
      have hzero : (Partial.scan b q.depth q.mode).1 = 0 := beq_iff_eq.mp hdone
      show Partial.scan b (q.depth + 1) q.mode = _
      rw [Partial.scan_succ hdepth, hzero, Partial.mode_of_scan hdepth hzero]
    · cases h
  | _ => exact absurd h (between_ne_element _ _ _)

/-- **The stage says where the scan stands.** -/
theorem Takes.place (h : Takes stage bs es last) (hopen : stage.Open) :
    last.Open ∧ Partial.scanAll bs stage.place = last.place := by
  induction h with
  | nil stage => exact ⟨hopen, rfl⟩
  | @move stage next last b bs es heffect _ ih =>
    obtain ⟨hnext, hscan⟩ := place_of_effect heffect hopen
    obtain ⟨hlast, hall⟩ := ih hnext
    refine ⟨hlast, ?_⟩
    show Partial.scanAll bs (Partial.scan b stage.place.1 stage.place.2) = _
    rw [hscan, hall]
  | @element stage last b bs es p e heffect _ _ ih =>
    obtain ⟨hlast, hall⟩ := ih trivial
    refine ⟨hlast, ?_⟩
    show Partial.scanAll bs (Partial.scan b stage.place.1 stage.place.2) = _
    rw [place_of_element heffect hopen]
    exact hall

/-- At the top level an element is due, or something between elements. -/
theorem stage_of_place (hopen : stage.Open) (h : stage.place = (1, .outside)) :
    stage = .beforeFirst ∨ stage = .beforeElement ∨ stage = .afterElement := by
  cases stage with
  | beforeFirst => exact Or.inl rfl
  | beforeElement => exact Or.inr (Or.inl rfl)
  | afterElement => exact Or.inr (Or.inr rfl)
  | inElement p =>
    have hdepth : 0 < p.depth := hopen
    have hone : p.depth + 1 = 1 := (Prod.mk.inj h).1
    omega
  | _ => cases h

/-- A body that leads to the end leads to one of three stages at its top level. -/
theorem Takes.at_top_level {front : Bytes} (h : Takes .beforeArray (front ++ bs) es .closed)
    (hfront : AtTopLevel front) :
    ∃ stage es', (stage = .beforeFirst ∨ stage = .beforeElement ∨ stage = .afterElement)
      ∧ Takes stage bs es' .closed := by
  obtain ⟨_, es', stage, -, hbefore, hbehind⟩ := h.split
  obtain ⟨hopen, hplace⟩ := hbefore.place trivial
  exact ⟨stage, es', stage_of_place hopen (hplace.symm.trans hfront), hbehind⟩

/-! ## Bytes that are not taken in -/

theorem Takes.not_refused (h : Takes stage (b :: bs) es last) (hstage : stage.isBetween = true) :
    between stage b ≠ .refused := by
  obtain ⟨next, hnext, -⟩ := h.exists_next hstage
  rw [hnext]
  intro h
  cases h

theorem Takes.behind_separators (h : Takes stage (ws ++ bs) es last)
    (hstage : stage.isBetween = true) (hws : ∀ b ∈ ws, isSeparator b = true) :
    Takes stage bs es last := by
  induction ws with
  | nil => exact h
  | cons b ws ih =>
    obtain ⟨hb, hws⟩ := List.forall_mem_cons.mp hws
    exact ih (Takes.of_cons h hstage (between_separator stage hb)) hws

/-- Behind a comma at the top level an element is due. -/
theorem Takes.behind_comma {front : Bytes} (hfront : AtTopLevel front)
    (hws : ∀ b ∈ ws, isSeparator b = true)
    (h : Takes .beforeArray (front ++ Ascii.comma :: (ws ++ bs)) es .closed) :
    ∃ es', Takes .beforeElement bs es' .closed := by
  obtain ⟨stage, es', hstage, hbehind⟩ := h.at_top_level hfront
  rcases hstage with rfl | rfl | rfl
  · exact absurd rfl (hbehind.not_refused rfl)
  · exact absurd rfl (hbehind.not_refused rfl)
  · have hrest : Takes .beforeElement (ws ++ bs) es' .closed := hbehind.of_cons rfl rfl
    exact ⟨es', hrest.behind_separators rfl hws⟩

end Decoder

/-! ## Elements by their brackets -/

open Partial (Unfinished after)

/-- What is enclosed is an element that its last byte completes. -/
theorem Enclosed.exists_last {w : Bytes} (h : Enclosed w) :
    ∃ v b, w = Ascii.openBrace :: (v ++ [b]) ∧ Unfinished v ∧ (after (v ++ [b])).isComplete = true := by
  obtain ⟨s, rfl⟩ := List.head?_eq_some_iff.mp h.starts
  have hscan : ∀ a, (Partial.scanAll (Ascii.openBrace :: a) (0, .outside)).1
      = (Partial.scanAll a (1, .outside)).1 := fun a => rfl
  rcases s.eq_nil_or_concat with rfl | ⟨v, b, rfl⟩
  · exact absurd h.closed Nat.one_ne_zero
  · rw [List.concat_eq_append] at h ⊢
    refine ⟨v, b, rfl, fun a ha => ?_, ?_⟩
    · rw [Bool.eq_false_iff, Ne, Partial.isComplete_after, ← hscan]
      refine h.inside _ ?_ (List.cons_ne_nil _ _) ?_
      · exact List.cons_prefix_cons.mpr ⟨rfl, ha.trans (List.prefix_append v [b])⟩
      · intro heq
        have hlength := ha.length_le
        rw [(List.cons.inj heq).2, List.length_append, List.length_singleton] at hlength
        omega
    · rw [Partial.isComplete_after, ← hscan]
      exact h.closed

namespace Decoder

variable {stage : Stage} {w rest : Bytes} {es : List TopicMessages} {b : UInt8}

/-- An element is complete only once. -/
theorem eq_of_complete {v v' : Bytes} {c : UInt8} (hv : Unfinished v')
    (hdone : (after (v ++ [b])).isComplete = true) (h : v ++ [b] <+: v' ++ [c]) :
    v ++ [b] = v' ++ [c] := by
  rcases List.prefix_concat_iff.mp h with heq | hin
  · exact heq
  · rw [hv _ hin] at hdone
    cases hdone

/-- **What is enclosed at the top level is read as an element**, or not taken in. -/
theorem Takes.exists_document {front : Bytes} (hfront : AtTopLevel front) (hw : Enclosed w)
    (h : Takes .beforeArray (front ++ (w ++ rest)) es .closed) : ∃ e, ElementText w e := by
  obtain ⟨v, b, rfl, hv, hdone⟩ := hw.exists_last
  obtain ⟨stage, es', hstage, hbehind⟩ := h.at_top_level hfront
  have helement : Takes (.inElement .start) (v ++ [b] ++ rest) es' .closed := by
    rcases hstage with rfl | rfl | rfl
    · exact Takes.of_cons hbehind rfl rfl
    · exact Takes.of_cons hbehind rfl rfl
    · exact absurd rfl (Takes.not_refused hbehind rfl)
  obtain ⟨v', c, rest', e, _, hbs, -, hv', hdone', hread, -⟩ :=
    Takes.exists_element unfinished_nil helement rfl
  rw [List.nil_append] at hv' hdone' hread
  -- both ends are where the element is complete
  have hsame : v ++ [b] = v' ++ [c] := by
    have hleft : v ++ [b] <+: v ++ [b] ++ rest := List.prefix_append _ _
    have hright : v' ++ [c] <+: v ++ [b] ++ rest := ⟨rest', by rw [hbs]; simp⟩
    rcases List.prefix_or_prefix_of_prefix hleft hright with hin | hin
    · exact eq_of_complete hv' hdone hin
    · exact (eq_of_complete hv hdone' hin).symm
  refine ⟨e, ?_⟩
  rw [hsame]
  exact Partial.elementText_of_document hv' hread

end Decoder

/-! ## Refusals -/

namespace Decoder

variable {ws bs : Bytes} {es : List TopicMessages}

/-- A brace that leads back to the top level ends an element, and no other element may follow. -/
theorem not_takes_missingComma {front : Bytes} (hfront : AtTopLevel (front ++ [Ascii.closeBrace]))
    (hws : ∀ b ∈ ws, isSeparator b = true) :
    ¬ Takes .beforeArray (front ++ Ascii.closeBrace :: (ws ++ Ascii.openBrace :: bs)) es .closed := by
  intro h
  rw [← List.singleton_append, ← List.append_assoc] at h
  obtain ⟨_, es', stage, -, hbefore, hbehind⟩ := h.split
  obtain ⟨hopen, hplace⟩ := hbefore.place trivial
  have htop := stage_of_place hopen (hplace.symm.trans hfront)
  have hstage : stage = .afterElement := by
    obtain ⟨_, _, middle, -, -, hbrace⟩ := hbefore.split
    cases hbrace with
    | element _ _ rest =>
      cases rest
      rfl
    | move heffect rest =>
      cases rest
      cases middle with
      | inElement p =>
        rw [effect] at heffect
        split at heffect
        · cases heffect
        · cases heffect
          rcases htop with htop | htop | htop <;> cases htop
      | _ => cases heffect
  subst hstage
  exact (hbehind.behind_separators rfl hws).not_refused rfl rfl

/-- **A body with a defect is refused.** -/
theorem not_takes_of_defective {body : Bytes} (hdefect : Defective body) (es : List TopicMessages) :
    ¬ Takes .beforeArray body es .closed := by
  intro h
  cases hdefect with
  | trailingComma hfront hws =>
    obtain ⟨es', hrest⟩ := h.behind_comma hfront hws
    exact hrest.not_refused rfl rfl
  | doubledComma hfront hws =>
    obtain ⟨es', hrest⟩ := h.behind_comma hfront hws
    exact hrest.not_refused rfl rfl
  | @missingComma front ws rest hfront hws =>
    exact not_takes_missingComma hfront hws h
  | mismatchedBrackets hfront hw hbrackets =>
    obtain ⟨e, htext⟩ := h.exists_document hfront hw
    exact hbrackets htext.passes.matched
  | unclosed hscan => exact hscan (h.place trivial).2
  | @bytesAfterArray front rest b hfront hb hsep =>
    obtain ⟨stage, es', hstage, hbehind⟩ := h.at_top_level hfront
    have hclosed : Takes .closed rest es' .closed := by
      rcases hstage with rfl | rfl | rfl
      · exact hbehind.of_cons rfl rfl
      · exact absurd rfl (hbehind.not_refused rfl)
      · exact hbehind.of_cons rfl rfl
    rw [hclosed.of_closed.2 b hb] at hsep
    cases hsep
  | wrongShape hfront hw hread =>
    obtain ⟨e, htext⟩ := h.exists_document hfront hw
    rw [htext.document] at hread
    cases hread
  | notAnObject hfront hsep hbrace hcomma hclose =>
    obtain ⟨stage, es', hstage, hbehind⟩ := h.at_top_level hfront
    rcases hstage with rfl | rfl | rfl
    all_goals
      refine hbehind.not_refused rfl ?_
      simp only [between, hsep, Bool.false_eq_true, if_false, if_neg hbrace, if_neg hcomma, if_neg hclose]

/-- **The decoder accepts exactly the arrays of elements that are written as objects.**  A body without a
    form feed between its elements is taken in and found whole, with some elements, if and only if it is
    read as one array with those elements, each of them an object.  Whatever the form feeds, a body with
    one of the defects is refused. -/
theorem accepts_iff_document (limit : Nat) (body : Bytes) :
    (FormFeedsInside body → ∀ es,
      (∃ d, (Decoder.new limit).push body = (.ok es, d) ∧ d.finish = .ok ())
        ↔ Reader.document (Reader.list TopicMessages.reader) body = .ok es ∧ WrittenAsObjects body)
    ∧ (Defective body →
      ¬ ∃ es d, (Decoder.new limit).push body = (.ok es, d) ∧ d.finish = .ok ()) := by
  constructor
  · intro hclear es
    calc (∃ d, (Decoder.new limit).push body = (.ok es, d) ∧ d.finish = .ok ())
      _ ↔ Takes .beforeArray body es .closed := accepts_iff_takes
      _ ↔ ArrayText isSeparator ElementText body es := takes_iff_arrayText
      _ ↔ ArrayText Lexeme.isSpace ElementText body es := arrayText_isSpace_iff hclear
      _ ↔ Reader.document (Reader.list TopicMessages.reader) body = .ok es ∧ WrittenAsObjects body :=
        document_iff_arrayText.symm
  · rintro hdefect ⟨es, haccepts⟩
    exact not_takes_of_defective hdefect es (accepts_iff_takes.mp haccepts)

/-! ### Answers with and without defects -/

/-- An element with nothing in it. -/
def plainElement : Bytes := (TopicMessages.empty "a").print

/-- Two of them, and blanks wherever they may stand. -/
def spaced : Bytes :=
  Ascii.bytes " [\n" ++ plainElement ++ Ascii.bytes "\t, " ++ plainElement ++ Ascii.bytes " ]\n"

/-- An element whose brackets close each other crosswise. -/
def crossed : Bytes := Ascii.bytes "\x7b\"topic\":[\x7d]"

/-- An element without messages. -/
def halfElement : Bytes := Ascii.bytes "\x7b\"topic\":\"a\"\x7d"

/-- An answer with blanks is accepted, even by a decoder that may hold nothing.  One body with each of
    the defects is refused: `[e, ]`, `[e,,e]`, `[e e]`, brackets crosswise, `[e`, `[e] e`, half an
    element, and a number for an element. -/
theorem spaced_accepted_defects_refused :
    (FormFeedsInside spaced
      ∧ ∃ d, (Decoder.new 0).push spaced = (.ok [.empty "a", .empty "a"], d) ∧ d.finish = .ok ())
    ∧ ∀ body ∈ [
        Ascii.openBracket :: plainElement ++ Ascii.comma :: ([Ascii.space] ++ Ascii.closeBracket :: []),
        Ascii.openBracket :: plainElement ++ Ascii.comma :: ([] ++ Ascii.comma :: plainElement),
        [Ascii.openBracket] ++ plainElement.dropLast ++ Ascii.closeBrace
          :: ([Ascii.space] ++ Ascii.openBrace :: plainElement.tail),
        [Ascii.openBracket] ++ (crossed ++ [Ascii.closeBracket]),
        Ascii.openBracket :: plainElement,
        Ascii.openBracket :: plainElement ++ Ascii.closeBracket :: (Ascii.space :: plainElement),
        [Ascii.openBracket] ++ (halfElement ++ [Ascii.closeBracket]),
        [Ascii.openBracket] ++ Ascii.zero :: [Ascii.closeBracket]],
      Defective body
        ∧ ¬ ∃ es d, (Decoder.new 0).push body = (.ok es, d) ∧ d.finish = .ok () := by
  have hspace : ∀ b ∈ [Ascii.space], isSeparator b = true :=
    List.forall_mem_singleton.mpr (by decide)
  constructor
  · have hclear : FormFeedsInside spaced := by
      have hnone : Ascii.formFeed ∉ spaced := by decide +kernel
      intro front rest hcut
      exact absurd (hcut ▸ List.mem_append_right front List.mem_cons_self) hnone
    refine ⟨hclear, ((accepts_iff_document 0 spaced).1 hclear _).mpr ⟨by decide +kernel, ?_⟩⟩
    exact ⟨[(Ascii.openBrace, .empty "a"), (Ascii.openBrace, .empty "a")], by decide +kernel, by decide⟩
  · intro body hbody
    have hdefect : Defective body := by
      simp only [List.mem_cons, List.not_mem_nil, or_false] at hbody
      rcases hbody with rfl | rfl | rfl | rfl | rfl | rfl | rfl | rfl
      · exact .trailingComma (by decide +kernel) hspace
      · exact .doubledComma (by decide +kernel) (List.forall_mem_nil _)
      · exact .missingComma (by decide +kernel) hspace
      · exact .mismatchedBrackets (by decide +kernel) (by decide +kernel) (by decide +kernel)
      · exact .unclosed (by decide +kernel)
      · exact .bytesAfterArray (b := Ascii.openBrace) (by decide +kernel) (by decide +kernel) (by decide)
      · have hmissing : Reader.document TopicMessages.reader halfElement
            = .error (.missingField "messages") := by decide +kernel
        exact .wrongShape (by decide +kernel) (by decide +kernel) hmissing
      · exact .notAnObject (by decide +kernel) (by decide) (by decide) (by decide) (by decide)
    exact ⟨hdefect, (accepts_iff_document 0 body).2 hdefect⟩

end Decoder
end TopicRelay.Wire
