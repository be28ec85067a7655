/-
  What the decoder takes in, as a grammar.

  An answer is blanks, an opening bracket, elements with commas between them, a closing bracket and
  blanks again (`ArrayText`).  The text of an element is an object from its opening to its closing
  brace (`ElementText`).

  The decoder finds the end of an element by counting brackets, and asks the reader about the text
  up to there.  That both mean the same byte is the crux:

    the reader stops at a closing brace behind bytes that pass, where the count is back at zero
    the count was not zero before, so nothing is left behind that brace

  So the decoder goes from its first stage to its last exactly over the texts of this grammar
  (`takes_iff_arrayText`), with the form feed as one more blank.
-/
import Mathlib.Data.List.Induction
import TopicRelay.Proofs.Json.Confined
import TopicRelay.Proofs.Wire.Verdict

namespace TopicRelay.Wire

open Json

/-! ## Elements -/

namespace TopicMessages

theorem confined_error : TopicError.layout.Confined := by
  intro f hf
  simp only [TopicError.layout, List.mem_cons, List.not_mem_nil, or_false] at hf
  rcases hf with rfl | rfl
  · exact Reader.Confined.word16.map _
  · exact Reader.Confined.text.map _

theorem confined_message : messageLayout.Confined := by
  intro f hf
  simp only [messageLayout, List.mem_cons, List.not_mem_nil, or_false] at hf
  rcases hf with rfl | rfl
  · exact Reader.Confined.text.map _
  · exact Reader.Confined.payload.map _

theorem confined_layout : layout.Confined := by
  intro f hf
  simp only [layout, List.mem_cons, List.not_mem_nil, or_false] at hf
  rcases hf with rfl | rfl | rfl
  · exact Reader.Confined.text.map _
  · exact confined_message.reader.list.map _
  · exact confined_error.reader.nullable.map _

/-- **Elements are read without looking behind them.** -/
theorem confined : reader.Confined := confined_layout.reader

end TopicMessages

/-- The text of an element: an object, from its opening brace to its closing one, that is read as the
    element whatever comes after it. -/
def ElementText (w : Bytes) (e : TopicMessages) : Prop :=
  ∃ inner, w = Frame.object.opening :: (inner ++ [Frame.object.closing])
    ∧ Passes .outside inner .outside
    ∧ ∀ rest, TopicMessages.reader.run (w ++ rest) = .ok (e, rest)

namespace ElementText

variable {w s r : Bytes} {e : TopicMessages}

theorem passes (h : ElementText w e) : Passes .outside w .outside := by
  obtain ⟨inner, rfl, hinner, -⟩ := h
  exact Passes.nested .object hinner

theorem startsValue (h : ElementText w e) : StartsValue w := by
  obtain ⟨inner, rfl, -⟩ := h
  exact ⟨_, _, rfl, by decide, by decide⟩

/-- What is read from an opening brace on is the text of an element. -/
theorem of_run (h : TopicMessages.reader.run (Ascii.openBrace :: s) = .ok (e, r)) :
    ∃ w, Ascii.openBrace :: s = w ++ r ∧ ElementText w e := by
  have hread : ∀ t, TopicMessages.reader.run (Ascii.openBrace :: t) = TopicMessages.layout.object t := by
    intro t
    simp only [TopicMessages.reader, Layout.reader, Reader.leaf,
      Lexeme.skipBlanks_cons (show Lexeme.isSpace Ascii.openBrace = false by decide),
      beq_self_eq_true, Bool.true_or, if_true]
  rw [hread] at h
  obtain ⟨inner, rfl, hinner, hrun⟩ := TopicMessages.confined_layout.object h
  refine ⟨Ascii.openBrace :: (inner ++ [Frame.object.closing]), by simp, inner, rfl, hinner, ?_⟩
  intro rest
  rw [List.cons_append, List.append_assoc, hread]
  exact hrun rest

/-- Alone it is read as well. -/
theorem document (h : ElementText w e) : Reader.document TopicMessages.reader w = .ok e := by
  obtain ⟨inner, rfl, -, hrun⟩ := h
  have hwhole := hrun []
  rw [List.append_nil] at hwhole
  rw [Reader.document, hwhole]
  rfl

end ElementText

/-! ## An element that comes in -/

namespace Partial

/-- Bytes behind the opening brace of an element that is not complete with any of them. -/
def Unfinished (v : Bytes) : Prop := ∀ a, a <+: v → (after a).isComplete = false

theorem isComplete_after (v : Bytes) :
    (after v).isComplete = true ↔ (scanAll v (1, .outside)).1 = 0 := by
  rw [isComplete, beq_iff_eq, depth_after]

theorem unfinished_of_passes {v : Bytes} (h : Passes .outside v .outside) : Unfinished v := by
  intro a ha
  have habove := h.level.above 1 a ha
  rw [Bool.eq_false_iff, Ne, isComplete_after]
  omega

/-- The bracket behind bytes that pass is the last one. -/
theorem isComplete_closing {v : Bytes} (h : Passes .outside v .outside) :
    (after (v ++ [Ascii.closeBrace])).isComplete = true := by
  rw [isComplete_after, scanAll_append, h.level.back]
  rfl

theorem Unfinished.concat {v : Bytes} {b : UInt8} (h : Unfinished v)
    (hb : (after (v ++ [b])).isComplete = false) : Unfinished (v ++ [b]) := by
  intro a ha
  rcases List.prefix_concat_iff.mp ha with rfl | ha
  · exact hb
  · exact h a ha

/-- **The count and the reader agree on where an element ends.**  If its brackets are closed by the last
    byte and not before, and it is read, then all of it is read. -/
theorem elementText_of_document {v : Bytes} {b : UInt8} {e : TopicMessages} (hv : Unfinished v)
    (h : Reader.document TopicMessages.reader (after (v ++ [b])).bytes = .ok e) :
    ElementText (Ascii.openBrace :: (v ++ [b])) e := by
  rw [bytes_after] at h
  unfold Reader.document at h
  split at h
  · cases h
  · next e' r hrun =>
    split at h
    · cases h
      obtain ⟨w, hw, helement⟩ := ElementText.of_run hrun
      rcases r.eq_nil_or_concat with rfl | ⟨r, c, rfl⟩
      · rw [hw, List.append_nil]
        exact helement
      -- otherwise the element would have been complete before its last byte
      · obtain ⟨inner, rfl, hinner, -⟩ := helement
        have hcut : v ++ [b] = (inner ++ [Ascii.closeBrace] ++ r) ++ [c] := by
          have htail := (List.cons.inj hw).2
          rw [htail]
          simp [Frame.closing]
        have hfront : inner ++ [Ascii.closeBrace] <+: v := ⟨r, (List.append_inj' hcut rfl).1.symm⟩
        have hdone := isComplete_closing hinner
        rw [hv _ hfront] at hdone
        cases hdone
    · cases h

end Partial

/-! ## From stage to stage -/

/-- Whether no element is coming in. -/
def Stage.isBetween : Stage → Bool
  | .inElement _ => false
  | _ => true

namespace Decoder

open Partial (Unfinished after)

variable {stage last middle : Stage} {bs cs ws v : Bytes} {es es' : List TopicMessages} {b : UInt8}
  {e : TopicMessages}

theorem Takes.append (h : Takes stage bs es middle) (h' : Takes middle cs es' last) :
    Takes stage (bs ++ cs) (es ++ es') last := by
  induction h with
  | nil stage => exact h'
  | move heffect _ ih => exact .move heffect (ih h')
  | element heffect hread _ ih => exact .element heffect hread (ih h')

/-- The same where the first bytes complete no element. -/
theorem Takes.before (h : Takes stage bs [] middle) (h' : Takes middle cs es last) :
    Takes stage (bs ++ cs) es last := h.append h'

/-- Between elements a byte is no part of one. -/
theorem effect_of_between (h : stage.isBetween = true) (b : UInt8) : effect stage b = between stage b := by
  cases stage with
  | inElement p => cases h
  | _ => rfl

/-- A separator leaves the stage as it is. -/
theorem between_separator (stage : Stage) (hb : isSeparator b = true) : between stage b = .to stage := by
  unfold between
  exact if_pos hb

/-- Between elements none is completed. -/
theorem between_ne_element (stage : Stage) (b : UInt8) (p : Partial) : between stage b ≠ .element p := by
  unfold between
  grind

theorem takes_separators (h : stage.isBetween = true) (hws : ∀ b ∈ ws, isSeparator b = true) :
    Takes stage ws [] stage := by
  induction ws with
  | nil => exact .nil stage
  | cons b ws ih =>
    obtain ⟨hb, hws⟩ := List.forall_mem_cons.mp hws
    exact .move ((effect_of_between h b).trans (between_separator stage hb)) (ih hws)

/-! ### Texts of the grammar are taken in -/

theorem takes_unfinished (h : Unfinished v) : Takes (.inElement .start) v [] (.inElement (after v)) := by
  induction v using List.reverseRecOn with
  | nil => exact .nil _
  | append_singleton v b ih =>
    have hfront : Unfinished v := fun a ha => h a (ha.trans (List.prefix_append v [b]))
    refine Takes.before (ih hfront) (.move ?_ (.nil _))
    have hopen := h (v ++ [b]) (List.prefix_refl _)
    rw [effect, Partial.after_concat, hopen]
    rfl

theorem takes_element (h : ElementText bs e) (hstage : stage = .beforeFirst ∨ stage = .beforeElement) :
    Takes stage bs [e] .afterElement := by
  have hdocument := h.document
  obtain ⟨inner, rfl, hinner, -⟩ := h
  have hopen : effect stage Ascii.openBrace = .to (.inElement .start) := by
    rcases hstage with rfl | rfl <;> rfl
  have hinside := takes_unfinished (Partial.unfinished_of_passes hinner)
  have hclose : effect (.inElement (after inner)) Ascii.closeBrace
      = .element (after (inner ++ [Ascii.closeBrace])) := by
    rw [effect, Partial.after_concat, Partial.isComplete_closing hinner]
    rfl
  have hread : Reader.document TopicMessages.reader (after (inner ++ [Ascii.closeBrace])).bytes
      = .ok e := by
    rw [Partial.bytes_after]
    exact hdocument
  exact .move hopen (Takes.before hinside (.element hclose hread (.nil _)))

theorem takes_items (h : Items isSeparator ElementText bs es)
    (hstage : stage = .beforeFirst ∨ stage = .beforeElement) : Takes stage bs es .afterElement := by
  induction h generalizing stage with
  | last starts h hws => exact (takes_element h hstage).append (takes_separators rfl hws)
  | more starts h hws hws' rest ih =>
    have hcomma : effect .afterElement Ascii.comma = .to .beforeElement := rfl
    exact (takes_element h hstage).append (Takes.before (takes_separators rfl hws)
      (.move hcomma (Takes.before (takes_separators rfl hws') (ih (Or.inr rfl)))))

theorem takes_of_arrayText (h : ArrayText isSeparator ElementText bs es) :
    Takes .beforeArray bs es .closed := by
  obtain ⟨ws, inner, ws', hws, hrow, hws', rfl⟩ := h
  have hopen : effect .beforeArray Frame.array.opening = .to .beforeFirst := rfl
  have hend : Takes .closed ws' [] .closed := takes_separators rfl hws'
  refine Takes.before (takes_separators rfl hws) (.move hopen ?_)
  cases hrow with
  | empty hinner =>
    have hclose : effect .beforeFirst Frame.array.closing = .to .closed := rfl
    exact Takes.before (takes_separators rfl hinner) (.move hclose hend)
  | items hblanks hitems =>
    have hclose : effect .afterElement Frame.array.closing = .to .closed := rfl
    have hitems := (takes_items hitems (Or.inl rfl)).append (.move hclose hend)
    rw [List.append_nil] at hitems
    rw [List.append_assoc]
    exact Takes.before (takes_separators rfl hblanks) hitems

/-! ### What is taken in is a text of the grammar -/

/-- A byte between elements leads to another stage. -/
theorem Takes.exists_next (h : Takes stage (b :: bs) es last) (hstage : stage.isBetween = true) :
    ∃ next, between stage b = .to next ∧ Takes next bs es last := by
  have heffect := effect_of_between hstage b
  cases h with
  | move hmove rest => exact ⟨_, heffect.symm.trans hmove, rest⟩
  | element helement => exact absurd (heffect.symm.trans helement) (between_ne_element _ _ _)

/-- The stage that a byte leads to is the one that the other bytes are taken in at. -/
theorem Takes.of_cons {next : Stage} (h : Takes stage (b :: bs) es last)
    (hstage : stage.isBetween = true) (hnext : between stage b = .to next) : Takes next bs es last := by
  obtain ⟨next', hnext', hrest⟩ := h.exists_next hstage
  rw [hnext] at hnext'
  cases hnext'
  exact hrest

/-- Between elements stand separators, up to a byte that leads on to another stage. -/
theorem Takes.exists_turn (h : Takes stage bs es last) (hstage : stage.isBetween = true)
    (hlast : last ≠ stage) :
    ∃ ws b rest next, (∀ b ∈ ws, isSeparator b = true) ∧ isSeparator b = false
      ∧ bs = ws ++ b :: rest ∧ between stage b = .to next ∧ Takes next rest es last := by
  induction bs with
  | nil =>
    cases h
    exact absurd rfl hlast
  | cons b bs ih =>
    by_cases hb : isSeparator b = true
    · obtain ⟨ws, c, rest, next, hws, hc, rfl, hturn, htail⟩ :=
        ih (h.of_cons hstage (between_separator stage hb))
      exact ⟨b :: ws, c, rest, next, List.forall_mem_cons.mpr ⟨hb, hws⟩, hc, rfl, hturn, htail⟩
    · obtain ⟨next, hnext, hrest⟩ := h.exists_next hstage
      exact ⟨[], b, bs, next, List.forall_mem_nil _, Bool.eq_false_iff.mpr hb, rfl, hnext, hrest⟩

/-- Once the array is closed, only separators are taken in. -/
theorem Takes.of_closed (h : Takes .closed bs es .closed) : es = [] ∧ ∀ b ∈ bs, isSeparator b = true := by
  induction bs with
  | nil =>
    cases h
    exact ⟨rfl, List.forall_mem_nil _⟩
  | cons b bs ih =>
    by_cases hb : isSeparator b = true
    · obtain ⟨rfl, hbs⟩ := ih (h.of_cons rfl (between_separator .closed hb))
      exact ⟨rfl, List.forall_mem_cons.mpr ⟨hb, hbs⟩⟩
    · obtain ⟨next, hnext, -⟩ := h.exists_next rfl
      simp only [between, if_neg hb] at hnext
      cases hnext

/-- Behind an element comes a comma, or the bracket that closes the array. -/
theorem Takes.of_afterElement (h : Takes .afterElement bs es .closed) :
    ∃ ws rest, (∀ b ∈ ws, isSeparator b = true)
      ∧ (bs = ws ++ Ascii.comma :: rest ∧ Takes .beforeElement rest es .closed
        ∨ bs = ws ++ Ascii.closeBracket :: rest ∧ Takes .closed rest es .closed) := by
  obtain ⟨ws, b, rest, next, hws, hb, rfl, hturn, hrest⟩ := h.exists_turn rfl (by decide)
  simp only [between, hb, Bool.false_eq_true, if_false] at hturn
  split at hturn
  · next hcomma =>
    cases hturn
    subst hcomma
    exact ⟨ws, rest, hws, Or.inl ⟨rfl, hrest⟩⟩
  split at hturn
  · next hclose =>
    cases hturn
    subst hclose
    exact ⟨ws, rest, hws, Or.inr ⟨rfl, hrest⟩⟩
  · cases hturn

/-- Behind a comma comes the opening brace of an element. -/
theorem Takes.of_beforeElement (h : Takes .beforeElement bs es .closed) :
    ∃ ws rest, (∀ b ∈ ws, isSeparator b = true) ∧ bs = ws ++ Ascii.openBrace :: rest
      ∧ Takes (.inElement .start) rest es .closed := by
  obtain ⟨ws, b, rest, next, hws, hb, rfl, hturn, hrest⟩ := h.exists_turn rfl (by decide)
  simp only [between, hb, Bool.false_eq_true, if_false] at hturn
  split at hturn
  · next hbrace =>
    cases hturn
    subst hbrace
    exact ⟨ws, rest, hws, rfl, hrest⟩
  · cases hturn

/-- Behind the bracket that opens the array comes the opening brace of an element, or the bracket that
    closes it. -/
theorem Takes.of_beforeFirst (h : Takes .beforeFirst bs es .closed) :
    ∃ ws rest, (∀ b ∈ ws, isSeparator b = true)
      ∧ (bs = ws ++ Ascii.openBrace :: rest ∧ Takes (.inElement .start) rest es .closed
        ∨ bs = ws ++ Ascii.closeBracket :: rest ∧ Takes .closed rest es .closed) := by
  obtain ⟨ws, b, rest, next, hws, hb, rfl, hturn, hrest⟩ := h.exists_turn rfl (by decide)
  simp only [between, hb, Bool.false_eq_true, if_false] at hturn
  split at hturn
  · next hbrace =>
    cases hturn
    subst hbrace
    exact ⟨ws, rest, hws, Or.inl ⟨rfl, hrest⟩⟩
  split at hturn
  · next hclose =>
    cases hturn
    subst hclose
    exact ⟨ws, rest, hws, Or.inr ⟨rfl, hrest⟩⟩
  · cases hturn

/-- First of all comes the bracket that opens the array. -/
theorem Takes.of_beforeArray (h : Takes .beforeArray bs es .closed) :
    ∃ ws rest, (∀ b ∈ ws, isSeparator b = true) ∧ bs = ws ++ Ascii.openBracket :: rest
      ∧ Takes .beforeFirst rest es .closed := by
  obtain ⟨ws, b, rest, next, hws, hb, rfl, hturn, hrest⟩ := h.exists_turn rfl (by decide)
  simp only [between, hb, Bool.false_eq_true, if_false] at hturn
  split at hturn
  · next hopen =>
    cases hturn
    subst hopen
    exact ⟨ws, rest, hws, rfl, hrest⟩
  · cases hturn

/-- An element that has begun is completed by some byte, if it is over at the end. -/
theorem Takes.exists_element {v₀ : Bytes} (hv : Unfinished v₀)
    (h : Takes (.inElement (after v₀)) bs es last) (hlast : last.isBetween = true) :
    ∃ v b rest e es', bs = v ++ b :: rest ∧ es = e :: es' ∧ Unfinished (v₀ ++ v)
      ∧ (after (v₀ ++ v ++ [b])).isComplete = true
      ∧ Reader.document TopicMessages.reader (after (v₀ ++ v ++ [b])).bytes = .ok e
      ∧ Takes .afterElement rest es' last := by
  induction bs generalizing v₀ with
  | nil =>
    cases h
    cases hlast
  | cons b bs ih =>
    have heffect : effect (.inElement (after v₀)) b = if (after (v₀ ++ [b])).isComplete
        then .element (after (v₀ ++ [b])) else .to (.inElement (after (v₀ ++ [b]))) := by
      rw [effect, Partial.after_concat]
    by_cases hdone : (after (v₀ ++ [b])).isComplete = true
    · rw [if_pos hdone] at heffect
      cases h with
      | move hmove =>
        rw [heffect] at hmove
        cases hmove
      | @element _ _ _ _ es' _ e helement hread rest =>
        rw [heffect] at helement
        cases helement
        rw [← List.append_nil v₀] at hdone hread hv
        exact ⟨[], b, bs, e, es', rfl, rfl, hv, hdone, hread, rest⟩
    · rw [if_neg hdone] at heffect
      have hopen := hv.concat (Bool.eq_false_iff.mpr hdone)
      have hrest : Takes (.inElement (after (v₀ ++ [b]))) bs es last := by
        cases h with
        | move hmove rest =>
          rw [heffect] at hmove
          cases hmove
          exact rest
        | element helement =>
          rw [heffect] at helement
          cases helement
      obtain ⟨v, c, rest, e, es', rfl, rfl, hunfinished, hcomplete, hread, htail⟩ := ih hopen hrest
      rw [List.append_assoc v₀, List.singleton_append] at hunfinished hcomplete hread
      exact ⟨b :: v, c, rest, e, es', rfl, rfl, hunfinished, hcomplete, hread, htail⟩

theorem unfinished_nil : Unfinished [] := by
  intro a ha
  rw [List.prefix_nil.mp ha]
  rfl

/-- From an opening brace on stands the text of an element. -/
theorem Takes.exists_elementText (h : Takes (.inElement .start) bs es last)
    (hlast : last.isBetween = true) :
    ∃ w rest e es', Ascii.openBrace :: bs = w ++ rest ∧ es = e :: es' ∧ ElementText w e
      ∧ Takes .afterElement rest es' last := by
  obtain ⟨v, b, rest, e, es', rfl, rfl, hv, -, hread, htail⟩ :=
    Takes.exists_element unfinished_nil h hlast
  rw [List.nil_append] at hv hread
  refine ⟨Ascii.openBrace :: (v ++ [b]), rest, e, es', by simp, rfl, ?_, htail⟩
  exact Partial.elementText_of_document hv hread

/-- From an opening brace on stand elements, up to the bracket that closes the array. -/
theorem Takes.exists_items (h : Takes (.inElement .start) bs es .closed) :
    ∃ s ws', Ascii.openBrace :: bs = s ++ Frame.array.closing :: ws' ∧ Items isSeparator ElementText s es
      ∧ ∀ b ∈ ws', isSeparator b = true := by
  induction es generalizing bs with
  | nil =>
    obtain ⟨_, _, _, _, _, hes, _⟩ := h.exists_elementText rfl
    cases hes
  | cons e es ih =>
    obtain ⟨w, rest, _, _, hbs, hes, hw, hrest⟩ := h.exists_elementText rfl
    obtain ⟨rfl, rfl⟩ := List.cons.inj hes
    rw [hbs]
    obtain ⟨ws, rest, hws, ⟨rfl, hmore⟩ | ⟨rfl, hclosed⟩⟩ := hrest.of_afterElement
    · obtain ⟨ws', rest, hws', rfl, hnext⟩ := hmore.of_beforeElement
      obtain ⟨s, ws'', hs, hitems, hws''⟩ := ih hnext
      rw [hs]
      refine ⟨w ++ (ws ++ Ascii.comma :: (ws' ++ s)), ws'', by simp, ?_, hws''⟩
      exact .more hw.startsValue hw hws hws' hitems
    · obtain ⟨rfl, htail⟩ := hclosed.of_closed
      refine ⟨w ++ ws, rest, ?_, .last hw.startsValue hw hws, htail⟩
      rw [List.append_assoc]
      rfl

/-- **The decoder takes in exactly the texts of the grammar.** -/
theorem takes_iff_arrayText :
    Takes .beforeArray bs es .closed ↔ ArrayText isSeparator ElementText bs es := by
  constructor
  · intro h
    obtain ⟨ws, rest, hws, rfl, hfirst⟩ := h.of_beforeArray
    obtain ⟨ws', rest, hws', ⟨rfl, helement⟩ | ⟨rfl, hclosed⟩⟩ := hfirst.of_beforeFirst
    · obtain ⟨s, ws'', hs, hitems, hws''⟩ := helement.exists_items
      refine ⟨ws, ws' ++ s, ws'', hws, .items hws' hitems, hws'', ?_⟩
      rw [hs, List.append_assoc]
      rfl
    · obtain ⟨rfl, hrest⟩ := hclosed.of_closed
      exact ⟨ws, ws', rest, hws, .empty hws', hrest, rfl⟩
  · exact takes_of_arrayText

end Decoder
end TopicRelay.Wire
