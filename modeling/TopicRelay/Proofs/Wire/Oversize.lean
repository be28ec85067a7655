/-
  What the limit on elements holds back, and what it lets through.

  specification   a limit that holds lets no element through whose text is longer, and it is the same
                  for all ways to cut a body (`LimitHolds`)
  objects         a body has objects where its elements should be, up to a byte that fails; each has
                  its text, and what is read from it (`objects`)
  too large       a decoder says so just if some first pieces end within an object, at more bytes than
                  the limit (`pushAll_tooLarge_iff`)
  crux            where a body goes on, such bytes belong to an object that is longer still
                  (`within_object`)

  So the limit counts only where a piece ends.  An element that begins and ends within one piece can
  have any length, and one that exceeds the limit by a byte is never held back.
-/
import TopicRelay.Proofs.Wire.Acceptance

namespace TopicRelay.Wire

open Json

/-- How many bytes of an element are there, is said rightly. -/
def Stage.Counted : Stage → Prop
  | .inElement p => p.size = p.bytes.length
  | _ => True

namespace Decoder

variable {stage last : Stage} {bs good rest : Bytes} {es : List TopicMessages} {position : Nat}
  {b : UInt8} {e : DecodeError}

/-! ## The objects of a body -/

/-- An object that stands where an element should. -/
structure Object where
  text : Bytes
  reading : Except ReadError TopicMessages

/-- The objects that bytes complete at a stage, up to a byte that fails. -/
def objects (stage : Stage) : Bytes → List Object
  | [] => []
  | b :: rest => match effect stage b with
    | .refused => []
    | .to next => objects next rest
    | .element p => match Reader.document TopicMessages.reader p.bytes with
      | .error reason => [⟨p.bytes, .error reason⟩]
      | .ok e => ⟨p.bytes, .ok e⟩ :: objects .afterElement rest

/-- **What a limit is for.**  However the body is cut, each element that comes out has a text in it that
    is no longer than the limit; and whether the body is found too large does not depend on the cut. -/
structure LimitHolds (limit : Nat) (body : Bytes) : Prop where
  bounded : ∀ pieces : List Bytes, pieces.flatten = body →
    ∀ (i : Nat) (e : TopicMessages), ((Decoder.new limit).pushAll pieces).1[i]? = some e →
      ∃ text : Bytes, (objects .beforeArray body)[i]? = some ⟨text, .ok e⟩ ∧ text.length ≤ limit
  uniform : ∀ pieces pieces' : List Bytes, pieces.flatten = body → pieces'.flatten = body →
    ((Decoder.new limit).pushAll pieces).2 = .error (.elementTooLarge limit) →
      ((Decoder.new limit).pushAll pieces').2 = .error (.elementTooLarge limit)

/-- Bytes that are taken in complete the elements that are read from their objects, and after them come
    the objects of what follows. -/
theorem Takes.objects (h : Takes stage bs es last) :
    (objects stage bs).map Object.reading = es.map .ok
      ∧ ∀ rest, Decoder.objects stage (bs ++ rest) = Decoder.objects stage bs ++ Decoder.objects last rest := by
  induction h with
  | nil stage => exact ⟨rfl, fun _ => rfl⟩
  | move heffect _ ih =>
    simp only [List.cons_append, Decoder.objects, heffect]
    exact ih
  | element heffect hread _ ih =>
    simp only [List.cons_append, Decoder.objects, heffect, hread, List.map_cons, ih.1, ih.2]
    exact ⟨trivial, fun _ => trivial⟩

/-- The place of an object: it ends with a byte behind others that are taken in. -/
theorem exists_of_mem_objects {o : Object} (h : o ∈ objects stage bs) :
    ∃ good b rest es last p, bs = good ++ b :: rest ∧ Takes stage good es last
      ∧ effect last b = .element p
      ∧ o = ⟨p.bytes, Reader.document TopicMessages.reader p.bytes⟩ := by
  induction bs generalizing stage with
  | nil => cases h
  | cons b bs ih =>
    rw [objects] at h
    split at h
    · cases h
    · next next heffect =>
      obtain ⟨good, c, rest, es, last, p, rfl, htakes, hlast, ho⟩ := ih h
      exact ⟨b :: good, c, rest, es, last, p, rfl, .move heffect htakes, hlast, ho⟩
    · next p heffect =>
      split at h
      · next reason hread =>
        rw [List.mem_singleton] at h
        exact ⟨[], b, bs, [], stage, p, rfl, .nil stage, heffect, by rw [h, hread]⟩
      · next e hread =>
        rcases List.mem_cons.mp h with rfl | h
        · exact ⟨[], b, bs, [], stage, p, rfl, .nil stage, heffect, by rw [hread]⟩
        · obtain ⟨good, c, rest, es, last, q, rfl, htakes, hlast, ho⟩ := ih h
          exact ⟨b :: good, c, rest, e :: es, last, q, rfl, .element heffect hread htakes, hlast, ho⟩

/-! ## Sizes -/

theorem counted_of_between {next : Stage} (h : between stage b = .to next) (hstage : stage.Counted) :
    next.Counted := by
  unfold between at h
  grind [Stage.Counted, Partial.start, Partial.bytes]

theorem counted_of_effect {next : Stage} (h : effect stage b = .to next) (hstage : stage.Counted) :
    next.Counted := by
  cases stage with
  | inElement p =>
    rw [effect] at h
    split at h
    · cases h
    · cases h
      have hsize : p.size = p.bytes.length := hstage
      show p.size + 1 = (b :: p.reversed).reverse.length
      rw [hsize, Partial.bytes, List.length_reverse, List.length_reverse, List.length_cons]
  | _ => exact counted_of_between h hstage

theorem Takes.counted (h : Takes stage bs es last) (hstage : stage.Counted) : last.Counted := by
  induction h with
  | nil stage => exact hstage
  | move heffect _ ih => exact ih (counted_of_effect heffect hstage)
  | element _ _ _ ih => exact ih trivial

/-- The last byte of an object. -/
theorem length_of_element {p : Partial} (h : effect last b = .element p) (hlast : last.Counted) :
    p.bytes.length = last.size + 1 := by
  cases last with
  | inElement q =>
    rw [effect] at h
    split at h
    · cases h
      have hsize : q.size = q.bytes.length := hlast
      show (b :: q.reversed).reverse.length = q.size + 1
      rw [hsize, Partial.bytes, List.length_reverse, List.length_reverse, List.length_cons]
    · cases h
  | _ => exact absurd h (between_ne_element _ _ _)

/-- **Within an object nothing is refused.**  So what follows ends in it, or completes it; then it is
    longer than what was there. -/
theorem within_object {p : Partial} (hp : (Stage.inElement p).Counted) (bs : Bytes) :
    (∃ q, Takes (.inElement p) bs [] (.inElement q) ∧ p.size ≤ q.size)
      ∨ ∃ o ∈ objects (.inElement p) bs, p.size < o.text.length := by
  induction bs generalizing p with
  | nil => exact Or.inl ⟨p, .nil _, Nat.le_refl _⟩
  | cons b bs ih =>
    have hlonger : (p.push b).size = p.size + 1 := rfl
    by_cases hcomplete : (p.push b).isComplete = true
    · have heffect : effect (.inElement p) b = .element (p.push b) := by
        rw [effect, if_pos hcomplete]
      have hlength : (p.push b).bytes.length = p.size + 1 := length_of_element heffect hp
      refine Or.inr ⟨⟨(p.push b).bytes, Reader.document TopicMessages.reader (p.push b).bytes⟩, ?_, ?_⟩
      · rw [objects, heffect]
        cases hread : Reader.document TopicMessages.reader (p.push b).bytes with
        | error reason =>
          simp only [hread]
          exact List.mem_cons_self
        | ok e =>
          simp only [hread]
          exact List.mem_cons_self
      · show p.size < (p.push b).bytes.length
        omega
    · have heffect : effect (.inElement p) b = .to (.inElement (p.push b)) := by
        rw [effect, if_neg hcomplete]
      rcases ih (counted_of_effect heffect hp) with ⟨q, htakes, hle⟩ | ⟨o, ho, hlt⟩
      · exact Or.inl ⟨q, .move heffect htakes, by omega⟩
      · refine Or.inr ⟨o, ?_, by omega⟩
        rw [objects, heffect]
        exact ho

/-! ## One way through a body -/

/-- Bytes lead to one stage only. -/
theorem Takes.unique {last' : Stage} {es' : List TopicMessages} (h : Takes stage bs es last)
    (h' : Takes stage bs es' last') : es' = es ∧ last' = last := by
  induction h generalizing es' with
  | nil stage =>
    cases h'
    exact ⟨rfl, rfl⟩
  | move heffect _ ih =>
    cases h' with
    | move heffect' rest' =>
      cases heffect.symm.trans heffect'
      exact ih rest'
    | element heffect' _ _ => cases heffect.symm.trans heffect'
  | element heffect hread _ ih =>
    cases h' with
    | move heffect' _ => cases heffect.symm.trans heffect'
    | element heffect' hread' rest' =>
      cases heffect.symm.trans heffect'
      cases hread.symm.trans hread'
      obtain ⟨rfl, rfl⟩ := ih rest'
      exact ⟨rfl, rfl⟩

/-- A byte that fails is not taken in. -/
theorem Fails.not_takes (h : Fails position stage b e) : ¬ Takes stage (b :: rest) es last := by
  intro htakes
  cases h with
  | refused heffect =>
    cases htakes with
    | move heffect' _ => cases heffect.symm.trans heffect'
    | element heffect' _ _ => cases heffect.symm.trans heffect'
  | unreadable heffect hread =>
    cases htakes with
    | move heffect' _ => cases heffect.symm.trans heffect'
    | element heffect' hread' _ =>
      cases heffect.symm.trans heffect'
      cases hread.symm.trans hread'

theorem Fails.ne_tooLarge (h : Fails position stage b e) (limit : Nat) : e ≠ .elementTooLarge limit := by
  rintro rfl
  cases h

/-! ## Pieces -/

variable {d : Decoder}

/-- What becomes of a piece: it is taken in and ends within the limit, or it ends above it, or it has a
    byte past which no way leads. -/
inductive Outcome (d : Decoder) (piece : Bytes) : Prop where
  | taken {es : List TopicMessages} {d₁ : Decoder} (htakes : Takes d.stage piece es d₁.stage)
      (hpush : d.push piece = (.ok es, d₁)) (hsize : d₁.stage.size ≤ d₁.limit)
      (hlimit : d₁.limit = d.limit) (hpending : d₁.pending = [])
  | tooLarge {es : List TopicMessages} {last : Stage} {d₁ : Decoder} (htakes : Takes d.stage piece es last)
      (hsize : d.limit < last.size) (hpush : d.push piece = (.error (.elementTooLarge d.limit), d₁))
  | failed {e : DecodeError} {d₁ : Decoder} (hpush : d.push piece = (.error e, d₁))
      (hne : e ≠ .elementTooLarge d.limit)
      (hnever : ∀ rest es last, ¬ Takes d.stage (piece ++ rest) es last)

theorem outcome (hpending : d.pending = []) (piece : Bytes) : Outcome d piece := by
  rcases takes_or_fails d.stage d.position piece with
    ⟨es, last, htakes⟩ | ⟨good, b, rest, es, last, e, rfl, htakes, hfails⟩
  · by_cases hlast : last.size ≤ d.limit
    · obtain ⟨d₁, hpush, rfl, hlimit, -, hpending₁⟩ := htakes.push hpending hlast
      exact .taken htakes hpush (hlimit ▸ hlast) hlimit hpending₁
    · have hlarge := htakes.push_of_lt hpending (Nat.not_le.mp hlast)
      have hpush : d.push piece = (.error (.elementTooLarge d.limit), (d.push piece).2) :=
        Prod.ext hlarge rfl
      exact .tooLarge htakes (Nat.not_le.mp hlast) hpush
  · obtain ⟨d₁, hpush⟩ := htakes.push_of_fails hpending hfails rest
    refine .failed hpush (hfails.ne_tooLarge d.limit) fun more es' last' h => ?_
    rw [List.append_assoc] at h
    obtain ⟨front, behind, middle, -, hfront, hbehind⟩ := h.split
    obtain ⟨-, rfl⟩ := htakes.unique hfront
    exact hfails.not_takes hbehind

/-- **Too large.**  A decoder says so when a piece ends within an object, at more bytes than the
    limit. -/
theorem pushAll_tooLarge_iff (hpending : d.pending = []) (hsize : d.stage.size ≤ d.limit)
    (pieces : List Bytes) :
    (d.pushAll pieces).2 = .error (.elementTooLarge d.limit)
      ↔ ∃ before es last, before <+: pieces ∧ Takes d.stage before.flatten es last
          ∧ d.limit < last.size := by
  induction pieces generalizing d with
  | nil =>
    constructor
    · intro h
      cases h
    · rintro ⟨before, es, last, hprefix, htakes, hlt⟩
      obtain rfl := List.prefix_nil.mp hprefix
      cases htakes
      omega
  | cons piece pieces ih =>
    rw [Decoder.pushAll]
    -- no piece at all is no way beyond the limit
    have hcons : ∀ {before es last}, before <+: piece :: pieces → Takes d.stage before.flatten es last →
        d.limit < last.size → ∃ before', before' <+: pieces ∧ before = piece :: before' := by
      intro before es last hprefix htakes hlt
      cases before with
      | nil =>
        cases htakes
        omega
      | cons piece' before' =>
        obtain ⟨rfl, hprefix'⟩ := List.cons_prefix_cons.mp hprefix
        exact ⟨before', hprefix', rfl⟩
    cases outcome hpending piece with
    | @taken es d₁ htakes hpush hsize₁ hlimit hpending₁ =>
      have hrest := ih hpending₁ hsize₁
      simp only [hpush]
      rw [← hlimit, hrest]
      constructor
      · rintro ⟨before, es', last, hprefix, htakes', hlt⟩
        exact ⟨piece :: before, _, last, (List.prefix_cons_inj piece).mpr hprefix,
          htakes.append htakes', hlt⟩
      · rintro ⟨before, es', last, hprefix, htakes', hlt⟩
        obtain ⟨before', hprefix', rfl⟩ := hcons hprefix htakes' (hlimit ▸ hlt)
        obtain ⟨front, behind, middle, -, hfront, hbehind⟩ := htakes'.split
        obtain ⟨-, rfl⟩ := htakes.unique hfront
        exact ⟨before', behind, last, hprefix', hbehind, hlt⟩
    | @tooLarge es last d₁ htakes hlt hpush =>
      simp only [hpush, true_iff]
      refine ⟨[piece], es, last, ⟨pieces, rfl⟩, ?_, hlt⟩
      rw [List.flatten_singleton]
      exact htakes
    | @failed e d₁ hpush hne hnever =>
      simp only [hpush]
      constructor
      · intro h
        exact absurd (Except.error.inj h) hne
      · rintro ⟨before, es', last, hprefix, htakes', hlt⟩
        obtain ⟨before', -, rfl⟩ := hcons hprefix htakes' hlt
        exact absurd htakes' (hnever _ _ _)

/-- What comes out are the elements of some first pieces. -/
theorem takes_pushAll (hpending : d.pending = []) (pieces : List Bytes) :
    ∃ before last, before <+: pieces ∧ Takes d.stage before.flatten (d.pushAll pieces).1 last := by
  induction pieces generalizing d with
  | nil => exact ⟨[], d.stage, List.prefix_refl _, .nil _⟩
  | cons piece pieces ih =>
    rw [Decoder.pushAll]
    -- a piece that is refused gives nothing
    cases outcome hpending piece with
    | taken htakes hpush _ _ hpending₁ =>
      obtain ⟨before, last, hprefix, htakes'⟩ := ih hpending₁
      simp only [hpush]
      exact ⟨piece :: before, last, (List.prefix_cons_inj piece).mpr hprefix, htakes.append htakes'⟩
    | tooLarge _ _ hpush =>
      simp only [hpush]
      exact ⟨[], d.stage, List.nil_prefix, .nil _⟩
    | failed hpush _ _ =>
      simp only [hpush]
      exact ⟨[], d.stage, List.nil_prefix, .nil _⟩

/-! ## Bodies on which the limit holds -/

/-- Within what is read as an element there are at most as many bytes as the limit allows, and within
    what is not, one more. -/
def Object.Fits (limit : Nat) (o : Object) : Prop :=
  match o.reading with
  | .ok _ => o.text.length ≤ limit
  | .error _ => o.text.length ≤ limit + 1

theorem Object.Fits.length_le {limit : Nat} {o : Object} (h : o.Fits limit) :
    o.text.length ≤ limit + 1 := by
  obtain ⟨text, reading | reading⟩ := o
  · exact h
  · exact Nat.le_succ_of_le h

variable {limit : Nat} {body : Bytes}

/-- If a body goes on from within an object, at more bytes than the limit, and its objects fit, then it
    ends there. -/
theorem takes_of_fits (hfits : ∀ o ∈ objects .beforeArray body, o.Fits limit)
    (hbody : body = good ++ rest) (h : Takes .beforeArray good es last) (hlt : limit < last.size) :
    ∃ es' last', Takes .beforeArray body es' last' ∧ limit < last'.size := by
  have hcounted := h.counted trivial
  cases last with
  | inElement p =>
    have hsize : limit < p.size := hlt
    rcases within_object hcounted rest with ⟨q, hrest, hle⟩ | ⟨o, ho, hlonger⟩
    · exact ⟨_, .inElement q, hbody ▸ h.append hrest, Nat.lt_of_lt_of_le hsize hle⟩
    · have hmem : o ∈ objects .beforeArray body := by
        rw [hbody, h.objects.2]
        exact List.mem_append_right _ ho
      have := (hfits o hmem).length_le
      omega
  | _ => exact absurd hlt (Nat.not_lt_zero _)

/-- A body on which the limit holds has no objects beyond it. -/
theorem LimitHolds.fits (h : LimitHolds limit body) {o : Object} (ho : o ∈ objects .beforeArray body) :
    o.Fits limit := by
  obtain ⟨good, b, rest, es, last, p, rfl, htakes, heffect, rfl⟩ := exists_of_mem_objects ho
  rw [Object.Fits]
  cases hread : Reader.document TopicMessages.reader p.bytes with
  | ok e =>
    -- a cut right behind it lets it out
    have hfirst : Takes .beforeArray (good ++ [b]) (es ++ [e]) .afterElement :=
      htakes.append (.element heffect hread (.nil _))
    obtain ⟨d₁, hpush, -⟩ := hfirst.push (d := Decoder.new limit) rfl (Nat.zero_le _)
    have hout : ((Decoder.new limit).pushAll [good ++ [b], rest]).1[es.length]? = some e := by
      rw [Decoder.pushAll, hpush]
      simp
    obtain ⟨text, htext, hle⟩ := h.bounded _ (by simp) es.length e hout
    have hcount : (objects .beforeArray good).length = es.length := by
      have hlength := congrArg List.length htakes.objects.1
      rwa [List.length_map, List.length_map] at hlength
    rw [htakes.objects.2, ← hcount, List.getElem?_append_right (Nat.le_refl _), Nat.sub_self, objects,
      heffect] at htext
    simp only [hread, List.getElem?_cons_zero, Option.some.injEq, Object.mk.injEq, and_true] at htext
    rw [htext]
    exact hle
  | error reason =>
    -- a cut right in front of its last byte finds the body too large, and no cut at all does not
    by_contra hc
    have hlength := length_of_element heffect (htakes.counted trivial)
    have hlt : limit < last.size := by
      simp only at hc
      omega
    have htakes' : Takes (Decoder.new limit).stage [good].flatten es last := by
      rw [List.flatten_singleton]
      exact htakes
    have hfound := (pushAll_tooLarge_iff (d := Decoder.new limit) rfl (Nat.zero_le _) _).mpr
      ⟨[good], es, last, ⟨[b :: rest], rfl⟩, htakes', hlt⟩
    have hwhole := h.uniform _ [good ++ b :: rest] (by simp) List.flatten_singleton hfound
    obtain ⟨d₁, hpush⟩ :=
      htakes.push_of_fails (d := Decoder.new limit) rfl (.unreadable heffect hread) rest
    rw [Decoder.pushAll, hpush] at hwhole
    cases hwhole

/-- On a body whose objects fit, the limit holds. -/
theorem LimitHolds.of_fits (hfits : ∀ o ∈ objects .beforeArray body, o.Fits limit) :
    LimitHolds limit body where
  bounded := by
    rintro pieces rfl i e hi
    obtain ⟨before, last, ⟨behind, rfl⟩, htakes⟩ := takes_pushAll (d := Decoder.new limit) rfl pieces
    have hobjects : (objects .beforeArray before.flatten).map Object.reading
          = ((Decoder.new limit).pushAll (before ++ behind)).1.map .ok
        ∧ ∀ rest, objects .beforeArray (before.flatten ++ rest)
          = objects .beforeArray before.flatten ++ objects last rest := htakes.objects
    have hread : ((objects .beforeArray before.flatten).map Object.reading)[i]? = some (.ok e) := by
      rw [hobjects.1, List.getElem?_map, hi]
      rfl
    rw [List.getElem?_map, Option.map_eq_some_iff] at hread
    obtain ⟨⟨text, reading⟩, ho, hreading⟩ := hread
    obtain rfl : reading = .ok e := hreading
    have hwhole : (objects .beforeArray (before ++ behind).flatten)[i]? = some ⟨text, .ok e⟩ := by
      rw [List.flatten_append, hobjects.2,
        List.getElem?_append_left (List.getElem?_eq_some_iff.mp ho).1, ho]
    exact ⟨text, hwhole, hfits _ (List.mem_of_getElem? hwhole)⟩
  uniform := by
    rintro pieces pieces' hcut hcut' hfound
    have hlarge := pushAll_tooLarge_iff (d := Decoder.new limit) rfl (Nat.zero_le _)
    obtain ⟨before, es, last, ⟨behind, rfl⟩, htakes, hlt⟩ := (hlarge pieces).mp hfound
    rw [List.flatten_append] at hcut
    obtain ⟨es', last', htakes', hlt'⟩ := takes_of_fits hfits hcut.symm htakes hlt
    exact (hlarge pieces').mpr ⟨pieces', es', last', List.prefix_refl _, hcut' ▸ htakes', hlt'⟩

/-- **When the limit holds.**  It holds on the bodies whose elements all keep to it by themselves, and
    which have no object that is no element and is more than a byte too long. -/
theorem limitHolds_iff (limit : Nat) (body : Bytes) :
    LimitHolds limit body ↔ ∀ o ∈ objects .beforeArray body, o.Fits limit :=
  ⟨fun h _ ho => h.fits ho, .of_fits⟩

/-- An answer with one element, of twenty-seven bytes. -/
def oneElement : Bytes :=
  Ascii.openBracket :: ((TopicMessages.empty "a").print ++ [Ascii.closeBracket])

/-- **A limit that does not hold.**  As one piece this answer is taken in, and its element is longer
    than the limit; byte by byte it is too large. -/
theorem oneElement_passes :
    (TopicMessages.empty "a").print.length = 27
    ∧ ((Decoder.new 16).pushAll [oneElement]).1 = [.empty "a"]
    ∧ ((Decoder.new 16).pushAll (oneElement.map ([·]))).2 = .error (.elementTooLarge 16)
    ∧ ¬ LimitHolds 16 oneElement := by
  have hlarge : ((Decoder.new 16).pushAll (oneElement.map ([·]))).2 = .error (.elementTooLarge 16) := by
    decide +kernel
  have hout : ((Decoder.new 16).pushAll [oneElement]).1 = [.empty "a"] := by decide +kernel
  have htaken : ((Decoder.new 16).pushAll [oneElement]).2 ≠ .error (.elementTooLarge 16) := by
    decide +kernel
  refine ⟨by decide +kernel, hout, hlarge, fun h => htaken ?_⟩
  exact h.uniform _ _ (List.flatMap_singleton' _) List.flatten_singleton hlarge

end Decoder
end TopicRelay.Wire
