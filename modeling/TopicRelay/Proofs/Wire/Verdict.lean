/-
  The verdict on a body does not depend on how it is cut.

  A decoder goes from stage to stage, a byte at a time.  That can be said without any pieces:

    `Takes`   bytes that lead from one stage to another, and the elements they complete
    `Fails`   a byte that cannot be taken in at a stage, and why

  Every text is either taken in as a whole, or up to a byte that fails (`takes_or_fails`).  A piece
  starts at the stage where the last one ended, so pieces take in what their bytes take in
  (`Takes.pushAll`), and fail at the byte at which the whole fails (`pushAll_of_fails`).

  Two things do depend on the cut.  The limit is looked at where a piece ends, so bodies longer than it
  are left out here.  And a piece that fails gives no elements, so how many come out before a failure
  is between none and all that are complete by then.
-/
import Mathlib.Control.Monad.Basic
import TopicRelay.Wire.Decoder

namespace TopicRelay.Wire.Decoder

open Json

/-! ## From stage to stage -/

/-- Bytes that are taken in at a stage, with the elements they complete and the stage after them. -/
inductive Takes : Stage → Bytes → List TopicMessages → Stage → Prop where
  | nil (stage : Stage) : Takes stage [] [] stage
  | move {stage next last : Stage} {b : UInt8} {bs : Bytes} {es : List TopicMessages}
      (h : effect stage b = .to next) (rest : Takes next bs es last) : Takes stage (b :: bs) es last
  | element {stage last : Stage} {b : UInt8} {bs : Bytes} {es : List TopicMessages} {p : Partial}
      {e : TopicMessages} (h : effect stage b = .element p)
      (he : Reader.document TopicMessages.reader p.bytes = .ok e)
      (rest : Takes .afterElement bs es last) : Takes stage (b :: bs) (e :: es) last

/-- A byte at some position that cannot be taken in at a stage. -/
inductive Fails (position : Nat) (stage : Stage) (b : UInt8) : DecodeError → Prop where
  | refused (h : effect stage b = .refused) : Fails position stage b (.unexpectedByte position b)
  | unreadable {p : Partial} {reason : ReadError} (h : effect stage b = .element p)
      (he : Reader.document TopicMessages.reader p.bytes = .error reason) :
      Fails position stage b (.badElement reason)

variable {stage last : Stage} {bs : Bytes} {es : List TopicMessages} {position : Nat} {b : UInt8}
  {e : DecodeError}

/-- **Every text is taken in, as a whole or up to a byte that fails.** -/
theorem takes_or_fails (stage : Stage) (position : Nat) (bs : Bytes) :
    (∃ es last, Takes stage bs es last)
      ∨ ∃ good b rest es last e, bs = good ++ b :: rest ∧ Takes stage good es last
        ∧ Fails (position + good.length) last b e := by
  induction bs generalizing stage position with
  | nil => exact Or.inl ⟨[], stage, .nil stage⟩
  | cons b bs ih =>
    -- what holds of the bytes behind `b` holds with `b` in front of them
    have hfurther : ∀ {next : Stage} (more : List TopicMessages),
        (∀ {good es last}, Takes next good es last → Takes stage (b :: good) (more ++ es) last) →
        (∃ es last, Takes stage (b :: bs) es last)
          ∨ ∃ good c rest es last e, b :: bs = good ++ c :: rest ∧ Takes stage good es last
            ∧ Fails (position + good.length) last c e := by
      intro next more hstep
      rcases ih next (position + 1) with ⟨es, last, h⟩ | ⟨good, c, rest, es, last, e, rfl, h, hfails⟩
      · exact Or.inl ⟨more ++ es, last, hstep h⟩
      · refine Or.inr ⟨b :: good, c, rest, more ++ es, last, e, rfl, hstep h, ?_⟩
        rw [List.length_cons, Nat.add_comm good.length, ← Nat.add_assoc]
        exact hfails
    rcases heffect : effect stage b with next | p | _
    · exact hfurther [] fun h => .move heffect h
    · cases hread : Reader.document TopicMessages.reader p.bytes with
      | error reason =>
        exact Or.inr ⟨[], b, bs, [], stage, _, rfl, .nil stage, .unreadable heffect hread⟩
      | ok e => exact hfurther [e] fun h => .element heffect hread h
    · exact Or.inr ⟨[], b, bs, [], stage, _, rfl, .nil stage, .refused heffect⟩

/-- Bytes that are taken in can be taken in in two parts. -/
theorem Takes.split {a : Bytes} (h : Takes stage (a ++ bs) es last) :
    ∃ front behind middle, es = front ++ behind ∧ Takes stage a front middle
      ∧ Takes middle bs behind last := by
  induction a generalizing stage es with
  | nil => exact ⟨[], es, stage, rfl, .nil stage, h⟩
  | cons b a ih =>
    rw [List.cons_append] at h
    cases h with
    | move heffect rest =>
      obtain ⟨front, behind, middle, rfl, hfront, hbehind⟩ := ih rest
      exact ⟨front, behind, middle, rfl, .move heffect hfront, hbehind⟩
    | element heffect hread rest =>
      obtain ⟨front, behind, middle, rfl, hfront, hbehind⟩ := ih rest
      exact ⟨_ :: front, behind, middle, rfl, .element heffect hread hfront, hbehind⟩

/-! ### What is kept -/

/-- Between elements nothing is kept, up to the brace that opens one. -/
theorem size_of_between {next : Stage} (h : between stage b = .to next) :
    next = stage ∨ next.size ≤ 1 := by
  unfold between at h
  split at h
  · exact Or.inl (Effect.to.inj h).symm
  · right
    grind [Stage.size, Partial.start]

theorem size_of_effect {next : Stage} (h : effect stage b = .to next) : next.size ≤ stage.size + 1 := by
  have hbetween : between stage b = .to next → next.size ≤ stage.size + 1 := by
    intro hb
    rcases size_of_between hb with rfl | hsize
    · exact Nat.le_succ _
    · omega
  cases stage with
  | inElement p =>
    rw [effect] at h
    split at h
    · cases h
    · cases h
      exact Nat.le_refl _
  | _ => exact hbetween h

/-- No more is kept than was kept or came since. -/
theorem Takes.size_le (h : Takes stage bs es last) : last.size ≤ stage.size + bs.length := by
  induction h with
  | nil stage => exact Nat.le_refl _
  | move heffect rest ih =>
    have hstep := size_of_effect heffect
    rw [List.length_cons]
    omega
  | element heffect hread rest ih =>
    have hnothing : Stage.afterElement.size = 0 := rfl
    rw [List.length_cons]
    omega

/-! ## One piece -/

/-- A scan goes on behind bytes that are taken in. -/
theorem Takes.scan_append (h : Takes stage bs es last) (position : Nat) (released : Bool)
    (seen : List TopicMessages) (rest : Bytes) :
    ∃ released', scan stage position released seen (bs ++ rest)
      = scan last (position + bs.length) released' (es.reverse ++ seen) rest := by
  induction h generalizing position released seen with
  | nil stage => exact ⟨released, rfl⟩
  | @move stage next last b bs es heffect _ ih =>
    obtain ⟨kept, hkept⟩ : ∃ kept, scan stage position released seen (b :: bs ++ rest)
        = scan next (position + 1) kept seen (bs ++ rest) := by
      rw [List.cons_append, scan, heffect]
      cases next with
      | inElement p => exact ⟨released, rfl⟩
      | _ => exact ⟨true, rfl⟩
    obtain ⟨released', hscan⟩ := ih (position + 1) kept seen
    refine ⟨released', ?_⟩
    rw [hkept, hscan, List.length_cons, Nat.add_comm bs.length, ← Nat.add_assoc]
  | @element stage last b bs es p e heffect hread _ ih =>
    obtain ⟨released', hscan⟩ := ih (position + 1) true (e :: seen)
    refine ⟨released', ?_⟩
    rw [List.cons_append, scan, heffect]
    simp only [hread]
    rw [hscan, List.length_cons, Nat.add_comm bs.length, ← Nat.add_assoc, List.reverse_cons,
      List.append_assoc, List.singleton_append]

/-- A scan ends at a byte that fails. -/
theorem Fails.scan_cons (h : Fails position last b e) (released : Bool) (seen : List TopicMessages)
    (rest : Bytes) : (scan last position released seen (b :: rest)).result = .error e := by
  cases h with
  | refused heffect => rw [scan, heffect]
  | unreadable heffect hread =>
    rw [scan, heffect]
    simp only [hread]

variable {d : Decoder} {piece good rest : Bytes} {pieces : List Bytes}

/-- **A piece that is taken in** gives the elements it completes. -/
theorem Takes.push (hpending : d.pending = []) (h : Takes d.stage piece es last)
    (hsize : last.size ≤ d.limit) :
    ∃ d', d.push piece = (.ok es, d') ∧ d'.stage = last ∧ d'.limit = d.limit
      ∧ d'.position = d.position + piece.length ∧ d'.pending = [] := by
  obtain ⟨released', hscan⟩ := h.scan_append d.position false [] []
  rw [List.append_nil, List.append_nil, scan] at hscan
  refine ⟨⟨d.limit, last, d.position + piece.length, [], if released' then 0 else d.spent⟩, ?_, rfl,
    rfl, rfl, rfl⟩
  simp only [Decoder.push, hpending, List.nil_append, hscan, if_neg (Nat.not_lt.mpr hsize),
    List.reverse_reverse]

/-- **A piece with a byte that fails** fails as that byte does. -/
theorem Takes.push_of_fails (hpending : d.pending = []) (h : Takes d.stage good es last)
    (hfails : Fails (d.position + good.length) last b e) (rest : Bytes) :
    ∃ d', d.push (good ++ b :: rest) = (.error e, d') := by
  obtain ⟨released', hscan⟩ := h.scan_append d.position false [] (b :: rest)
  have hresult := hfails.scan_cons released' (es.reverse ++ []) rest
  rw [← hscan] at hresult
  rw [Decoder.push, hpending, List.nil_append]
  simp only [hresult]
  exact ⟨_, rfl⟩

/-! ## Any number of pieces -/

/-- Pieces take in what all their bytes take in. -/
theorem Takes.pushAll (hpending : d.pending = []) (h : Takes d.stage pieces.flatten es last)
    (hsize : d.stage.size + pieces.flatten.length ≤ d.limit) :
    ∃ d', d.pushAll pieces = (es, .ok d') ∧ d'.stage = last := by
  induction pieces generalizing d es with
  | nil =>
    cases h
    exact ⟨d, rfl, rfl⟩
  | cons piece pieces ih =>
    rw [List.flatten_cons] at h hsize
    rw [List.length_append] at hsize
    obtain ⟨front, behind, middle, rfl, hfront, hbehind⟩ := h.split
    have hkept := hfront.size_le
    obtain ⟨d₁, hpush, rfl, hlimit, -, hpending₁⟩ := hfront.push hpending (by omega)
    obtain ⟨d', hall, hlast⟩ := ih hpending₁ hbehind (by omega)
    refine ⟨d', ?_, hlast⟩
    rw [Decoder.pushAll, hpush]
    simp only [hall]

/-- Where a byte falls when a text is cut in two. -/
theorem cut_around {front behind : Bytes} (h : front ++ behind = good ++ b :: rest) :
    (∃ more, good = front ++ more ∧ behind = more ++ b :: rest)
      ∨ ∃ more, front = good ++ b :: more := by
  rcases List.append_eq_append_iff.mp h with ⟨more, rfl, hbehind⟩ | ⟨more, rfl, hmore⟩
  · exact Or.inl ⟨more, rfl, hbehind⟩
  · cases more with
    | nil => exact Or.inl ⟨[], (List.append_nil _).symm.trans (List.append_nil _).symm, hmore.symm⟩
    | cons c more =>
      obtain ⟨rfl, -⟩ := List.cons.inj hmore
      exact Or.inr ⟨more, rfl⟩

/-- **Pieces fail at the byte at which the whole fails**, and before that they give some of the
    elements that are complete by then, in order. -/
theorem Takes.pushAll_of_fails (hpending : d.pending = []) (h : Takes d.stage good es last)
    (hfails : Fails (d.position + good.length) last b e) (hcut : pieces.flatten = good ++ b :: rest)
    (hsize : d.stage.size + pieces.flatten.length ≤ d.limit) :
    ∃ before, before <+: es ∧ d.pushAll pieces = (before, .error e) := by
  induction pieces generalizing d good es with
  | nil =>
    rw [List.flatten_nil] at hcut
    exact absurd hcut.symm (List.append_ne_nil_of_right_ne_nil _ (List.cons_ne_nil _ _))
  | cons piece pieces ih =>
    rw [List.flatten_cons] at hcut hsize
    rcases cut_around hcut with ⟨good', rfl, hbehind⟩ | ⟨more, rfl⟩
    -- the byte is in a later piece
    · rw [List.length_append] at hsize
      rw [List.length_append, ← Nat.add_assoc] at hfails
      obtain ⟨front, behind, middle, rfl, hfront, hrest⟩ := h.split
      have hkept := hfront.size_le
      obtain ⟨d₁, hpush, rfl, hlimit, hposition, hpending₁⟩ := hfront.push hpending (by omega)
      rw [← hposition] at hfails
      obtain ⟨before, hprefix, hall⟩ := ih hpending₁ hrest hfails hbehind (by omega)
      refine ⟨front ++ before, (List.prefix_append_right_inj front).mpr hprefix, ?_⟩
      rw [Decoder.pushAll, hpush]
      simp only [hall]
    · obtain ⟨d', hpush⟩ := h.push_of_fails hpending hfails more
      refine ⟨[], List.nil_prefix, ?_⟩
      rw [Decoder.pushAll, hpush]

/-! ## The verdict -/

/-- **The verdict on a body does not depend on how it is cut.**  If the decoder takes a body in as one
    piece, it takes in any pieces of it, gives the same elements, and agrees on whether the answer is
    whole.  If it refuses the body, it refuses the pieces for the same reason, at the same byte; what it
    gave before are the first of the elements that are complete in front of that byte. -/
theorem pushAll_agrees_with_push (limit : Nat) (body : Bytes) (hsize : body.length ≤ limit)
    (pieces : List Bytes) (hcut : pieces.flatten = body) :
    (∀ es d, (Decoder.new limit).push body = (.ok es, d) →
      ∃ d', (Decoder.new limit).pushAll pieces = (es, .ok d') ∧ d'.finish = d.finish)
    ∧ ∀ e d, (Decoder.new limit).push body = (.error e, d) →
      ∃ before, (Decoder.new limit).pushAll pieces = (before, .error e)
        ∧ ∃ good b rest complete, body = good ++ b :: rest ∧ before <+: complete
          ∧ (∃ d₁, (Decoder.new limit).push good = (.ok complete, d₁))
          ∧ (∃ d₂, (Decoder.new limit).push (good ++ [b]) = (.error e, d₂))
          ∧ ∀ offset byte, e = .unexpectedByte offset byte → offset = good.length ∧ byte = b := by
  subst hcut
  have hempty : (Decoder.new limit).stage.size = 0 := rfl
  rcases takes_or_fails (Decoder.new limit).stage 0 pieces.flatten with
    ⟨es, last, htakes⟩ | ⟨good, b, rest, es, last, e, hbody, htakes, hfails⟩
  · have hkept := htakes.size_le
    obtain ⟨d₀, hpush, hlast, -⟩ := htakes.push rfl (show last.size ≤ limit by omega)
    rw [hpush]
    constructor
    · rintro es' d h
      cases h
      obtain ⟨d', hall, hlast'⟩ := htakes.pushAll rfl (show _ ≤ limit by omega)
      refine ⟨d', hall, ?_⟩
      rw [finish, finish, hlast', hlast]
    · intro e d h
      cases h
  · have hkept := htakes.size_le
    have hlength := congrArg List.length hbody
    rw [List.length_append] at hlength
    obtain ⟨d₀, hpush⟩ := htakes.push_of_fails rfl hfails rest
    rw [hbody, hpush]
    constructor
    · intro es d h
      cases h
    · rintro e' d h
      cases h
      obtain ⟨before, hprefix, hall⟩ :=
        htakes.pushAll_of_fails rfl hfails hbody (show _ ≤ limit by omega)
      obtain ⟨d₁, hgood, -⟩ := htakes.push rfl (show last.size ≤ limit by omega)
      obtain ⟨d₂, hbad⟩ := htakes.push_of_fails rfl hfails []
      refine ⟨before, hall, good, b, rest, es, rfl, hprefix, ⟨d₁, hgood⟩, ⟨d₂, hbad⟩, ?_⟩
      rintro offset byte rfl
      cases hfails with
      | refused => exact ⟨Nat.zero_add _, rfl⟩

/-- An answer that breaks off behind its first element. -/
def unfinished : Bytes := Ascii.openBracket :: ((TopicMessages.empty "a").print ++ [Ascii.comma])

/-- The same answer going on with something that is no element. -/
def broken : Bytes := unfinished ++ Ascii.bytes "x]"

/-- Byte by byte, the first answer is taken in and found incomplete.  The second is refused where it is
    refused as a whole, and by then its element is out. -/
theorem verdict_byte_by_byte :
    (unfinished.length ≤ 40
      ∧ (unfinished.map ([·])).flatten = unfinished
      ∧ (∃ d, (Decoder.new 40).push unfinished = (.ok [.empty "a"], d) ∧ d.finish = .error .incomplete)
      ∧ ∃ d', (Decoder.new 40).pushAll (unfinished.map ([·])) = ([.empty "a"], .ok d')
        ∧ d'.finish = .error .incomplete)
    ∧ (broken.length ≤ 40
      ∧ (broken.map ([·])).flatten = broken
      ∧ (∃ d, (Decoder.new 40).push broken = (.error (.unexpectedByte 29 0x78), d))
      ∧ ((Decoder.new 40).pushAll (broken.map ([·]))).1 = [.empty "a"]
      ∧ ((Decoder.new 40).pushAll (broken.map ([·]))).2 = .error (.unexpectedByte 29 0x78)) := by
  have hsize : unfinished.length ≤ 40 ∧ broken.length ≤ 40 := by decide +kernel
  have hcut : (unfinished.map ([·])).flatten = unfinished ∧ (broken.map ([·])).flatten = broken := by
    decide +kernel
  have htaken : (Decoder.new 40).push unfinished
      = (.ok [.empty "a"], ((Decoder.new 40).push unfinished).2) := by decide +kernel
  have hopen : ((Decoder.new 40).push unfinished).2.finish = .error .incomplete := by decide +kernel
  have hrefused : (Decoder.new 40).push broken
      = (.error (.unexpectedByte 29 0x78), ((Decoder.new 40).push broken).2) := by decide +kernel
  refine ⟨⟨hsize.1, hcut.1, ⟨_, htaken, hopen⟩, ?_⟩, hsize.2, hcut.2, ⟨_, hrefused⟩,
    by decide +kernel, ?_⟩
  · obtain ⟨d', hall, hfinish⟩ :=
      (pushAll_agrees_with_push 40 unfinished hsize.1 _ hcut.1).1 _ _ htaken
    exact ⟨d', hall, hfinish.trans hopen⟩
  · obtain ⟨before, hall, -⟩ := (pushAll_agrees_with_push 40 broken hsize.2 _ hcut.2).2 _ _ hrefused
    rw [hall]

end TopicRelay.Wire.Decoder
