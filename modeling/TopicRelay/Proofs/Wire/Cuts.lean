/-
  However an answer is cut into pieces, its elements come out of the decoder.

  specification   the answer to some elements is one text (`answerText`), and each element has its
                  last byte at a known place in it (`elementEnd`)
  crux            `Expects`: at each stage of the decoder, what is still to come of that text, and
                  which elements that holds
  one byte        a byte that was expected is never refused, and completes the element whose last
                  byte it is (`Expects.step`)
  one piece       so a piece of what is expected gives just the elements that end in it (`Ready.push`)

  A cut can fall anywhere, also inside of an escape or between two elements; nothing here asks where
  it falls.
-/
import TopicRelay.Proofs.Wire.Brackets
import TopicRelay.Proofs.Wire.RoundTrip

namespace TopicRelay.Wire

open Json

/-! ## The text of an answer -/

/-- The text of an answer with some elements. -/
def answerText (es : List TopicMessages) : Bytes := Printer.array (es.map TopicMessages.print)

/-- The elements of an answer after another one. -/
def moreElements (es : List TopicMessages) : Bytes :=
  (es.map TopicMessages.print).flatMap (Ascii.comma :: ·)

theorem moreElements_cons (e : TopicMessages) (es : List TopicMessages) :
    moreElements (e :: es) = Ascii.comma :: (e.print ++ moreElements es) := by
  rw [moreElements, List.map_cons, List.flatMap_cons, List.cons_append]; rfl

theorem moreElements_append (a b : List TopicMessages) :
    moreElements (a ++ b) = moreElements a ++ moreElements b := by
  rw [moreElements, List.map_append, List.flatMap_append]; rfl

/-- An answer with at least one element. -/
theorem answerText_cons (e : TopicMessages) (es : List TopicMessages) :
    answerText (e :: es)
      = Ascii.openBracket :: (e.print ++ (moreElements es ++ [Ascii.closeBracket])) := by
  rw [answerText, Printer.array, List.map_cons, Printer.commaSeparated_cons, List.append_assoc]; rfl

/-- Where an element ends: the number of bytes up to and with its closing brace. -/
def elementEnd (es : List TopicMessages) (i : Nat) : Nat := (answerText (es.take (i + 1))).length - 1

/-- What comes after the end of an element: the other elements and the closing bracket. -/
theorem length_answerText {es : List TopicMessages} {i : Nat} (hi : i < es.length) :
    (answerText es).length = elementEnd es i + (moreElements (es.drop (i + 1))).length + 1 := by
  cases es with
  | nil => exact absurd hi (Nat.not_lt_zero i)
  | cons e es =>
    have hsplit : moreElements es = moreElements (es.take i) ++ moreElements (es.drop i) := by
      rw [← moreElements_append, List.take_append_drop]
    rw [elementEnd, List.take_succ_cons, List.drop_succ_cons, answerText_cons, answerText_cons, hsplit]
    simp only [List.length_cons, List.length_append, List.length_nil]
    omega

/-- The text of an element stands right before its end. -/
theorem print_suffix_take {es : List TopicMessages} {i : Nat} (hi : i < es.length) :
    es[i].print <:+ (answerText es).take (elementEnd es i) := by
  have hes : es = es.take i ++ es[i] :: es.drop (i + 1) := by
    rw [List.getElem_cons_drop hi, List.take_append_drop]
  have hend := length_answerText hi
  -- what stands before the element: the bracket alone, or all elements up to it and a comma
  obtain ⟨front, hfront⟩ : ∃ front, answerText es
      = (front ++ es[i].print) ++ (moreElements (es.drop (i + 1)) ++ [Ascii.closeBracket]) := by
    cases i with
    | zero =>
      refine ⟨[Ascii.openBracket], ?_⟩
      conv => lhs; rw [hes, List.take_zero, List.nil_append, answerText_cons]
      rw [List.singleton_append, List.cons_append]
    | succ i =>
      obtain ⟨e, l, rfl⟩ := List.exists_cons_of_ne_nil (List.ne_nil_of_length_pos (Nat.zero_lt_of_lt hi))
      refine ⟨Ascii.openBracket :: (e.print ++ (moreElements (l.take i) ++ [Ascii.comma])), ?_⟩
      rw [List.take_succ_cons, List.cons_append] at hes
      conv => lhs; rw [hes, answerText_cons, moreElements_append, moreElements_cons]
      simp only [List.cons_append, List.append_assoc, List.nil_append]
  refine ⟨front, ?_⟩
  rw [hfront, List.take_left']
  rw [hfront] at hend
  simp only [List.length_append, List.length_cons, List.length_nil] at hend ⊢
  omega

/-- No element is longer than the whole text. -/
theorem length_print_le {es : List TopicMessages} {e : TopicMessages} (h : e ∈ es) :
    e.print.length ≤ (answerText es).length := by
  obtain ⟨i, hi, rfl⟩ := List.getElem_of_mem h
  exact Nat.le_trans (print_suffix_take hi).length_le (List.length_take_le' _ _)

namespace Decoder

/-! ## What is still to come -/

/-- At a stage, after the elements `done` were given back, the elements `todo` and the bytes `left`
    are still to come. -/
inductive Expects : List TopicMessages → Stage → List TopicMessages → Bytes → Prop where
  | array (todo : List TopicMessages) : Expects [] .beforeArray todo (answerText todo)
  | first (todo : List TopicMessages) : Expects [] .beforeFirst todo
      (Printer.commaSeparated (todo.map TopicMessages.print) ++ [Ascii.closeBracket])
  | element (done : List TopicMessages) (e : TopicMessages) (todo : List TopicMessages) :
      Expects done .beforeElement (e :: todo)
        (e.print ++ (moreElements todo ++ [Ascii.closeBracket]))
  | inside (done : List TopicMessages) {e : TopicMessages} (todo : List TopicMessages)
      {bs tail : Bytes} (hprint : e.print = Ascii.openBrace :: (bs ++ tail)) (hne : tail ≠ []) :
      Expects done (.inElement (.after bs)) (e :: todo)
        (tail ++ (moreElements todo ++ [Ascii.closeBracket]))
  | after (done todo : List TopicMessages) :
      Expects done .afterElement todo (moreElements todo ++ [Ascii.closeBracket])
  | closed (done : List TopicMessages) : Expects done .closed [] []

namespace Expects

variable {done todo : List TopicMessages} {stage : Stage} {left : Bytes}

/-- The opening brace of an element, wherever one may begin. -/
theorem enter {e : TopicMessages} {b : UInt8} {stage : Stage}
    (hstage : effect stage Ascii.openBrace = .to (.inElement .start))
    (hs : b :: left = e.print ++ (moreElements todo ++ [Ascii.closeBracket])) :
    ∃ stage', effect stage b = .to stage' ∧ Expects done stage' (e :: todo) left := by
  obtain ⟨inner, hprint, -⟩ := Partial.exists_level e
  rw [hprint, List.cons_append] at hs
  obtain ⟨rfl, rfl⟩ := List.cons.inj hs
  exact ⟨.inElement (.after []), hstage,
    inside done todo hprint (List.append_ne_nil_of_right_ne_nil _ (List.cons_ne_nil _ _))⟩

/-- **One byte.**  It is not refused; it completes an element if it is the last byte of the next one,
    and then that element is what was written. -/
theorem step {b : UInt8} (h : Expects done stage todo (b :: left)) :
    (∃ stage', effect stage b = .to stage' ∧ Expects done stage' todo left)
      ∨ (∃ p e todo', todo = e :: todo' ∧ effect stage b = .element p ∧ p.bytes = e.print
          ∧ Expects (done ++ [e]) .afterElement todo' left) := by
  generalize hs : b :: left = s at h
  cases h with
  | array todo =>
    obtain ⟨rfl, rfl⟩ := List.cons.inj hs
    exact Or.inl ⟨.beforeFirst, rfl, first todo⟩
  | first todo =>
    cases todo with
    | nil =>
      obtain ⟨rfl, rfl⟩ := List.cons.inj hs
      exact Or.inl ⟨.closed, rfl, closed []⟩
    | cons e todo =>
      rw [List.map_cons, Printer.commaSeparated_cons, List.append_assoc] at hs
      exact Or.inl (enter rfl hs)
  | element done e todo => exact Or.inl (enter rfl hs)
  | @inside done e todo bs tail hprint hne =>
    obtain ⟨c, tail, rfl⟩ := List.exists_cons_of_ne_nil hne
    rw [List.cons_append] at hs
    obtain ⟨rfl, rfl⟩ := List.cons.inj hs
    have hcomplete := Partial.isComplete_iff hprint
    have heffect : effect (.inElement (.after bs)) b
        = if (Partial.after (bs ++ [b])).isComplete then .element (.after (bs ++ [b]))
          else .to (.inElement (.after (bs ++ [b]))) := by
      rw [← Partial.after_concat]; rfl
    -- only the last byte of the element completes it (`isComplete_iff`)
    by_cases htail : tail = []
    · subst htail
      right
      refine ⟨.after (bs ++ [b]), e, todo, rfl, ?_, ?_, after (done ++ [e]) todo⟩
      · rw [heffect, if_pos (hcomplete.mpr rfl)]
      · rw [Partial.bytes_after, hprint]
    · left
      refine ⟨.inElement (.after (bs ++ [b])), ?_, inside done todo ?_ htail⟩
      · rw [heffect, if_neg fun hc => htail (hcomplete.mp hc)]
      · rw [hprint, List.append_assoc, List.singleton_append]
  | after done todo =>
    cases todo with
    | nil =>
      obtain ⟨rfl, rfl⟩ := List.cons.inj hs
      exact Or.inl ⟨.closed, rfl, closed done⟩
    | cons e todo =>
      rw [moreElements_cons, List.cons_append, List.append_assoc] at hs
      obtain ⟨rfl, rfl⟩ := List.cons.inj hs
      exact Or.inl ⟨.beforeElement, rfl, element done e todo⟩
  | closed done => cases hs

/-- No more is kept than the text of one element. -/
theorem size_le {limit : Nat} (h : Expects done stage todo left)
    (hsize : ∀ e ∈ todo, e.print.length ≤ limit) : stage.size ≤ limit := by
  cases h with
  | @inside done e todo bs tail hprint hne =>
    have he := hsize e List.mem_cons_self
    rw [hprint, List.length_cons, List.length_append] at he
    show (Partial.after bs).size ≤ limit
    rw [Partial.size_after]
    omega
  | _ => exact Nat.zero_le limit

theorem nil_iff (h : Expects done stage todo []) : stage = .closed ∧ todo = [] := by
  generalize hs : ([] : Bytes) = s at h
  cases h with
  | closed done => exact ⟨rfl, rfl⟩
  | array todo => cases hs
  | first todo => exact absurd hs.symm (List.append_ne_nil_of_right_ne_nil _ (List.cons_ne_nil _ _))
  | inside done todo hprint hne =>
    exact absurd (List.append_eq_nil_iff.mp hs.symm).1 hne
  | element done e todo =>
    have h := (List.append_eq_nil_iff.mp (List.append_eq_nil_iff.mp hs.symm).2).2
    exact absurd h (List.cons_ne_nil _ _)
  | after done todo => exact absurd hs.symm (List.append_ne_nil_of_right_ne_nil _ (List.cons_ne_nil _ _))

/-! ## Places -/

theorem length_print_pos (e : TopicMessages) : 0 < e.print.length := Nat.succ_pos _

/-- What is left holds the ends of the elements that are to come, and of no others. -/
theorem length_left (h : Expects done stage todo left) :
    (done ≠ [] → left.length ≤ (moreElements todo).length + 1)
      ∧ (todo ≠ [] → (moreElements todo.tail).length + 1 < left.length) := by
  cases h with
  | array todo =>
    refine ⟨fun hc => absurd rfl hc, fun hne => ?_⟩
    obtain ⟨e, todo, rfl⟩ := List.exists_cons_of_ne_nil hne
    have := length_print_pos e
    rw [answerText_cons, List.tail_cons]
    simp only [List.length_cons, List.length_append, List.length_nil]
    omega
  | first todo =>
    refine ⟨fun hc => absurd rfl hc, fun hne => ?_⟩
    obtain ⟨e, todo, rfl⟩ := List.exists_cons_of_ne_nil hne
    have hpos := length_print_pos e
    rw [List.map_cons, Printer.commaSeparated_cons, List.tail_cons]
    show _ < ((e.print ++ moreElements todo) ++ [Ascii.closeBracket]).length
    simp only [List.length_cons, List.length_append, List.length_nil]
    omega
  | element done e todo =>
    have hpos := length_print_pos e
    rw [moreElements_cons, List.tail_cons]
    simp only [List.length_cons, List.length_append, List.length_nil]
    omega
  | @inside done e todo bs tail hprint hne =>
    have hlen : e.print.length = bs.length + tail.length + 1 := by
      rw [hprint, List.length_cons, List.length_append]
    have hpos := List.length_pos_iff.mpr hne
    rw [moreElements_cons, List.tail_cons]
    simp only [List.length_cons, List.length_append, List.length_nil]
    omega
  | after done todo =>
    refine ⟨fun _ => ?_, fun hne => ?_⟩
    · simp
    · obtain ⟨e, todo, rfl⟩ := List.exists_cons_of_ne_nil hne
      have hpos := length_print_pos e
      rw [moreElements_cons, List.tail_cons]
      simp only [List.length_cons, List.length_append, List.length_nil]
      omega
  | closed done => exact ⟨fun _ => Nat.zero_le _, fun hne => absurd rfl hne⟩

/-- The elements that are done are those whose end has been seen. -/
theorem elementEnd_le_iff (h : Expects done stage todo left) {n : Nat}
    (hn : n + left.length = (answerText (done ++ todo)).length) {i : Nat}
    (hi : i < (done ++ todo).length) : elementEnd (done ++ todo) i ≤ n ↔ i < done.length := by
  have hend := length_answerText hi
  obtain ⟨hdone, htodo⟩ := h.length_left
  by_cases hlt : i < done.length
  · have hdrop : (done ++ todo).drop (i + 1) = done.drop (i + 1) ++ todo :=
      List.drop_append_of_le_length hlt
    have hmore := hdone (List.ne_nil_of_length_pos (Nat.zero_lt_of_lt hlt))
    rw [hdrop, moreElements_append, List.length_append] at hend
    omega
  · obtain ⟨j, rfl⟩ := Nat.exists_eq_add_of_le (Nat.le_of_not_lt hlt)
    have hne : todo ≠ [] := by
      rintro rfl
      rw [List.append_nil] at hi
      exact hlt hi
    have hdrop : (done ++ todo).drop (done.length + j + 1) = todo.tail.drop j := by
      rw [Nat.add_assoc, List.drop_append, List.drop_eq_nil_of_le (by omega), List.nil_append,
        List.drop_tail]
      congr 1
      omega
    have hmore : (moreElements (todo.tail.drop j)).length ≤ (moreElements todo.tail).length := by
      conv => rhs; rw [← List.take_append_drop j todo.tail]
      rw [moreElements_append, List.length_append]
      exact Nat.le_add_left _ _
    have := htodo hne
    rw [hdrop] at hend
    omega

end Expects

/-! ## One piece -/

/-- The scan of a piece of what is expected completes some elements, and goes on to expect the rest. -/
theorem scan_expects {done todo : List TopicMessages} {stage : Stage} {piece left : Bytes}
    (h : Expects done stage todo (piece ++ left)) (position : Nat) (released : Bool)
    (seen : List TopicMessages) :
    ∃ new todo' stage' released', todo = new ++ todo' ∧ Expects (done ++ new) stage' todo' left
      ∧ scan stage position released seen piece
        = ⟨.ok (new.reverse ++ seen), stage', position + piece.length, [], released'⟩ := by
  -- a byte may end an element, so both lists change along the piece
  induction piece generalizing done todo stage position released seen with
  | nil =>
    refine ⟨[], todo, stage, released, rfl, ?_, rfl⟩
    rw [List.append_nil]
    exact h
  | cons b piece ih =>
    have hlength : position + (b :: piece).length = position + 1 + piece.length := by
      rw [List.length_cons, Nat.add_assoc, Nat.add_comm 1]
    rcases h.step with ⟨stage', heffect, h'⟩ | ⟨p, e, todo', rfl, heffect, hbytes, h'⟩
    · -- a byte inside of an element releases nothing, any other does
      obtain ⟨kept, hkept⟩ : ∃ kept, scan stage position released seen (b :: piece)
          = scan stage' (position + 1) kept seen piece := by
        rw [scan, heffect]
        cases stage' with
        | inElement p => exact ⟨released, rfl⟩
        | _ => exact ⟨true, rfl⟩
      rw [hkept, hlength]
      exact ih h' (position + 1) kept seen
    · obtain ⟨new, todo'', stage', released', rfl, hexpects, hscan⟩ :=
        ih h' (position + 1) true (e :: seen)
      refine ⟨e :: new, todo'', stage', released', rfl, ?_, ?_⟩
      · rw [List.append_assoc, List.singleton_append] at hexpects
        exact hexpects
      · rw [scan, heffect]
        simp only [hbytes, document_element e]
        rw [hscan, hlength, List.reverse_cons, List.append_assoc, List.singleton_append]

/-- A decoder that has given back the elements `done`, and for which the elements `todo` and the bytes
    `left` are still to come. -/
structure Ready (d : Decoder) (done todo : List TopicMessages) (left : Bytes) : Prop where
  pending : d.pending = []
  spent : d.spent = 0
  expects : Expects done d.stage todo left
  fits : ∀ e ∈ todo, e.print.length ≤ d.limit

namespace Ready

variable {d : Decoder} {done todo : List TopicMessages}

theorem new {limit : Nat} {es : List TopicMessages} (hsize : ∀ e ∈ es, e.print.length ≤ limit) :
    Ready (Decoder.new limit) [] es (answerText es) :=
  ⟨rfl, rfl, Expects.array es, hsize⟩

/-- **One piece.**  It gives back the elements that it completes. -/
theorem push {piece left : Bytes} (h : Ready d done todo (piece ++ left)) :
    ∃ new todo' d', todo = new ++ todo' ∧ d.push piece = (.ok new, d') ∧ d'.limit = d.limit
      ∧ Ready d' (done ++ new) todo' left := by
  obtain ⟨new, todo', stage', released', rfl, hexpects, hscan⟩ :=
    scan_expects h.expects d.position false []
  have hfits : ∀ e ∈ todo', e.print.length ≤ d.limit :=
    fun e he => h.fits e (List.mem_append_right new he)
  have hsize : ¬ d.limit < stage'.size := Nat.not_lt.mpr (hexpects.size_le hfits)
  have hspent : (if released' then 0 else d.spent) = 0 := by
    rw [h.spent, ite_self]
  refine ⟨new, todo', ⟨d.limit, stage', d.position + piece.length, [], 0⟩, rfl, ?_, rfl,
    ⟨rfl, rfl, hexpects, hfits⟩⟩
  simp only [Decoder.push, h.pending, List.nil_append, hscan, if_neg hsize, List.append_nil,
    List.reverse_reverse, hspent]

/-- **Any number of pieces.** -/
theorem pushAll {pieces : List Bytes} {left : Bytes}
    (h : Ready d done todo (pieces.flatten ++ left)) :
    ∃ new todo' d', todo = new ++ todo' ∧ d.pushAll pieces = (new, .ok d')
      ∧ Ready d' (done ++ new) todo' left := by
  induction pieces generalizing d done todo with
  | nil =>
    refine ⟨[], todo, d, rfl, rfl, ?_⟩
    rw [List.append_nil]
    exact h
  | cons piece pieces ih =>
    rw [List.flatten_cons, List.append_assoc] at h
    obtain ⟨new, todo', d', rfl, hpush, -, hready⟩ := h.push
    obtain ⟨more, todo'', d'', rfl, hall, hready'⟩ := ih hready
    refine ⟨new ++ more, todo'', d'', (List.append_assoc _ _ _).symm, ?_, ?_⟩
    · rw [Decoder.pushAll, hpush]
      simp only [hall]
    · rw [← List.append_assoc]
      exact hready'

/-- When nothing is left, the decoder holds nothing and agrees that the answer is whole. -/
theorem finish (h : Ready d done todo []) :
    todo = [] ∧ d.finish = .ok () ∧ d.buffered = 0 := by
  obtain ⟨hstage, htodo⟩ := h.expects.nil_iff
  refine ⟨htodo, ?_, ?_⟩
  · rw [Decoder.finish, hstage]
  · rw [buffered, h.spent, h.pending, hstage]; rfl

end Ready

/-! ## The round trip -/

/-- The elements of an answer that end after its first `a` bytes and within its first `b`. -/
def endingBetween (es : List TopicMessages) (a b : Nat) : List TopicMessages :=
  (es.zipIdx.filter fun x => a < elementEnd es x.2 ∧ elementEnd es x.2 ≤ b).map Prod.fst

/-- The elements between two that the decoder has got to are those that end between them. -/
theorem endingBetween_eq (done new todo : List TopicMessages) {a b : Nat}
    (ha : ∀ i < (done ++ new ++ todo).length,
      elementEnd (done ++ new ++ todo) i ≤ a ↔ i < done.length)
    (hb : ∀ i < (done ++ new ++ todo).length,
      elementEnd (done ++ new ++ todo) i ≤ b ↔ i < (done ++ new).length) :
    endingBetween (done ++ new ++ todo) a b = new := by
  rw [endingBetween]
  generalize hes : done ++ new ++ todo = es at ha hb ⊢
  have hlen : es.length = done.length + new.length + todo.length := by
    rw [← hes, List.length_append, List.length_append]
  rw [List.length_append] at hb
  have hzip : es.zipIdx = done.zipIdx ++ new.zipIdx (0 + done.length)
      ++ todo.zipIdx (0 + (done ++ new).length) := by
    rw [← hes, List.zipIdx_append, List.zipIdx_append]
  have hbefore : (done.zipIdx.filter fun x => a < elementEnd es x.2 ∧ elementEnd es x.2 ≤ b) = [] := by
    refine List.filter_eq_nil_iff.mpr fun x hx => ?_
    have hi := List.snd_lt_of_mem_zipIdx hx
    have := (ha x.2 (by omega)).mpr hi
    simp only [decide_eq_true_eq]
    omega
  have hwithin : ((new.zipIdx (0 + done.length)).filter fun x =>
      a < elementEnd es x.2 ∧ elementEnd es x.2 ≤ b) = new.zipIdx (0 + done.length) := by
    refine List.filter_eq_self.mpr fun x hx => ?_
    have hi := List.snd_lt_add_of_mem_zipIdx hx
    have hge := List.le_snd_of_mem_zipIdx hx
    have hnot := mt (ha x.2 (by omega)).mp (by omega)
    have hle := (hb x.2 (by omega)).mpr (by omega)
    simp only [decide_eq_true_eq]
    omega
  have hbehind : ((todo.zipIdx (0 + (done ++ new).length)).filter fun x =>
      a < elementEnd es x.2 ∧ elementEnd es x.2 ≤ b) = [] := by
    refine List.filter_eq_nil_iff.mpr fun x hx => ?_
    have hi := List.snd_lt_add_of_mem_zipIdx hx
    have hge := List.le_snd_of_mem_zipIdx hx
    rw [List.length_append] at hi hge
    have := mt (hb x.2 (by omega)).mp (by omega)
    simp only [decide_eq_true_eq]
    omega
  rw [hzip, List.filter_append, List.filter_append, hbefore, hwithin, hbehind, List.nil_append,
    List.append_nil, List.zipIdx_map_fst]

/-- All pieces together give all elements. -/
theorem pushAll_answerText {limit : Nat} {es : List TopicMessages}
    (hsize : ∀ e ∈ es, e.print.length ≤ limit) {pieces : List Bytes}
    (hcut : pieces.flatten = answerText es) :
    ∃ d, (Decoder.new limit).pushAll pieces = (es, .ok d) ∧ d.finish = .ok () ∧ d.buffered = 0 := by
  have hstart := Ready.new hsize
  rw [← hcut, ← List.append_nil pieces.flatten] at hstart
  obtain ⟨new, todo, d, rfl, hall, hready⟩ := hstart.pushAll
  obtain ⟨rfl, hfinish, hbuffered⟩ := hready.finish
  refine ⟨d, ?_, hfinish, hbuffered⟩
  rw [List.append_nil]
  exact hall

/-- The pieces of a front part give the elements that end in it, and the decoder waits for the rest. -/
theorem pushAll_front {limit : Nat} {es : List TopicMessages}
    (hsize : ∀ e ∈ es, e.print.length ≤ limit) {front rest : Bytes}
    (htext : answerText es = front ++ rest) (hne : rest ≠ []) {pieces : List Bytes}
    (hcut : pieces.flatten = front) :
    ∃ d, (Decoder.new limit).pushAll pieces = (endingBetween es 0 front.length, .ok d)
      ∧ d.finish = .error .incomplete := by
  have hstart := Ready.new hsize
  have hlength := congrArg List.length htext
  rw [htext, ← hcut] at hstart
  obtain ⟨done, todo, d, rfl, hall, hready⟩ := hstart.pushAll
  rw [List.length_append] at hlength
  refine ⟨d, ?_, ?_⟩
  · rw [hall, ← List.nil_append (done ++ todo), ← List.append_assoc]
    refine congrArg (·, Except.ok d) (endingBetween_eq [] done todo (fun i hi => ?_) fun i hi => ?_).symm
    · exact (Expects.array (done ++ todo)).elementEnd_le_iff (Nat.zero_add _) hi
    · exact hready.expects.elementEnd_le_iff hlength.symm hi
  · -- nothing is left only of an array that is closed
    have hopen : d.stage ≠ .closed := by
      rintro hc
      have hexpects := hready.expects
      rw [hc] at hexpects
      generalize hs : rest = s at hexpects
      cases hexpects
      exact hne hs
    rw [Decoder.finish]
    cases hstage : d.stage with
    | closed => exact absurd hstage hopen
    | _ => rfl

/-- Answers with the same text have the same elements. -/
theorem answerText_injective {es es' : List TopicMessages} (h : answerText es = answerText es') :
    es = es' := by
  have hcut : [answerText es].flatten = answerText es := List.flatten_singleton
  obtain ⟨d, hd, -⟩ := pushAll_answerText (fun e he => length_print_le he) hcut
  obtain ⟨d', hd', -⟩ := pushAll_answerText (fun e he => length_print_le he) (hcut.trans h)
  rw [← h, hd] at hd'
  exact (Prod.mk.inj hd').1

/-- **Every cut gives the elements back.**  The text of an answer, cut into any pieces, is taken in
    without a failure; each piece gives back the elements whose closing brace is in it, all together
    they are what was written, and at the end nothing is held back. -/
theorem pushAll_of_cut (limit : Nat) (es : List TopicMessages)
    (hsize : ∀ e ∈ es, e.print.length ≤ limit) (pieces : List Bytes)
    (hcut : pieces.flatten = answerText es) :
    (∀ before piece behind, pieces = before ++ piece :: behind →
      ∃ d d', (Decoder.new limit).pushAll before = (endingBetween es 0 before.flatten.length, .ok d)
        ∧ d.push piece = (.ok (endingBetween es before.flatten.length
            (before.flatten.length + piece.length)), d'))
    ∧ ∃ d, (Decoder.new limit).pushAll pieces = (es, .ok d) ∧ d.finish = .ok () ∧ d.buffered = 0 := by
  refine ⟨?_, pushAll_answerText hsize hcut⟩
  rintro before piece behind rfl
  rw [List.flatten_append, List.flatten_cons] at hcut
  have hstart := Ready.new hsize
  have hlength := congrArg List.length hcut
  rw [← hcut] at hstart
  obtain ⟨done, rest, d, rfl, hbefore, hready⟩ := hstart.pushAll
  obtain ⟨new, todo, d', rfl, hpush, -, hready'⟩ := hready.push
  rw [List.nil_append] at hready hready'
  simp only [List.length_append] at hlength
  -- the three places that count: the start, the end of `before`, the end of `piece`
  have hnone : ∀ i < (done ++ (new ++ todo)).length,
      elementEnd (done ++ (new ++ todo)) i ≤ 0 ↔ i < ([] : List TopicMessages).length :=
    fun i hi => (Expects.array (done ++ (new ++ todo))).elementEnd_le_iff (Nat.zero_add _) hi
  have hdone : ∀ i < (done ++ (new ++ todo)).length,
      elementEnd (done ++ (new ++ todo)) i ≤ before.flatten.length ↔ i < done.length :=
    fun i hi => hready.expects.elementEnd_le_iff (by rw [List.length_append]; omega) hi
  have hnew : ∀ i < (done ++ new ++ todo).length,
      elementEnd (done ++ new ++ todo) i ≤ before.flatten.length + piece.length
        ↔ i < (done ++ new).length :=
    fun i hi => hready'.expects.elementEnd_le_iff (by rw [List.append_assoc]; omega) hi
  refine ⟨d, d', ?_, ?_⟩
  · rw [hbefore]
    have h := endingBetween_eq [] done (new ++ todo) hnone hdone
    rw [List.nil_append] at h
    rw [h]
  · rw [hpush]
    rw [← List.append_assoc] at hdone ⊢
    rw [endingBetween_eq done new todo hdone hnew]

/-- Two elements whose texts are full of what the scan looks for. -/
def quotesAndBrackets : List TopicMessages :=
  [⟨"a\"]\x7d", [⟨"1\\", [0xFF, 0x00]⟩, ⟨"[\n", []⟩], none⟩, ⟨"ü", [], some ⟨65535, "\x7b\"[\\"⟩⟩]

/-- One byte at a time, with nothing in the first piece. -/
theorem pushAll_byte_by_byte :
    (∀ e ∈ quotesAndBrackets, e.print.length ≤ 100)
    ∧ ([] :: (answerText quotesAndBrackets).map ([·])).flatten = answerText quotesAndBrackets
    ∧ ∃ d, (Decoder.new 100).pushAll ([] :: (answerText quotesAndBrackets).map ([·]))
          = (quotesAndBrackets, .ok d) ∧ d.finish = .ok () ∧ d.buffered = 0 := by
  have hsize : ∀ e ∈ quotesAndBrackets, e.print.length ≤ 100 := by decide +kernel
  have hcut : ([] :: (answerText quotesAndBrackets).map ([·])).flatten
      = answerText quotesAndBrackets := by decide +kernel
  exact ⟨hsize, hcut, (pushAll_of_cut 100 quotesAndBrackets hsize _ hcut).2⟩

end Decoder
end TopicRelay.Wire
