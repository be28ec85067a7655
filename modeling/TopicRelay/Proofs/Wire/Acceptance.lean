/-
  The decoder and the reader of arrays accept the same answers.

  Both come down to the grammar of `ArrayText`:

    the decoder    `takes_iff_arrayText`, and `accepts_iff_takes`: when the array is closed nothing is
                   held, so no limit is in the way
    the reader     `document_iff_arrayText`: it also takes an element that is written as a row, so the
                   byte that each element begins with is read along with it

  One difference is left, the form feed, which separates elements for the decoder only.  It makes none
  on bodies that have form feeds only inside of elements (`arrayText_isSpace_iff`).
-/
import TopicRelay.Proofs.Wire.Framing

namespace TopicRelay

/-! ## The reader of arrays -/

namespace Json

variable {α β : Type} {item : Reader α} {sp sp' : UInt8 → Bool} {text : Bytes → α → Prop}
  {text' : Bytes → β → Prop} {s body : Bytes} {l : List α} {f : α → β}

/-- A text with an array in it. -/
theorem Reader.Confined.document_list_iff (hitem : item.Confined) :
    Reader.document (Reader.list item) body = .ok l
      ↔ ArrayText Lexeme.isSpace item.Extent body l := by
  constructor
  · intro h
    unfold Reader.document at h
    split at h
    · cases h
    · next l' r hrun =>
      split at h
      · next hblanks =>
        cases h
        simp only [Reader.list, Reader.leaf] at hrun
        split at hrun
        · cases hrun
        · next b t hopen =>
          obtain ⟨ws, hws, rfl, -⟩ := exists_blanks hopen
          split at hrun
          · next hb =>
            rw [beq_iff_eq] at hb
            subst hb
            obtain ⟨inner, rfl, hrow⟩ := hitem.items_iff.mp hrun
            rw [List.isEmpty_iff] at hblanks
            exact ⟨ws, inner, r, hws, hrow, blanks_of_skipBlanks hblanks, rfl⟩
          · cases hrun
      · cases h
  · rintro ⟨ws, inner, ws', hws, hrow, hws', rfl⟩
    have hrun : (Reader.list item).run (ws ++ Frame.array.opening :: (inner ++ Frame.array.closing :: ws'))
        = .ok (l, ws') := by
      have hopen := Blanks.skipBlanks hws (b := Frame.array.opening) (by decide)
        (inner ++ Frame.array.closing :: ws')
      simp only [Reader.list, Reader.leaf, hopen]
      exact hitem.items_iff.mpr ⟨inner, rfl, hrow⟩
    rw [Reader.document, hrun]
    simp only [Blanks.skipBlanks_eq_nil hws']
    rfl

/-- Items whose blanks are blanks in another sense, and whose texts are texts of something else. -/
theorem Items.map (h : Items sp text s l) (hsp : ∀ b, sp b = true → sp' b = true)
    (htext : ∀ w, ∀ a ∈ l, StartsValue w → text w a → text' w (f a)) : Items sp' text' s (l.map f) := by
  induction h with
  | last starts h hws =>
    exact .last starts (htext _ _ List.mem_cons_self starts h) fun b hb => hsp b (hws b hb)
  | more starts h hws hws' rest ih =>
    exact .more starts (htext _ _ List.mem_cons_self starts h) (fun b hb => hsp b (hws b hb))
      (fun b hb => hsp b (hws' b hb)) (ih fun w a ha => htext w a (List.mem_cons_of_mem _ ha))

theorem ArrayText.map (h : ArrayText sp text body l) (hsp : ∀ b, sp b = true → sp' b = true)
    (htext : ∀ w, ∀ a ∈ l, StartsValue w → text w a → text' w (f a)) :
    ArrayText sp' text' body (l.map f) := by
  obtain ⟨ws, inner, ws', hws, hrow, hws', rfl⟩ := h
  refine ⟨ws, inner, ws', fun b hb => hsp b (hws b hb), ?_, fun b hb => hsp b (hws' b hb), rfl⟩
  cases hrow with
  | empty hblanks => exact .empty fun b hb => hsp b (hblanks b hb)
  | items hblanks hitems => exact .items (fun b hb => hsp b (hblanks b hb)) (hitems.map hsp htext)

/-- A value together with the byte that it begins with. -/
def Reader.withFirst (item : Reader α) : Reader (UInt8 × α) where
  run s := match s with
    | [] => .error .unexpectedEnd
    | b :: r => match item.run (b :: r) with
      | .error e => .error e
      | .ok (a, t) => .ok ((b, a), t)
  consumes {s r a} h := by
    split at h
    · cases h
    · split at h
      · cases h
      · next x t hrun =>
        obtain ⟨-, rfl⟩ := Prod.mk.inj (Except.ok.inj h)
        exact item.consumes hrun

theorem Reader.withFirst_run (item : Reader α) (b : UInt8) (r : Bytes) :
    item.withFirst.run (b :: r) = match item.run (b :: r) with
      | .error e => .error e
      | .ok (a, t) => .ok ((b, a), t) := rfl

theorem Reader.Confined.withFirst (hitem : item.Confined) : item.withFirst.Confined := by
  intro s x r h
  cases s with
  | nil => cases h
  | cons b s =>
    rw [Reader.withFirst_run] at h
    split at h
    · cases h
    · next a t hrun =>
      cases h
      obtain ⟨w, hw, hextent⟩ := hitem _ _ _ hrun
      cases w with
      | nil => exact absurd rfl hextent.ne_nil
      | cons c w =>
        obtain ⟨rfl, rfl⟩ := List.cons.inj hw
        refine ⟨b :: w, rfl, hextent.passes, fun rest hrest => ?_⟩
        have hread := hextent.run rest hrest
        rw [List.cons_append] at hread ⊢
        rw [Reader.withFirst_run, hread]

/-- What is read with its first byte is read, and begins with that byte. -/
theorem Reader.Extent.of_withFirst {w : Bytes} {x : UInt8 × α} (h : item.withFirst.Extent w x) :
    w.head? = some x.1 ∧ item.Extent w x.2 := by
  cases w with
  | nil => exact absurd rfl h.ne_nil
  | cons b w =>
    have hboth : ∀ rest, MayFollow rest → b = x.1 ∧ item.run (b :: w ++ rest) = .ok (x.2, rest) := by
      intro rest hrest
      have hread := h.run rest hrest
      rw [List.cons_append, Reader.withFirst_run] at hread
      split at hread
      · cases hread
      · next a t hrun =>
        cases hread
        exact ⟨rfl, hrun⟩
    exact ⟨congrArg some (hboth [] MayFollow.nil).1, h.passes, fun rest hrest => (hboth rest hrest).2⟩

end Json

/-! ## Bodies without a form feed between elements -/

namespace Wire

open Json

variable {n : Nat × ScanMode} {a b ws s body : Bytes} {d limit : Nat} {es : List TopicMessages}

/-- No form feed comes outside of strings at a depth of at most one, from where the scan goes on. -/
def Clear (n : Nat × ScanMode) (bs : Bytes) : Prop :=
  ∀ front rest, bs = front ++ Ascii.formFeed :: rest →
    ∀ d ≤ 1, Partial.scanAll front n ≠ (d, .outside)

/-- **Every form feed of a body stands inside of an element**: in a string, or where at least two brackets
    are open. -/
def FormFeedsInside (body : Bytes) : Prop := Clear (0, .outside) body

theorem isPlain_of_isSeparator {c : UInt8} (h : Decoder.isSeparator c = true) :
    Passes.isPlain c = true := by
  rw [Decoder.isSeparator, Bool.or_eq_true, beq_iff_eq] at h
  rcases h with hspace | rfl
  · exact Blanks.isPlain_of_isSpace c hspace
  · decide

/-- Separators leave the scan where it is. -/
theorem scanAll_separators (hws : ∀ b ∈ ws, Decoder.isSeparator b = true) (d : Nat) :
    Partial.scanAll ws (d, .outside) = (d, .outside) :=
  (Passes.plain fun b hb => isPlain_of_isSeparator (hws b hb)).level.back d

namespace Clear

theorem left (h : Clear n (a ++ b)) : Clear n a := by
  rintro front rest rfl
  exact h front (rest ++ b) (by simp)

theorem right (h : Clear n (a ++ b)) : Clear (Partial.scanAll a n) b := by
  rintro front rest rfl d hd
  rw [← Partial.scanAll_append]
  exact h (a ++ front) rest (by simp) d hd

/-- Behind bytes that leave the scan where it is, it goes on there. -/
theorem behind (h : Clear (d, .outside) (a ++ b))
    (ha : Partial.scanAll a (d, .outside) = (d, .outside)) : Clear (d, .outside) b := ha ▸ h.right

/-- What separates is a blank then. -/
theorem blanks (h : Clear (d, .outside) ws) (hd : d ≤ 1)
    (hws : ∀ b ∈ ws, Decoder.isSeparator b = true) : Blanks ws := by
  intro b hb
  have hsep := hws b hb
  rw [Decoder.isSeparator, Bool.or_eq_true, beq_iff_eq] at hsep
  rcases hsep with hspace | rfl
  · exact hspace
  · obtain ⟨front, rest, rfl⟩ := List.append_of_mem hb
    refine absurd ?_ (h front rest rfl d hd)
    exact scanAll_separators (fun c hc => hws c (List.mem_append_left _ hc)) d

theorem items (h : Clear (1, .outside) s) (hs : Items Decoder.isSeparator ElementText s es) :
    Items Lexeme.isSpace ElementText s es := by
  induction hs with
  | last starts hw hws =>
    exact .last starts hw ((h.behind (hw.passes.level.back 1)).blanks (Nat.le_refl 1) hws)
  | @more w ws ws' s e es starts hw hws hws' rest ih =>
    have hsep := h.behind (hw.passes.level.back 1)
    have hcomma : Partial.scanAll (ws ++ [Ascii.comma]) (1, .outside) = (1, .outside) := by
      rw [Partial.scanAll_append, scanAll_separators hws]
      rfl
    rw [show ws ++ Ascii.comma :: (ws' ++ s) = (ws ++ [Ascii.comma]) ++ (ws' ++ s) by simp] at hsep
    have hbehind := hsep.behind hcomma
    exact .more starts hw (hsep.left.left.blanks (Nat.le_refl 1) hws)
      (hbehind.left.blanks (Nat.le_refl 1) hws') (ih (hbehind.behind (scanAll_separators hws' 1)))

theorem row (h : Clear (1, .outside) s) (hs : Row Decoder.isSeparator ElementText s es) :
    Row Lexeme.isSpace ElementText s es := by
  cases hs with
  | empty hws => exact .empty (h.blanks (Nat.le_refl 1) hws)
  | items hws hitems =>
    exact .items (h.left.blanks (Nat.le_refl 1) hws) ((h.behind (scanAll_separators hws 1)).items hitems)

end Clear

theorem passes_row (h : Row Decoder.isSeparator ElementText s es) : Passes .outside s .outside :=
  h.passes (fun _ => isPlain_of_isSeparator) fun _ _ hw => hw.passes

/-- Without form feeds between elements, the blanks of an answer are those of JSON. -/
theorem arrayText_isSpace_iff (h : FormFeedsInside body) :
    ArrayText Decoder.isSeparator ElementText body es ↔ ArrayText Lexeme.isSpace ElementText body es := by
  constructor
  · rintro ⟨ws, inner, ws', hws, hrow, hws', rfl⟩
    have hinner : Clear (1, .outside) (inner ++ Frame.array.closing :: ws') := by
      have hopen := Clear.right (a := ws ++ [Frame.array.opening]) (n := (0, .outside))
        (b := inner ++ Frame.array.closing :: ws') (by simpa [FormFeedsInside] using h)
      rw [Partial.scanAll_append, scanAll_separators hws] at hopen
      exact hopen
    have hend : Clear (0, .outside) ws' := by
      have hclose := Clear.right (a := inner ++ [Frame.array.closing]) (n := (1, .outside)) (b := ws')
        (by simpa using hinner)
      rw [Partial.scanAll_append, (passes_row hrow).level.back] at hclose
      exact hclose
    exact ⟨ws, inner, ws', Clear.blanks h.left (Nat.zero_le 1) hws, hinner.left.row hrow,
      hend.blanks (Nat.zero_le 1) hws', rfl⟩
  · intro harray
    have hmore : ArrayText Decoder.isSeparator ElementText body (es.map id) :=
      harray.map (fun b hb => by rw [Decoder.isSeparator, hb, Bool.true_or]) fun _ _ _ _ hw => hw
    rw [List.map_id] at hmore
    exact hmore

/-! ## What the reader reads -/

/-- **Each element at the top level of a body is written as an object**: reading the array with the byte
    that each element begins with gives opening braces only. -/
def WrittenAsObjects (body : Bytes) : Prop :=
  ∃ marked, Reader.document (Reader.list TopicMessages.reader.withFirst) body = .ok marked
    ∧ ∀ m ∈ marked, m.1 = Ascii.openBrace

theorem ElementText.extent {w : Bytes} {e : TopicMessages} (h : ElementText w e) :
    TopicMessages.reader.Extent w e := by
  obtain ⟨inner, rfl, -, hrun⟩ := id h
  exact ⟨h.passes, fun rest _ => hrun rest⟩

theorem ElementText.extent_withFirst {w : Bytes} {e : TopicMessages} (h : ElementText w e) :
    TopicMessages.reader.withFirst.Extent w (Ascii.openBrace, e) := by
  obtain ⟨inner, rfl, -, hrun⟩ := id h
  refine ⟨h.passes, fun rest _ => ?_⟩
  have hread := hrun rest
  rw [List.cons_append] at hread ⊢
  rw [Reader.withFirst_run, hread]
  rfl

/-- An element that is read and begins with a brace is written as an object. -/
theorem ElementText.of_extent {w : Bytes} {e : TopicMessages} (h : TopicMessages.reader.Extent w e)
    (hfirst : w.head? = some Ascii.openBrace) : ElementText w e := by
  obtain ⟨s, rfl⟩ := List.head?_eq_some_iff.mp hfirst
  have hrun := h.run [] MayFollow.nil
  rw [List.append_nil] at hrun
  obtain ⟨w, hw, htext⟩ := ElementText.of_run hrun
  rw [hw, List.append_nil]
  exact htext

/-- **The reader reads elements that are written as objects exactly from the texts of the grammar.** -/
theorem document_iff_arrayText :
    Reader.document (Reader.list TopicMessages.reader) body = .ok es ∧ WrittenAsObjects body
      ↔ ArrayText Lexeme.isSpace ElementText body es := by
  have hconfined := TopicMessages.confined
  constructor
  · rintro ⟨hread, marked, hmarked, hbraces⟩
    rw [hconfined.withFirst.document_list_iff] at hmarked
    have hextents : ArrayText Lexeme.isSpace TopicMessages.reader.Extent body (marked.map Prod.snd) :=
      hmarked.map (fun _ hb => hb) fun _ _ _ _ hw => hw.of_withFirst.2
    rw [hconfined.document_list_iff.mpr hextents] at hread
    cases hread
    refine hmarked.map (fun _ hb => hb) fun w m hm _ hw => ?_
    obtain ⟨hfirst, hextent⟩ := hw.of_withFirst
    rw [hbraces m hm] at hfirst
    exact ElementText.of_extent hextent hfirst
  · intro harray
    constructor
    · have hextents := harray.map (f := id) (fun _ hb => hb) fun _ _ _ _ hw => hw.extent
      rw [List.map_id] at hextents
      exact hconfined.document_list_iff.mpr hextents
    · have hmarked : ArrayText Lexeme.isSpace TopicMessages.reader.withFirst.Extent body
          (es.map fun e => (Ascii.openBrace, e)) :=
        harray.map (fun _ hb => hb) fun _ _ _ _ hw => hw.extent_withFirst
      refine ⟨_, hconfined.withFirst.document_list_iff.mpr hmarked, ?_⟩
      intro m hm
      obtain ⟨e, -, rfl⟩ := List.mem_map.mp hm
      rfl

/-! ## What the decoder accepts -/

namespace Decoder

/-- More is held at the end than an element may have. -/
theorem Takes.push_of_lt {d : Decoder} {piece : Bytes} {last : Stage} (hpending : d.pending = [])
    (h : Takes d.stage piece es last) (hsize : d.limit < last.size) :
    (d.push piece).1 = .error (.elementTooLarge d.limit) := by
  obtain ⟨released', hscan⟩ := h.scan_append d.position false [] []
  rw [List.append_nil, List.append_nil, scan] at hscan
  simp only [Decoder.push, hpending, List.nil_append, hscan, if_pos hsize]

theorem finish_eq_ok_iff {d : Decoder} : d.finish = .ok () ↔ d.stage = .closed := by
  obtain ⟨_, stage, _, _, _⟩ := d
  cases stage <;> simp [finish]

/-- A body is accepted if it leads to where the array is closed; nothing is held then, so the limit does
    not matter. -/
theorem accepts_iff_takes :
    (∃ d, (Decoder.new limit).push body = (.ok es, d) ∧ d.finish = .ok ())
      ↔ Takes .beforeArray body es .closed := by
  constructor
  · rintro ⟨d, hpush, hfinish⟩
    rcases takes_or_fails (Decoder.new limit).stage 0 body with
      ⟨es', last, htakes⟩ | ⟨good, b, rest, es', last, e, rfl, htakes, hfails⟩
    · rcases Nat.lt_or_ge limit last.size with hlarge | hfits
      · have hlost := Takes.push_of_lt (d := Decoder.new limit) rfl htakes hlarge
        rw [hpush] at hlost
        cases hlost
      · obtain ⟨d', htaken, rfl, -⟩ := htakes.push rfl hfits
        rw [htaken] at hpush
        cases hpush
        rw [finish_eq_ok_iff] at hfinish
        rw [← hfinish]
        exact htakes
    · obtain ⟨d', hfailed⟩ := htakes.push_of_fails rfl hfails rest
      rw [hfailed] at hpush
      cases hpush
  · intro h
    obtain ⟨d, hpush, hclosed, -⟩ := Takes.push (d := Decoder.new limit) rfl h (Nat.zero_le limit)
    exact ⟨d, hpush, finish_eq_ok_iff.mpr hclosed⟩

end Decoder
end Wire
end TopicRelay
