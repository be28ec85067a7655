/-
  How far a value reaches.

  A reader is confined if it looks at nothing behind what it reads: the text that it used up passes,
  and is read in the same way before anything that may follow a value.  Single values are confined
  because lexemes are, and what is put together from confined readers is confined; so a record is if
  its fields are (`Layout.Confined.reader`).

  Of arrays more is said: what stands between the brackets is a list of items, with commas in between
  (`Reader.Confined.items_iff`).
-/
import TopicRelay.Proofs.Json.Composite
import TopicRelay.Proofs.Json.Skips

namespace TopicRelay.Json

open Wire (Passes)

variable {α β ρ : Type} {s r t w ws sep : Bytes} {b : UInt8}

/-! ## Readers -/

/-- The reader reads `a` from these bytes, whatever comes after them that may follow a value. -/
structure Reader.Extent (item : Reader α) (w : Bytes) (a : α) : Prop where
  passes : Passes .outside w .outside
  run : ∀ rest, MayFollow rest → item.run (w ++ rest) = .ok (a, rest)

/-- A reader that looks at nothing behind what it reads. -/
def Reader.Confined (item : Reader α) : Prop :=
  ∀ s a r, item.run s = .ok (a, r) → ∃ w, s = w ++ r ∧ item.Extent w a

theorem Reader.Extent.ne_nil {item : Reader α} {a : α} (h : item.Extent w a) : w ≠ [] := by
  rintro rfl
  exact absurd (item.consumes (h.run [] MayFollow.nil)) (Nat.lt_irrefl 0)

namespace Reader.Confined

theorem map {item : Reader α} (h : item.Confined) (f : α → β) : (item.map f).Confined := by
  intro s b r hrun
  simp only [Reader.map] at hrun
  split at hrun
  · cases hrun
  · next a t hitem =>
    cases hrun
    obtain ⟨w, rfl, hw⟩ := h _ _ _ hitem
    refine ⟨w, rfl, hw.passes, fun rest hrest => ?_⟩
    simp only [Reader.map, hw.run rest hrest]

theorem check {item : Reader α} (h : item.Confined) (f : α → Except ReadError β) :
    (item.check f).Confined := by
  intro s b r hrun
  simp only [Reader.check] at hrun
  split at hrun
  · cases hrun
  · next a t hitem =>
    obtain ⟨w, rfl, hw⟩ := h _ _ _ hitem
    split at hrun
    · cases hrun
    · next c hf =>
      cases hrun
      refine ⟨w, rfl, hw.passes, fun rest hrest => ?_⟩
      simp only [Reader.check, hw.run rest hrest, hf]

/-- A reader of values that are told by their first byte, if from there on it looks no further. -/
theorem leaf {item : Reader α} {expected : String} {starts : UInt8 → Bool}
    {read : UInt8 → Bytes → Step α}
    (hitem : ∀ s, item.run s = match Lexeme.skipBlanks s with
      | [] => .error .unexpectedEnd
      | b :: r => if starts b then read b r else .error (mismatch expected (b :: r)))
    (h : ∀ {b : UInt8} {r t : Bytes} {a : α}, starts b = true → read b r = .ok (a, t) →
      ∃ w, r = w ++ t ∧ Passes .outside (b :: w) .outside
        ∧ ∀ rest, MayFollow rest → read b (w ++ rest) = .ok (a, rest)) : item.Confined := by
  intro s a r hrun
  rw [hitem] at hrun
  split at hrun
  · cases hrun
  · next b t hblanks =>
    obtain ⟨ws, hws, rfl, hb⟩ := exists_blanks hblanks
    split at hrun
    · next hstarts =>
      obtain ⟨w, rfl, hw, hread⟩ := h hstarts hrun
      refine ⟨ws ++ b :: w, ?_, hws.passes.append hw, fun rest hrest => ?_⟩
      · rw [List.append_assoc, List.cons_append]
      · rw [List.append_assoc, List.cons_append, hitem, hws.skipBlanks hb]
        simp only [if_pos hstarts, hread rest hrest]
    · cases hrun

theorem text : Reader.text.Confined := by
  refine leaf (fun _ => rfl) fun {b r t a} hquote hread => ?_
  obtain ⟨w, rfl, hw, hrun⟩ := Lexeme.text_extent hread
  rw [beq_iff_eq] at hquote
  subst hquote
  exact ⟨w, rfl, Passes.string hw, fun rest _ => hrun rest⟩

theorem natural (expected : String) (bound : Nat) : (Reader.natural expected bound).Confined := by
  refine leaf (fun _ => rfl) fun {b r t a} _ hread => ?_
  split at hread
  · cases hread
  · next n u hnumber =>
    split at hread
    · next hbound =>
      cases hread
      obtain ⟨w, rfl, hplain, hrun⟩ :=
        (Lexeme.number_extent hnumber).of_cons (Lexeme.length_number hnumber)
      refine ⟨w, rfl, Passes.plain hplain, fun rest hrest => ?_⟩
      simp only [hrun rest hrest.stopsNumber, if_pos hbound]
    · cases hread
  · cases hread
  · cases hread

theorem word16 : Reader.word16.Confined := (natural _ _).map _

theorem payload : Reader.payload.Confined := text.check _

theorem nullable {item : Reader α} (h : item.Confined) : (Reader.nullable item).Confined := by
  intro s a r hrun
  simp only [Reader.nullable] at hrun
  split at hrun
  · cases hrun
  · next b t hblanks =>
    obtain ⟨ws, hws, rfl, hb⟩ := exists_blanks hblanks
    split at hrun
    · next hnull =>
      subst hnull
      split at hrun
      · cases hrun
      · next u hword =>
        cases hrun
        rw [Lexeme.eq_of_expectWord hword]
        refine ⟨ws ++ 0x6E :: Ascii.bytes "ull", by simp, hws.passes.append (plain_word (by decide)),
          fun rest hrest => ?_⟩
        rw [List.append_assoc, List.cons_append]
        simp only [Reader.nullable, hws.skipBlanks hb, Lexeme.expectWord_append, if_true]
    · next hnull =>
      split at hrun
      · cases hrun
      · next x u hitem =>
        cases hrun
        obtain ⟨w, hw, hextent⟩ := h _ _ _ hitem
        cases w with
        | nil => exact absurd rfl hextent.ne_nil
        | cons c w =>
          obtain ⟨rfl, rfl⟩ := List.cons.inj hw
          refine ⟨ws ++ b :: w, by simp, hws.passes.append hextent.passes, fun rest hrest => ?_⟩
          have hread := hextent.run rest hrest
          rw [List.cons_append] at hread
          rw [List.append_assoc, List.cons_append]
          simp only [Reader.nullable, hws.skipBlanks hb, if_neg hnull, hread]

end Reader.Confined

/-! ## Arrays -/

/-- The items of an array, from the first byte of the first to the last byte in front of the closing
    bracket.  `sp` says which bytes are blanks, and `text w a` that `w` is the text of an item `a`. -/
inductive Items (sp : UInt8 → Bool) (text : Bytes → α → Prop) : Bytes → List α → Prop where
  | last {w ws : Bytes} {a : α} (starts : StartsValue w) (h : text w a) (hws : ∀ b ∈ ws, sp b = true) :
      Items sp text (w ++ ws) [a]
  | more {w ws ws' s : Bytes} {a : α} {l : List α} (starts : StartsValue w) (h : text w a)
      (hws : ∀ b ∈ ws, sp b = true) (hws' : ∀ b ∈ ws', sp b = true) (rest : Items sp text s l) :
      Items sp text (w ++ (ws ++ Ascii.comma :: (ws' ++ s))) (a :: l)

/-- What stands between the brackets of an array. -/
inductive Row (sp : UInt8 → Bool) (text : Bytes → α → Prop) : Bytes → List α → Prop where
  | empty {ws : Bytes} (hws : ∀ b ∈ ws, sp b = true) : Row sp text ws []
  | items {ws s : Bytes} {l : List α} (hws : ∀ b ∈ ws, sp b = true) (h : Items sp text s l) :
      Row sp text (ws ++ s) l

/-- A text with an array in it and nothing else but blanks. -/
def ArrayText (sp : UInt8 → Bool) (text : Bytes → α → Prop) (body : Bytes) (l : List α) : Prop :=
  ∃ ws inner ws', (∀ b ∈ ws, sp b = true) ∧ Row sp text inner l ∧ (∀ b ∈ ws', sp b = true)
    ∧ body = ws ++ Frame.array.opening :: (inner ++ Frame.array.closing :: ws')

variable {sp : UInt8 → Bool} {text : Bytes → α → Prop} {item : Reader α} {l : List α}

theorem Items.startsValue (h : Items sp text s l) : StartsValue s := by
  cases h with
  | last starts => exact starts.append _
  | more starts => exact starts.append _

theorem Items.passes (hsp : ∀ b, sp b = true → Wire.Passes.isPlain b = true)
    (htext : ∀ w a, text w a → Passes .outside w .outside) (h : Items sp text s l) :
    Passes .outside s .outside := by
  have hblanks : ∀ {ws : Bytes}, (∀ b ∈ ws, sp b = true) → Passes .outside ws .outside :=
    fun hws => Passes.plain fun b hb => hsp b (hws b hb)
  induction h with
  | last starts h hws => exact (htext _ _ h).append (hblanks hws)
  | more starts h hws hws' rest ih =>
    exact (htext _ _ h).append
      ((hblanks hws).append (Passes.cons (fun _ => rfl) ((hblanks hws').append ih)))

theorem Row.passes (hsp : ∀ b, sp b = true → Wire.Passes.isPlain b = true)
    (htext : ∀ w a, text w a → Passes .outside w .outside) (h : Row sp text s l) :
    Passes .outside s .outside := by
  cases h with
  | empty hws => exact Passes.plain fun b hb => hsp b (hws b hb)
  | items hws h => exact (Passes.plain fun b hb => hsp b (hws b hb)).append (h.passes hsp htext)

/-- Items are read one by one, up to the bracket. -/
theorem Items.itemsFrom (h : Items Lexeme.isSpace item.Extent s l) (seen : List α) (rest : Bytes) :
    Reader.itemsFrom item seen (s ++ Frame.array.closing :: rest) = .ok (seen.reverse ++ l, rest) := by
  induction h generalizing seen with
  | @last w ws a starts h hws =>
    have hfollow : MayFollow (ws ++ Frame.array.closing :: rest) :=
      MayFollow.blanks_append hws (MayFollow.closing .array rest)
    rw [List.append_assoc, Reader.itemsFrom_closed (h.run _ hfollow) (nextItem_closing hws false rest),
      List.reverse_cons]
  | @more w ws ws' s a l starts h hws hws' tail ih =>
    have hsep : Between false (ws ++ Ascii.comma :: ws') := .comma hws hws'
    have hstart : StartsValue (s ++ Frame.array.closing :: rest) := tail.startsValue.append _
    have hcut : w ++ (ws ++ Ascii.comma :: (ws' ++ s)) ++ Frame.array.closing :: rest
        = w ++ ((ws ++ Ascii.comma :: ws') ++ (s ++ Frame.array.closing :: rest)) := by simp
    rw [hcut, Reader.itemsFrom_more (h.run _ (hsep.mayFollow _)) (nextItem_between hsep hstart), ih,
      List.reverse_cons, List.append_assoc, List.singleton_append]

/-- What is read as items are items. -/
theorem Reader.Confined.exists_items (hitem : item.Confined) {seen : List α} (hstart : StartsValue s)
    (h : Reader.itemsFrom item seen s = .ok (l, r)) :
    ∃ inner l', s = inner ++ Frame.array.closing :: r ∧ l = seen.reverse ++ l'
      ∧ Items Lexeme.isSpace item.Extent inner l' := by
  fun_induction Reader.itemsFrom item seen s with
  | case1 => cases h
  | case2 => cases h
  | case3 seen s a t hrun hshorter u hturn =>
    cases h
    obtain ⟨w, rfl, hw⟩ := hitem _ _ _ ‹_›
    obtain ⟨ws, hws, rfl⟩ := exists_of_nextItem_closed ‹_›
    refine ⟨w ++ ws, [a], (List.append_assoc ..).symm, List.reverse_cons, ?_⟩
    exact .last (hstart.of_append hw.ne_nil) hw hws
  | case4 seen s a t hrun hshorter u hturn hshorter' ih =>
    obtain ⟨w, rfl, hw⟩ := hitem _ _ _ ‹_›
    obtain ⟨sep, hsep, rfl, hnext⟩ := exists_of_nextItem_more ‹_›
    obtain ⟨inner, l', rfl, rfl, hitems⟩ := ih hnext h
    cases hsep with
    | @comma ws ws' hws hws' =>
      refine ⟨w ++ (ws ++ Ascii.comma :: (ws' ++ inner)), a :: l', by simp, by simp, ?_⟩
      exact .more (hstart.of_append hw.ne_nil) hw hws hws' hitems

/-- **An array is read exactly if items stand between its brackets**, with commas in between. -/
theorem Reader.Confined.items_iff (hitem : item.Confined) :
    Reader.items item s = .ok (l, r)
      ↔ ∃ inner, s = inner ++ Frame.array.closing :: r ∧ Row Lexeme.isSpace item.Extent inner l := by
  constructor
  · intro h
    unfold Reader.items at h
    split at h
    · cases h
    · next t hturn =>
      cases h
      obtain ⟨ws, hws, rfl⟩ := exists_of_nextItem_closed hturn
      exact ⟨ws, rfl, .empty hws⟩
    · next t hturn =>
      obtain ⟨sep, hsep, rfl, hstart⟩ := exists_of_nextItem_more hturn
      obtain ⟨inner, l', rfl, rfl, hitems⟩ := hitem.exists_items hstart h
      cases hsep with
      | blanks hws => exact ⟨sep ++ inner, (List.append_assoc ..).symm, .items hws hitems⟩
  · rintro ⟨inner, rfl, hrow⟩
    cases hrow with
    | empty hws => rw [Reader.items, nextItem_closing hws]
    | @items ws s l hws hitems =>
      have hstart : StartsValue (s ++ Frame.array.closing :: r) := hitems.startsValue.append _
      rw [List.append_assoc, Reader.items, nextItem_between (.blanks hws) hstart]
      exact hitems.itemsFrom [] r

theorem Reader.Confined.list (hitem : item.Confined) : (Reader.list item).Confined := by
  refine leaf (fun _ => rfl) fun {b r t a} hb h => ?_
  rw [beq_iff_eq] at hb
  subst hb
  obtain ⟨inner, rfl, hrow⟩ := hitem.items_iff.mp h
  refine ⟨inner ++ [Ascii.closeBracket], by simp; rfl, ?_, fun rest _ => ?_⟩
  · exact Passes.nested .array (hrow.passes (fun _ => Blanks.isPlain_of_isSpace _) fun _ _ h => h.passes)
  · rw [List.append_assoc]
    exact hitem.items_iff.mpr ⟨inner, rfl, hrow⟩

/-! ## Objects -/

/-- Entries that look at nothing behind what they read. -/
def Reader.EntryReader.Confined (entry : Reader.EntryReader β) : Prop :=
  ∀ x k s y r, entry.run x k s = .ok (y, r) → ∃ w, s = w ++ r ∧ Passes .outside w .outside
    ∧ ∀ rest, MayFollow rest → entry.run x k (w ++ rest) = .ok (y, rest)

/-- The entries of an object reach to its closing brace. -/
theorem Reader.EntryReader.Confined.entriesFrom {entry : Reader.EntryReader β} (hentry : entry.Confined)
    {x y : β} {first : Bool} (h : Reader.entriesFrom entry x first s = .ok (y, r)) :
    ∃ inner, s = inner ++ Frame.object.closing :: r ∧ Passes .outside inner .outside
      ∧ (first = false → ∀ rest, MayFollow (inner ++ Frame.object.closing :: rest))
      ∧ ∀ rest, Reader.entriesFrom entry x first (inner ++ Frame.object.closing :: rest)
          = .ok (y, rest) := by
  fun_induction Reader.entriesFrom entry x first s with
  | case1 => cases h
  | case2 x first s t hturn =>
    cases h
    obtain ⟨ws, hws, rfl⟩ := exists_of_nextKey_closed hturn
    refine ⟨ws, rfl, hws.passes, fun _ rest => ?_, fun rest => ?_⟩
    · exact MayFollow.blanks_append hws (MayFollow.closing .object rest)
    · exact entriesFrom_closed (nextKey_closing hws first rest)
  | case3 => cases h
  | case4 => cases h
  | case5 x first s t hturn hshorter k u hkey hshorter' z v hrun hshorter'' ih =>
    obtain ⟨sep, hsep, rfl⟩ := exists_of_nextKey_more ‹_›
    obtain ⟨key, rfl, hpasses, hread⟩ := Lexeme.text_extent ‹_›
    obtain ⟨w, rfl, hw, hvalue⟩ := hentry _ _ _ _ _ ‹_›
    obtain ⟨inner, rfl, hinner, hfollow, hrest⟩ := ih h
    refine ⟨sep ++ Ascii.quote :: (key ++ (w ++ inner)), by simp, ?_, ?_, fun rest => ?_⟩
    · exact hsep.passes.append ((Passes.string hpasses).append (hw.append hinner))
    · rintro rfl rest
      rw [List.append_assoc]
      exact hsep.mayFollow _
    · have hcut : sep ++ Ascii.quote :: (key ++ (w ++ inner)) ++ Frame.object.closing :: rest
          = sep ++ Ascii.quote :: (key ++ (w ++ (inner ++ Frame.object.closing :: rest))) := by simp
      rw [hcut, entriesFrom_more (nextKey_between hsep _) (hread _) (hvalue _ (hfollow rfl rest))]
      exact hrest rest

namespace Layout

variable {layout : Layout ρ} {x y : ρ}

/-- Each field of a record is confined. -/
def Confined (layout : Layout ρ) : Prop := ∀ f ∈ layout.fields, f.assign.Confined

theorem Confined.entry (h : layout.Confined) : layout.entry.Confined := by
  intro d k s d' r hrun
  simp only [Layout.entry] at hrun
  split at hrun
  -- a field that is not known
  · next hfind =>
    split at hrun
    · cases hrun
    · next t hcolon =>
      obtain ⟨ws, hws, rfl⟩ := exists_of_afterColon hcolon
      split at hrun
      · cases hrun
      · next u hskip =>
        cases hrun
        obtain ⟨w, rfl, hw⟩ := skipFrom_extent hskip
        refine ⟨ws ++ Ascii.colon :: w, by simp, ?_, fun rest hrest => ?_⟩
        · exact hws.passes.append (Passes.cons (fun _ => rfl) (Wire.Matched.passes hw.closes))
        · rw [List.append_assoc, List.cons_append]
          simp only [Layout.entry, hfind, afterColon_blanks hws, skipValue, hw.run rest hrest]
  · next field hfind =>
    split at hrun
    · cases hrun
    · next hseen =>
      split at hrun
      · cases hrun
      · next t hcolon =>
        obtain ⟨ws, hws, rfl⟩ := exists_of_afterColon hcolon
        split at hrun
        · cases hrun
        · next f u hvalue =>
          cases hrun
          obtain ⟨w, rfl, hw⟩ := h field (List.mem_of_find?_eq_some hfind) _ _ _ hvalue
          refine ⟨ws ++ Ascii.colon :: w, by simp, ?_, fun rest hrest => ?_⟩
          · exact hws.passes.append (Passes.cons (fun _ => rfl) hw.passes)
          · rw [List.append_assoc, List.cons_append]
            simp only [Layout.entry, hfind, if_neg hseen, afterColon_blanks hws, hw.run rest hrest]

/-- **A record that is written as an object** reaches to its closing brace. -/
theorem Confined.object (h : layout.Confined) (hread : layout.object s = .ok (x, r)) :
    ∃ inner, s = inner ++ Frame.object.closing :: r ∧ Passes .outside inner .outside
      ∧ ∀ rest, layout.object (inner ++ Frame.object.closing :: rest) = .ok (x, rest) := by
  unfold Layout.object at hread
  split at hread
  · cases hread
  · next d t hentries =>
    obtain ⟨inner, rfl, hinner, -, hrun⟩ := h.entry.entriesFrom hentries
    split at hread
    · cases hread
    · next hall =>
      cases hread
      refine ⟨inner, rfl, hinner, fun rest => ?_⟩
      rw [Layout.object, hrun]
      simp only [hall]

/-- A record that is written as a row reaches to its closing bracket. -/
theorem Confined.rowFrom {index : Nat} {fs : List (Field ρ)} (h : ∀ f ∈ fs, f.assign.Confined)
    (hread : layout.rowFrom index x fs s = .ok (y, r)) :
    ∃ inner, s = inner ++ Frame.array.closing :: r ∧ Passes .outside inner .outside
      ∧ (index ≠ 0 → ∀ rest, MayFollow (inner ++ Frame.array.closing :: rest))
      ∧ ∀ rest, layout.rowFrom index x fs (inner ++ Frame.array.closing :: rest) = .ok (y, rest) := by
  induction fs generalizing index x s with
  | nil =>
    simp only [Layout.rowFrom] at hread
    split at hread
    · cases hread
    · next b t hblanks =>
      obtain ⟨ws, hws, rfl, hb⟩ := exists_blanks hblanks
      split at hread
      · next hclose =>
        cases hread
        subst hclose
        refine ⟨ws, rfl, hws.passes, fun _ rest => ?_, fun rest => ?_⟩
        · exact MayFollow.blanks_append hws (MayFollow.closing .array rest)
        · simp only [Layout.rowFrom, Frame.closing, hws.skipBlanks hb, if_true]
      · cases hread
  | cons f fs ih =>
    simp only [Layout.rowFrom] at hread
    split at hread
    · cases hread
    · next t hturn =>
      obtain ⟨ws, hws, rfl⟩ := exists_of_nextItem_closed hturn
      split at hread
      · cases hread
      · next hneeded =>
        cases hread
        refine ⟨ws, rfl, hws.passes, fun _ rest => ?_, fun rest => ?_⟩
        · exact MayFollow.blanks_append hws (MayFollow.closing .array rest)
        · simp only [Layout.rowFrom, nextItem_closing hws, hneeded]
    · next t hturn =>
      obtain ⟨sep, hsep, rfl, hstart⟩ := exists_of_nextItem_more hturn
      split at hread
      · cases hread
      · next g u hvalue =>
        obtain ⟨w, rfl, hw⟩ := h f List.mem_cons_self _ _ _ hvalue
        obtain ⟨inner, rfl, hinner, hfollow, hrun⟩ :=
          ih (fun f' hf' => h f' (List.mem_cons_of_mem _ hf')) hread
        refine ⟨sep ++ (w ++ inner), by simp, ?_, fun hindex rest => ?_, fun rest => ?_⟩
        · exact hsep.passes.append (hw.passes.append hinner)
        · rw [decide_eq_false hindex] at hsep
          rw [List.append_assoc]
          exact hsep.mayFollow _
        · have hstart := (hstart.of_append hw.ne_nil).append (inner ++ Frame.array.closing :: rest)
          rw [List.append_assoc, List.append_assoc]
          simp only [Layout.rowFrom, nextItem_between hsep hstart,
            hw.run _ (hfollow (Nat.succ_ne_zero index) rest), hrun]

/-- **A record is confined if its fields are.** -/
theorem Confined.reader (h : layout.Confined) : layout.reader.Confined := by
  refine Reader.Confined.leaf (fun _ => rfl) fun {b r t a} hb hread => ?_
  split at hread
  · next hbrace =>
    subst hbrace
    obtain ⟨inner, rfl, hinner, hrun⟩ := h.object hread
    refine ⟨inner ++ [Frame.object.closing], by simp, Passes.nested .object hinner, fun rest _ => ?_⟩
    rw [List.append_assoc, if_pos rfl]
    exact hrun rest
  · next hbrace =>
    have hbracket : b = Ascii.openBracket := by
      simpa [hbrace] using hb
    subst hbracket
    obtain ⟨inner, rfl, hinner, -, hrun⟩ := Confined.rowFrom h hread
    refine ⟨inner ++ [Frame.array.closing], by simp, Passes.nested .array hinner, fun rest _ => ?_⟩
    rw [List.append_assoc, if_neg hbrace]
    exact hrun rest

end Layout
end TopicRelay.Json
