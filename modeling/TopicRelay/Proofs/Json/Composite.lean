/-
  Arrays, maps and records are read back as they were written.

  The two loops of the reader (`itemsFrom`, `entriesFrom`) have one equation for each way they go on,
  and the inductions follow the list that was written.  What an object is read into depends on who
  reads it, a map or a record, so the loop over entries is treated once for both: `Gathers` says what
  a list of entries makes of what was there before.

  A record that is written with its fields in the order of their declaration, each once, is read back
  (`Layout.reads`); a field that may be left out may be missing at the end.
-/
import TopicRelay.Proofs.Json.Values
import TopicRelay.Proofs.SortedMap

namespace TopicRelay.Json

variable {α β ρ : Type}

/-! ## Arrays -/

theorem Reader.itemsFrom_closed {item : Reader α} {seen : List α} {s r t : Bytes} {a : α}
    (hrun : item.run s = .ok (a, r)) (hturn : nextItem false r = .ok (.closed t)) :
    itemsFrom item seen s = .ok ((a :: seen).reverse, t) := by
  rw [itemsFrom]
  split
  · next h => rw [hrun] at h; cases h
  · next h =>
    rw [hrun] at h; cases h
    split
    · next h' => rw [hturn] at h'; cases h'
    · next h' => rw [hturn] at h'; cases h'; rfl
    · next h' => rw [hturn] at h'; cases h'

theorem Reader.itemsFrom_more {item : Reader α} {seen : List α} {s r t : Bytes} {a : α}
    (hrun : item.run s = .ok (a, r)) (hturn : nextItem false r = .ok (.more t)) :
    itemsFrom item seen s = itemsFrom item (a :: seen) t := by
  rw [itemsFrom]
  split
  · next h => rw [hrun] at h; cases h
  · next h =>
    rw [hrun] at h; cases h
    split
    · next h' => rw [hturn] at h'; cases h'
    · next h' => rw [hturn] at h'; cases h'
    · next h' => rw [hturn] at h'; cases h'; rfl

/-- From an item on, all that were written are read. -/
theorem Reader.itemsFrom_flatMap {item : Reader α} {write : α → Bytes} (seen : List α) (a : α)
    (l : List α) (h : ∀ x ∈ a :: l, Reads item (write x) x) (rest : Bytes) :
    itemsFrom item seen
        (write a ++ ((l.map write).flatMap (Ascii.comma :: ·) ++ Ascii.closeBracket :: rest))
      = .ok (seen.reverse ++ a :: l, rest) := by
  induction l generalizing a seen with
  | nil =>
    have hrun := (h a List.mem_cons_self).run _ (EndsValue.closeBracket rest)
    rw [List.map_nil, List.flatMap_nil, List.nil_append,
      itemsFrom_closed hrun (nextItem_closeBracket false rest), List.reverse_cons]
  | cons b l ih =>
    have hb : Reads item (write b) b := h b (List.mem_cons_of_mem _ List.mem_cons_self)
    have hrun := (h a List.mem_cons_self).run _
      (EndsValue.flatMap_comma (l := (b :: l).map write) (EndsValue.closeBracket rest))
    have hturn := nextItem_comma hb.starts
      ((l.map write).flatMap (Ascii.comma :: ·) ++ Ascii.closeBracket :: rest)
    rw [List.map_cons, List.flatMap_cons, List.cons_append, List.cons_append, List.append_assoc]
      at hrun ⊢
    rw [itemsFrom_more hrun hturn, ih (a :: seen) b fun x hx => h x (List.mem_cons_of_mem _ hx),
      List.reverse_cons, List.append_assoc, List.singleton_append]

/-- **An array is read if each of its items is.** -/
theorem Reads.list {item : Reader α} {write : α → Bytes} {l : List α}
    (h : ∀ x ∈ l, Reads item (write x) x) :
    Reads (Reader.list item) (Printer.array (l.map write)) l := by
  refine ⟨⟨Ascii.openBracket, _, rfl, by decide, by decide⟩, fun rest hrest => ?_⟩
  rw [Printer.array, List.cons_append, List.append_assoc]
  simp only [Reader.list, Reader.leaf,
    Lexeme.skipBlanks_cons (show Lexeme.isSpace Ascii.openBracket = false by decide), beq_self_eq_true,
    if_true]
  cases l with
  | nil => rw [Reader.items, List.map_nil, Printer.commaSeparated, List.nil_append,
      List.singleton_append, nextItem_closeBracket]
  | cons a l =>
    have ha := (h a List.mem_cons_self).starts
    rw [List.map_cons, Printer.commaSeparated_cons, List.append_assoc, List.singleton_append,
      Reader.items, nextItem_first ha]
    exact Reader.itemsFrom_flatMap [] a l h rest

/-! ## Entries of objects -/

theorem Reader.entriesFrom_closed {entry : EntryReader β} {x : β} {first : Bool} {s r : Bytes}
    (hturn : nextKey first s = .ok (.closed r)) : entriesFrom entry x first s = .ok (x, r) := by
  rw [entriesFrom]
  split
  · next h => rw [hturn] at h; cases h
  · next h => rw [hturn] at h; cases h; rfl
  · next h => rw [hturn] at h; cases h

theorem Reader.entriesFrom_more {entry : EntryReader β} {x y : β} {first : Bool} {s r t u : Bytes}
    {k : String} (hturn : nextKey first s = .ok (.more r)) (hkey : Lexeme.text r = .ok (k, t))
    (hrun : entry.run x k t = .ok (y, u)) :
    entriesFrom entry x first s = entriesFrom entry y false u := by
  rw [entriesFrom]
  split
  · next h => rw [hturn] at h; cases h
  · next h => rw [hturn] at h; cases h
  · next h =>
    rw [hturn] at h; cases h
    split
    · next h' => rw [hkey] at h'; cases h'
    · next h' =>
      rw [hkey] at h'; cases h'
      split
      · next h'' => rw [hrun] at h''; cases h''
      · next h'' => rw [hrun] at h''; cases h''; rfl

/-- What one written entry makes of what was gathered before. -/
def Reader.EntryReader.Takes (entry : Reader.EntryReader β) (x : β) (k : String) (value : Bytes)
    (y : β) : Prop :=
  ∀ rest, EndsValue rest → entry.run x k (Ascii.colon :: (value ++ rest)) = .ok (y, rest)

/-- What several written entries make of what was gathered before. -/
inductive Gathers (entry : Reader.EntryReader β) : β → List (String × Bytes) → β → Prop where
  | nil (x : β) : Gathers entry x [] x
  | cons {x y z : β} {k : String} {value : Bytes} {l : List (String × Bytes)}
      (head : entry.Takes x k value y) (tail : Gathers entry y l z) :
      Gathers entry x ((k, value) :: l) z

/-- An entry as it is written. -/
def writtenEntry (e : String × Bytes) : Bytes := Printer.entry e.1 e.2

/-- The entries after another one, up to the closing brace. -/
theorem Reader.entriesFrom_rest {entry : Reader.EntryReader β} {x z : β}
    {l : List (String × Bytes)} (h : Gathers entry x l z) (rest : Bytes) :
    entriesFrom entry x false
        ((l.map writtenEntry).flatMap (Ascii.comma :: ·) ++ Ascii.closeBrace :: rest)
      = .ok (z, rest) := by
  induction h with
  | nil x => exact entriesFrom_closed (nextKey_closeBrace false rest)
  | @cons x y z k value l head tail ih =>
    have hend : EndsValue ((l.map writtenEntry).flatMap (Ascii.comma :: ·) ++ Ascii.closeBrace :: rest) :=
      EndsValue.flatMap_comma (EndsValue.closeBrace rest)
    rw [List.map_cons, List.flatMap_cons, writtenEntry, Printer.entry, Printer.text, Printer.quoted]
    simp only [List.cons_append, List.append_assoc, List.nil_append]
    rw [entriesFrom_more (nextKey_comma _) (Lexeme.text_text k _) (head _ hend)]
    exact ih

/-- An object, after its opening brace. -/
theorem Reader.entriesFrom_object {entry : Reader.EntryReader β} {x z : β}
    {l : List (String × Bytes)} (h : Gathers entry x l z) (rest : Bytes) :
    entriesFrom entry x true
        (Printer.commaSeparated (l.map writtenEntry) ++ Ascii.closeBrace :: rest)
      = .ok (z, rest) := by
  cases h with
  | nil => exact entriesFrom_closed (nextKey_closeBrace true rest)
  | @cons _ y _ k value l head tail =>
    have hend : EndsValue ((l.map writtenEntry).flatMap (Ascii.comma :: ·) ++ Ascii.closeBrace :: rest) :=
      EndsValue.flatMap_comma (EndsValue.closeBrace rest)
    rw [List.map_cons, Printer.commaSeparated_cons, writtenEntry, Printer.entry, Printer.text,
      Printer.quoted]
    simp only [List.cons_append, List.append_assoc, List.nil_append]
    -- no comma stands before the first entry, and one before each of the others
    rw [entriesFrom_more (nextKey_first _) (Lexeme.text_text k _) (head _ hend)]
    exact entriesFrom_rest tail rest

/-- What is written as an object begins like a value. -/
theorem Printer.startsValue_object (l : List (String × Bytes)) : StartsValue (Printer.object l) :=
  ⟨Ascii.openBrace, _, rfl, by decide, by decide⟩

/-- An object with its opening brace in front, as the readers see it. -/
theorem Printer.object_append (l : List (String × Bytes)) (rest : Bytes) :
    Printer.object l ++ rest
      = Ascii.openBrace ::
        (Printer.commaSeparated (l.map writtenEntry) ++ Ascii.closeBrace :: rest) := by
  show Ascii.openBrace :: ((Printer.commaSeparated (l.map writtenEntry) ++ [Ascii.closeBrace]) ++ rest)
    = _
  rw [List.append_assoc, List.singleton_append]

/-! ## Maps -/

/-- The entries of a map are read into it one by one. -/
theorem Gathers.mapEntry {value : Reader α} {write : α → Bytes} (m : SortedMap α)
    {l : List (String × α)} (h : ∀ e ∈ l, Reads value (write e.2) e.2) :
    Gathers (Reader.mapEntry value) m (l.map fun e => (e.1, write e.2))
      (l.foldl (fun m e => m.insert e.1 e.2) m) := by
  induction l generalizing m with
  | nil => exact Gathers.nil m
  | cons e l ih =>
    refine Gathers.cons (y := m.insert e.1 e.2) (fun rest hrest => ?_)
      (ih _ fun x hx => h x (List.mem_cons_of_mem _ hx))
    have hrun := (h e List.mem_cons_self).run rest hrest
    simp only [Reader.mapEntry, afterColon_colon, hrun]

/-- **A map is read if each of its values is.** -/
theorem Reads.sortedMap {value : Reader α} {write : α → Bytes} {m : SortedMap α}
    (h : ∀ e ∈ m.entries, Reads value (write e.2) e.2) :
    Reads (Reader.sortedMap value) (Printer.object (m.entries.map fun e => (e.1, write e.2))) m := by
  refine ⟨Printer.startsValue_object _, fun rest _ => ?_⟩
  have hgather := Gathers.mapEntry SortedMap.empty h
  have hrun := Reader.entriesFrom_object hgather rest
  -- entries that come in order of their keys are inserted where they stood
  rw [show m.entries.foldl _ SortedMap.empty = m from m.ofList_entries] at hrun
  rw [Printer.object_append]
  simp only [Reader.sortedMap, Reader.leaf,
    Lexeme.skipBlanks_cons (show Lexeme.isSpace Ascii.openBrace = false by decide), beq_self_eq_true,
    if_true, hrun]

/-! ## Records -/

/-- A field of a record takes its entry if it reads the value, and was not read before. -/
theorem Layout.takes {layout : Layout ρ} {x y : ρ} {seen : List String} {name : String}
    {field : Field ρ} {value : Bytes} {f : ρ → ρ}
    (hfield : layout.fields.find? (·.name == name) = some field)
    (hseen : seen.contains name = false) (hvalue : Reads field.assign value f) (hy : f x = y) :
    layout.entry.Takes ⟨x, seen⟩ name value ⟨y, name :: seen⟩ := by
  intro rest hrest
  simp only [Layout.entry, hfield, hseen, afterColon_colon, hvalue.run rest hrest, hy]
  rfl

/-- **A record is read if its entries gather into it and no needed field is missing.** -/
theorem Layout.reads {layout : Layout ρ} {l : List (String × Bytes)} {x : ρ} {seen : List String}
    (h : Gathers layout.entry ⟨layout.blank, []⟩ l ⟨x, seen⟩) (hall : layout.missing? seen = none) :
    Reads layout.reader (Printer.object l) x := by
  refine ⟨Printer.startsValue_object l, fun rest _ => ?_⟩
  have hobject : layout.object (Printer.commaSeparated (l.map writtenEntry) ++ Ascii.closeBrace :: rest)
      = .ok (x, rest) := by
    rw [Layout.object, Reader.entriesFrom_object h rest]
    simp only [hall]
  rw [Printer.object_append]
  simp only [Layout.reader, Reader.leaf,
    Lexeme.skipBlanks_cons (show Lexeme.isSpace Ascii.openBrace = false by decide), beq_self_eq_true,
    Bool.true_or, if_true, hobject]

end TopicRelay.Json
