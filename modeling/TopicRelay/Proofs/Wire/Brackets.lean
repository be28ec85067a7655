/-
  The brackets of what is written match, so the last bracket of an element is its last byte.

  While an element comes in, only the depth of its brackets is followed, and whether a byte is inside
  of a string.  `Level mode bytes` is the invariant of that scan: whoever begins to scan the bytes in
  `mode` is back at the same depth and mode after them, and was never below that depth in between.

      "   contents   "        level outside, its contents level inside of the string
      [ item , item ]         level outside, because one deeper the items and commas are

  Level bytes after one another are level, and so are level bytes between two that undo each other
  (`Level.nested`).  Everything that is written is put together in these two ways.
-/
import TopicRelay.Proofs.Json.Values
import TopicRelay.Wire.Decoder

namespace TopicRelay.Wire.Partial

open Json

/-- The depth and mode after several more bytes. -/
def scanAll (bs : Bytes) (s : Nat × ScanMode) : Nat × ScanMode :=
  bs.foldl (fun s b => scan b s.1 s.2) s

theorem scanAll_append (a b : Bytes) (s : Nat × ScanMode) :
    scanAll (a ++ b) s = scanAll b (scanAll a s) :=
  List.foldl_append

/-- Bytes that lead back to where the scan was, and never below. -/
structure Level (mode : ScanMode) (bs : Bytes) : Prop where
  back : ∀ d, scanAll bs (d, mode) = (d, mode)
  above : ∀ d a, a <+: bs → d ≤ (scanAll a (d, mode)).1

namespace Level

variable {mode : ScanMode}

/-! ## Putting level bytes together -/

theorem nil : Level mode [] := by
  refine ⟨fun d => rfl, fun d a ha => ?_⟩
  rw [List.prefix_nil.mp ha]
  exact Nat.le_refl d

theorem append {a b : Bytes} (ha : Level mode a) (hb : Level mode b) : Level mode (a ++ b) := by
  refine ⟨fun d => ?_, fun d x hx => ?_⟩
  · rw [scanAll_append, ha.back, hb.back]
  · rcases List.prefix_or_prefix_of_prefix hx (List.prefix_append a b) with h | ⟨y, rfl⟩
    · exact ha.above d x h
    · rw [scanAll_append, ha.back]
      exact hb.above d y ((List.prefix_append_right_inj a).mp hx)

theorem flatMap {α : Type} {f : α → Bytes} {l : List α} (h : ∀ x ∈ l, Level mode (f x)) :
    Level mode (l.flatMap f) := by
  induction l with
  | nil => exact nil
  | cons x l ih =>
    rw [List.flatMap_cons]
    exact (h x List.mem_cons_self).append (ih fun y hy => h y (List.mem_cons_of_mem _ hy))

/-- A byte that changes nothing is level. -/
theorem singleton {b : UInt8} (h : ∀ d, scan b d mode = (d, mode)) : Level mode [b] := by
  refine ⟨h, fun d a ha => ?_⟩
  rcases List.prefix_cons_iff.mp ha with rfl | ⟨a, rfl, hin⟩
  · exact Nat.le_refl d
  · rw [List.prefix_nil.mp hin]
    show d ≤ (scan b d mode).1
    exact Nat.le_of_eq (congrArg Prod.fst (h d)).symm

/-- Level bytes between two others: the first goes to another mode, or one deeper, and the last
    comes back. -/
theorem nested (inner : ScanMode) {up : Nat → Nat} {b c : UInt8} {bs : Bytes} (hup : ∀ d, d ≤ up d)
    (hopen : ∀ d, scan b d mode = (up d, inner)) (hbs : Level inner bs)
    (hclose : ∀ d, scan c (up d) inner = (d, mode)) : Level mode (b :: (bs ++ [c])) := by
  have hall : ∀ d, scanAll (b :: (bs ++ [c])) (d, mode) = (d, mode) := by
    intro d
    show scanAll (bs ++ [c]) (scan b d mode) = _
    rw [hopen, scanAll_append, hbs.back]
    exact hclose d
  refine ⟨hall, fun d a ha => ?_⟩
  -- a prefix is empty, ends with the closing byte, or ends in between, where it is deeper
  rcases List.prefix_cons_iff.mp ha with rfl | ⟨a, rfl, hin⟩
  · exact Nat.le_refl d
  rcases List.prefix_concat_iff.mp hin with rfl | hin
  · exact Nat.le_of_eq (congrArg Prod.fst (hall d)).symm
  · show d ≤ (scanAll a (scan b d mode)).1
    rw [hopen]
    exact Nat.le_trans (hup d) (hbs.above (up d) a hin)

/-! ## What is written -/

/-- After a backslash any byte may come. -/
theorem pair (b : UInt8) : Level .inString [Ascii.backslash, b] :=
  nested .escaped Nat.le_refl (fun _ => rfl) nil fun _ => rfl

theorem inString {b : UInt8} (hq : b ≠ Ascii.quote) (hb : b ≠ Ascii.backslash) :
    Level .inString [b] :=
  singleton fun d => by rw [scan, if_neg hb, if_neg hq]

theorem hexDigit_ne : ∀ n < 16, Ascii.hexDigit n ≠ Ascii.quote ∧ Ascii.hexDigit n ≠ Ascii.backslash := by
  decide

/-- However a byte of a string is written, the string goes on after it. -/
theorem escape (b : UInt8) : Level .inString (Printer.escape b) := by
  have hb := b.toNat_lt
  unfold Printer.escape
  split
  · exact pair _
  · next hl =>
    split
    · obtain ⟨hq₁, hs₁⟩ := hexDigit_ne (b.toNat / 16) (by omega)
      obtain ⟨hq₂, hs₂⟩ := hexDigit_ne (b.toNat % 16) (by omega)
      have hzero : Level .inString [Ascii.zero] := inString (by decide) (by decide)
      exact ((((pair 0x75).append hzero).append hzero).append (inString hq₁ hs₁)).append
        (inString hq₂ hs₂)
    · refine inString ?_ ?_
      · rintro rfl; revert hl; decide
      · rintro rfl; revert hl; decide

theorem quoted (contents : Bytes) : Level .outside (Printer.quoted contents) :=
  nested .inString Nat.le_refl (fun _ => rfl)
    (flatMap fun b _ => escape b) fun _ => rfl

theorem text (s : String) : Level .outside (Printer.text s) := quoted _

/-- Outside of strings a byte that is no quote and no bracket is level. -/
theorem outside {b : UInt8} (hq : b ≠ Ascii.quote)
    (ho : ¬ (b = Ascii.openBrace ∨ b = Ascii.openBracket))
    (hc : ¬ (b = Ascii.closeBrace ∨ b = Ascii.closeBracket)) : Level .outside [b] :=
  singleton fun d => by rw [scan, if_neg hq, if_neg ho, if_neg hc]

theorem colon : Level .outside [Ascii.colon] := outside (by decide) (by decide) (by decide)

theorem comma : Level .outside [Ascii.comma] := outside (by decide) (by decide) (by decide)

theorem natural (n : Nat) : Level .outside (Printer.natural n) := by
  have hdigit : ∀ b ∈ Text.Numeral.bytes n, Level .outside [b] := by
    intro b hb
    have hd := Text.Numeral.isDigit_of_mem_bytes n b hb
    refine outside ?_ ?_ ?_
    · rintro rfl; revert hd; decide
    · rintro (rfl | rfl) <;> revert hd <;> decide
    · rintro (rfl | rfl) <;> revert hd <;> decide
  have h := flatMap hdigit
  rw [List.flatMap_singleton'] at h
  exact h

theorem commaSeparated {items : List Bytes} (h : ∀ x ∈ items, Level .outside x) :
    Level .outside (Printer.commaSeparated items) := by
  cases items with
  | nil => exact nil
  | cons x items =>
    rw [Printer.commaSeparated_cons]
    exact (h x List.mem_cons_self).append
      (flatMap fun y hy => comma.append (h y (List.mem_cons_of_mem _ hy)))

theorem array {items : List Bytes} (h : ∀ x ∈ items, Level .outside x) :
    Level .outside (Printer.array items) :=
  nested .outside Nat.le_succ (fun _ => rfl) (commaSeparated h) fun _ => rfl

theorem entries {l : List (String × Bytes)} (h : ∀ e ∈ l, Level .outside e.2) :
    Level .outside (Printer.commaSeparated (l.map fun e => Printer.entry e.1 e.2)) := by
  refine commaSeparated fun x hx => ?_
  obtain ⟨e, he, rfl⟩ := List.mem_map.mp hx
  exact (text e.1).append (colon.append (h e he))

theorem object {l : List (String × Bytes)} (h : ∀ e ∈ l, Level .outside e.2) :
    Level .outside (Printer.object l) :=
  nested .outside Nat.le_succ (fun _ => rfl) (entries h) fun _ => rfl

/-! ## Elements -/

theorem message (m : Message) : Level .outside (printMessage m) := by
  refine object fun e he => ?_
  simp only [List.mem_cons, List.not_mem_nil, or_false] at he
  rcases he with rfl | rfl
  · exact text m.id
  · exact quoted _

theorem error (e : TopicError) : Level .outside e.print := by
  refine object fun x hx => ?_
  simp only [List.mem_cons, List.not_mem_nil, or_false] at hx
  rcases hx with rfl | rfl
  · exact natural _
  · exact text e.message

end Level

/-- Between the braces of an element its bytes are level. -/
theorem exists_level (e : TopicMessages) :
    ∃ inner, e.print = Ascii.openBrace :: (inner ++ [Ascii.closeBrace]) ∧ Level .outside inner := by
  refine ⟨_, rfl, Level.entries fun x hx => ?_⟩
  rcases List.mem_append.mp hx with hx | hx
  · simp only [List.mem_cons, List.not_mem_nil, or_false] at hx
    rcases hx with rfl | rfl
    · exact Level.text e.topic
    · refine Level.array fun y hy => ?_
      obtain ⟨m, -, rfl⟩ := List.mem_map.mp hy
      exact Level.message m
  · rw [Option.mem_toList, Option.map_eq_some_iff] at hx
    obtain ⟨error, -, rfl⟩ := hx
    exact Level.error error

/-! ## An element while it comes in -/

/-- The partial element after some bytes that follow its opening brace. -/
def after (bs : Bytes) : Partial := bs.foldl push start

theorem after_concat (bs : Bytes) (b : UInt8) : (after bs).push b = after (bs ++ [b]) := by
  rw [after, after, List.foldl_append]; rfl

/-- A partial element keeps and counts its bytes, and its scan goes over them. -/
theorem foldl_push (bs : Bytes) (p : Partial) :
    (bs.foldl push p).bytes = p.bytes ++ bs ∧ (bs.foldl push p).size = p.size + bs.length
      ∧ ((bs.foldl push p).depth, (bs.foldl push p).mode) = scanAll bs (p.depth, p.mode) := by
  induction bs generalizing p with
  | nil => exact ⟨(List.append_nil _).symm, rfl, rfl⟩
  | cons b bs ih =>
    obtain ⟨hbytes, hsize, hscan⟩ := ih (p.push b)
    refine ⟨?_, ?_, hscan⟩
    · rw [List.foldl_cons, hbytes]
      show (b :: p.reversed).reverse ++ bs = p.reversed.reverse ++ b :: bs
      rw [List.reverse_cons, List.append_assoc, List.singleton_append]
    · rw [List.foldl_cons, hsize, List.length_cons]
      show p.size + 1 + bs.length = _
      omega

theorem bytes_after (bs : Bytes) : (after bs).bytes = Ascii.openBrace :: bs :=
  (foldl_push bs start).1

theorem size_after (bs : Bytes) : (after bs).size = bs.length + 1 := by
  rw [after, (foldl_push bs start).2.1, Nat.add_comm]; rfl

theorem depth_after (bs : Bytes) : (after bs).depth = (scanAll bs (1, .outside)).1 :=
  (Prod.mk.inj (foldl_push bs start).2.2).1

/-- **An element is complete exactly with its last byte.** -/
theorem isComplete_iff {e : TopicMessages} {bs tail : Bytes} {b : UInt8}
    (h : e.print = Ascii.openBrace :: (bs ++ b :: tail)) :
    (after (bs ++ [b])).isComplete = true ↔ tail = [] := by
  obtain ⟨inner, hprint, hlevel⟩ := exists_level e
  have heq : bs ++ b :: tail = inner ++ [Ascii.closeBrace] := by
    rw [hprint] at h
    exact (List.cons.inj h).2.symm
  rw [isComplete, beq_iff_eq, depth_after]
  constructor
  · intro hdepth
    rcases tail.eq_nil_or_concat with ht | ⟨t, c, rfl⟩
    · exact ht
    · -- the bytes so far end inside of the braces, where the depth is at least one
      have hprefix : bs ++ [b] <+: inner := by
        refine ⟨t, ?_⟩
        have hcut : ((bs ++ [b]) ++ t) ++ [c] = inner ++ [Ascii.closeBrace] := by
          rw [← heq]; simp
        exact (List.append_inj' hcut rfl).1
      have habove := hlevel.above 1 (bs ++ [b]) hprefix
      omega
  · rintro rfl
    rw [heq, scanAll_append, hlevel.back]
    rfl

end TopicRelay.Wire.Partial
