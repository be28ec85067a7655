/-
  How far stepping over a value reaches.

  Stepping over keeps the open brackets in a list.  So does the scan that matches brackets by kind, and
  the two lists are the same: bytes that are stepped over lead the scan from that list to where all of
  it is closed (`Skips`).  There is one lemma for each step, and the induction follows the steps.
-/
import TopicRelay.Proofs.Json.Extent

namespace TopicRelay.Json

open Wire (Passes Leads)

variable {s r t w ws sep : Bytes} {b : UInt8}

/-! ## What a value begins with -/

theorem StartsValue.append (h : StartsValue w) (rest : Bytes) : StartsValue (w ++ rest) := by
  obtain ⟨b, t, rfl, hb, hne⟩ := h
  exact ⟨b, t ++ rest, rfl, hb, hne⟩

/-- The first byte is one of those that are used up. -/
theorem StartsValue.of_append (h : StartsValue (w ++ r)) (hw : w ≠ []) : StartsValue w := by
  cases w with
  | nil => exact absurd rfl hw
  | cons b w =>
    obtain ⟨c, t, hct, hb, hne⟩ := h
    obtain ⟨rfl, -⟩ := List.cons.inj hct
    exact ⟨b, w, rfl, hb, hne⟩

/-! ## Values that are stepped over -/

theorem plain_word {word : Bytes} (h : word.all Wire.Passes.isPlain = true) :
    Passes .outside word .outside :=
  Passes.plain (List.all_eq_true.mp h)

theorem skipWord_extent {word : Bytes} (hplain : (b :: word).all Wire.Passes.isPlain = true)
    (hskip : ∀ s, skipScalar b s = Lexeme.expectWord word s) (h : skipScalar b r = .ok t) :
    ∃ w, r = w ++ t ∧ Passes .outside (b :: w) .outside
      ∧ ∀ rest, MayFollow rest → skipScalar b (w ++ rest) = .ok rest := by
  rw [hskip] at h
  refine ⟨word, Lexeme.eq_of_expectWord h, plain_word hplain, fun rest _ => ?_⟩
  rw [hskip]
  exact Lexeme.expectWord_append word rest

theorem skipScalar_extent (h : skipScalar b r = .ok t) :
    ∃ w, r = w ++ t ∧ Passes .outside (b :: w) .outside
      ∧ ∀ rest, MayFollow rest → skipScalar b (w ++ rest) = .ok rest := by
  have hskip := h
  unfold skipScalar at h
  split at h
  · next hb =>
    subst hb
    exact skipWord_extent (by decide) (fun _ => rfl) hskip
  split at h
  · next hb =>
    subst hb
    exact skipWord_extent (by decide) (fun _ => rfl) hskip
  split at h
  · next hb =>
    subst hb
    exact skipWord_extent (by decide) (fun _ => rfl) hskip
  split at h
  · next hn ht hf hnumber =>
    obtain ⟨w, rfl, hplain, hrun⟩ :=
      (Lexeme.skipNumber_extent h).of_cons (Lexeme.length_skipNumber h)
    refine ⟨w, rfl, Passes.plain hplain, fun rest hrest => ?_⟩
    rw [skipScalar, if_neg hn, if_neg ht, if_neg hf, if_pos hnumber]
    exact hrun rest hrest.stopsNumber
  split at h
  · next hquote =>
    subst hquote
    obtain ⟨w, rfl, hw, hrun⟩ := Lexeme.skipString_extent h
    exact ⟨w, rfl, Passes.string hw, fun rest _ => hrun rest⟩
  · cases h

theorem skipKey_extent (h : skipKey s = .ok r) :
    ∃ w, s = w ++ r ∧ Passes .inString w .outside ∧ ∀ rest, skipKey (w ++ rest) = .ok rest := by
  unfold skipKey at h
  split at h
  · cases h
  · next t hstring =>
    obtain ⟨w, rfl, hw, hrun⟩ := Lexeme.skipString_extent hstring
    obtain ⟨ws, hws, rfl⟩ := exists_of_afterColon h
    refine ⟨w ++ (ws ++ [Ascii.colon]), by simp, ?_, fun rest => ?_⟩
    · exact hw.append (hws.passes.append (plain_word (by decide)))
    · rw [List.append_assoc, List.append_assoc, skipKey, hrun, List.singleton_append]
      exact afterColon_blanks hws rest

/-- Bytes that are stepped over, from a place where the brackets in `stack` are open. -/
structure Skips (stack : List Frame) (state : SkipState) (w : Bytes) : Prop where
  closes : Leads (stack, .outside) w ([], .outside)
  follows : state = .after → MayFollow w
  run : ∀ rest, MayFollow rest → skipFrom stack state (w ++ rest) = .ok rest

namespace Skips

variable {stack outer : List Frame} {key : Bytes}

theorem done : Skips [] .after [] := by
  refine ⟨Leads.nil _, fun _ => MayFollow.nil, fun rest _ => ?_⟩
  rw [List.nil_append, skipFrom]

theorem ne_nil (h : Skips stack .before w) : w ≠ [] := by
  rintro rfl
  have hlength := length_skipFrom (h.run [] MayFollow.nil)
  exact absurd hlength (Nat.not_succ_le_zero 0)

theorem closed (kind : Frame) (hws : Blanks ws) (h : Skips outer .after w) :
    Skips (kind :: outer) .after (ws ++ kind.closing :: w) := by
  refine ⟨?_, fun _ => MayFollow.blanks_append hws (MayFollow.closing kind w), fun rest hrest => ?_⟩
  · exact (hws.passes _).append (Leads.cons (Wire.Nesting.step_closing kind outer) h.closes)
  · rw [List.append_assoc, List.cons_append]
    cases kind with
    | array =>
      have hturn := nextItem_closing hws false (w ++ rest)
      rw [skipFrom]
      split <;> grind [h.run rest hrest]
    | object =>
      have hturn := nextKey_closing hws false (w ++ rest)
      rw [skipFrom]
      split <;> grind [h.run rest hrest]

theorem item (hsep : Between false sep) (hstart : StartsValue w)
    (h : Skips (.array :: outer) .before w) : Skips (.array :: outer) .after (sep ++ w) := by
  refine ⟨(hsep.passes _).append h.closes, fun _ => hsep.mayFollow w, fun rest hrest => ?_⟩
  have hturn := nextItem_between hsep (hstart.append rest)
  rw [List.append_assoc, skipFrom]
  split <;> grind [h.run rest hrest]

theorem entry (hsep : Between false sep) (hkey : Passes .inString key .outside)
    (hskip : ∀ rest, skipKey (key ++ rest) = .ok rest) (h : Skips (.object :: outer) .before w) :
    Skips (.object :: outer) .after (sep ++ Ascii.quote :: (key ++ w)) := by
  refine ⟨?_, fun _ => hsep.mayFollow _, fun rest hrest => ?_⟩
  · exact (hsep.passes _).append ((Passes.string hkey _).append h.closes)
  · have hturn := nextKey_between hsep (key ++ (w ++ rest))
    have hkey := hskip (w ++ rest)
    rw [List.append_assoc, List.cons_append, List.append_assoc, skipFrom]
    split <;> grind [h.run rest hrest]

/-- A pair of brackets with nothing in between. -/
theorem empty (kind : Frame) {ws' : Bytes} (hws : Blanks ws) (hws' : Blanks ws')
    (h : Skips stack .after w) :
    Skips stack .before (ws ++ kind.opening :: (ws' ++ kind.closing :: w)) := by
  constructor
  case closes =>
    exact (hws.passes _).append (Leads.cons (Wire.Nesting.step_opening kind stack)
      ((hws'.passes _).append (Leads.cons (Wire.Nesting.step_closing kind stack) h.closes)))
  case follows =>
    intro h
    cases h
  case run =>
    intro rest hrest
    rw [List.append_assoc, List.cons_append, List.append_assoc, List.cons_append]
    cases kind with
    | array =>
      have hblanks := hws.skipBlanks (b := Frame.array.opening) (by decide)
        (ws' ++ Frame.array.closing :: (w ++ rest))
      have hturn := nextItem_closing hws' true (w ++ rest)
      rw [skipFrom]
      split <;> grind [h.run rest hrest, Frame.opening]
    | object =>
      have hblanks := hws.skipBlanks (b := Frame.object.opening) (by decide)
        (ws' ++ Frame.object.closing :: (w ++ rest))
      have hturn := nextKey_closing hws' true (w ++ rest)
      rw [skipFrom]
      split <;> grind [h.run rest hrest, Frame.opening]

theorem firstItem (hws : Blanks ws) (hsep : Between true sep) (hstart : StartsValue w)
    (h : Skips (.array :: stack) .before w) :
    Skips stack .before (ws ++ Frame.array.opening :: (sep ++ w)) := by
  constructor
  case closes =>
    exact (hws.passes _).append (Leads.cons (Wire.Nesting.step_opening .array stack)
      ((hsep.passes _).append h.closes))
  case follows =>
    intro h
    cases h
  case run =>
    intro rest hrest
    rw [List.append_assoc, List.cons_append, List.append_assoc]
    have hblanks := hws.skipBlanks (b := Frame.array.opening) (by decide) (sep ++ (w ++ rest))
    have hturn := nextItem_between hsep (hstart.append rest)
    rw [skipFrom]
    split <;> grind [h.run rest hrest, Frame.opening]

theorem firstEntry (hws : Blanks ws) (hsep : Between true sep) (hkey : Passes .inString key .outside)
    (hskip : ∀ rest, skipKey (key ++ rest) = .ok rest) (h : Skips (.object :: stack) .before w) :
    Skips stack .before (ws ++ Frame.object.opening :: (sep ++ Ascii.quote :: (key ++ w))) := by
  constructor
  case closes =>
    exact (hws.passes _).append (Leads.cons (Wire.Nesting.step_opening .object stack)
      ((hsep.passes _).append ((Passes.string hkey _).append h.closes)))
  case follows =>
    intro h
    cases h
  case run =>
    intro rest hrest
    rw [List.append_assoc, List.cons_append, List.append_assoc, List.cons_append, List.append_assoc]
    have hblanks := hws.skipBlanks (b := Frame.object.opening) (by decide)
      (sep ++ Ascii.quote :: (key ++ (w ++ rest)))
    have hturn := nextKey_between hsep (key ++ (w ++ rest))
    have hkey := hskip (w ++ rest)
    rw [skipFrom]
    split <;> grind [h.run rest hrest, Frame.opening]

theorem scalar {v : Bytes} (hws : Blanks ws) (hb : Lexeme.isSpace b = false)
    (hbracket : b ≠ Ascii.openBracket) (hbrace : b ≠ Ascii.openBrace)
    (hv : Passes .outside (b :: v) .outside)
    (hskip : ∀ rest, MayFollow rest → skipScalar b (v ++ rest) = .ok rest)
    (h : Skips stack .after w) : Skips stack .before (ws ++ b :: (v ++ w)) := by
  constructor
  case closes =>
    exact (hws.passes _).append ((hv _).append h.closes)
  case follows =>
    intro h
    cases h
  case run =>
    intro rest hrest
    rw [List.append_assoc, List.cons_append, List.append_assoc]
    have hblanks := hws.skipBlanks hb (v ++ (w ++ rest))
    have hscalar := hskip (w ++ rest) ((h.follows rfl).append hrest)
    rw [skipFrom]
    split <;> grind [h.run rest hrest]

end Skips

/-- **Stepping over reaches** to where the last of the open brackets is closed. -/
theorem skipFrom_extent {stack : List Frame} {state : SkipState} (h : skipFrom stack state s = .ok r) :
    ∃ w, s = w ++ r ∧ Skips stack state w := by
  fun_induction skipFrom stack state s with
  | case1 s =>
    cases h
    exact ⟨[], rfl, Skips.done⟩
  | case3 s outer t hturn hshorter ih =>
    obtain ⟨ws, hws, rfl⟩ := exists_of_nextItem_closed hturn
    obtain ⟨w, rfl, hw⟩ := ih h
    refine ⟨_, ?_, Skips.closed .array hws hw⟩
    rw [List.append_assoc, List.cons_append]
  | case4 s outer t hturn hshorter ih =>
    obtain ⟨sep, hsep, rfl, hstart⟩ := exists_of_nextItem_more hturn
    obtain ⟨w, rfl, hw⟩ := ih h
    exact ⟨_, (List.append_assoc ..).symm, Skips.item hsep (hstart.of_append hw.ne_nil) hw⟩
  | case6 s outer t hturn hshorter ih =>
    obtain ⟨ws, hws, rfl⟩ := exists_of_nextKey_closed hturn
    obtain ⟨w, rfl, hw⟩ := ih h
    refine ⟨_, ?_, Skips.closed .object hws hw⟩
    rw [List.append_assoc, List.cons_append]
  | case8 s outer t hturn hshorter u hkey hshorter' ih =>
    obtain ⟨sep, hsep, rfl⟩ := exists_of_nextKey_more hturn
    obtain ⟨key, rfl, hpasses, hskip⟩ := skipKey_extent hkey
    obtain ⟨w, rfl, hw⟩ := ih h
    refine ⟨_, ?_, Skips.entry hsep hpasses hskip hw⟩
    simp only [List.append_assoc, List.cons_append]
  | case11 s stack t u hturn hshorter hblanks hshorter' ih =>
    obtain ⟨ws, hws, rfl, -⟩ := exists_blanks hblanks
    obtain ⟨ws', hws', rfl⟩ := exists_of_nextItem_closed hturn
    obtain ⟨w, rfl, hw⟩ := ih h
    refine ⟨_, ?_, Skips.empty .array hws hws' hw⟩
    simp only [List.append_assoc, List.cons_append, Frame.opening]
  | case12 s stack t u hturn hshorter hblanks hshorter' ih =>
    obtain ⟨ws, hws, rfl, -⟩ := exists_blanks hblanks
    obtain ⟨sep, hsep, rfl, hstart⟩ := exists_of_nextItem_more hturn
    obtain ⟨w, rfl, hw⟩ := ih h
    refine ⟨_, ?_, Skips.firstItem hws hsep (hstart.of_append hw.ne_nil) hw⟩
    simp only [List.append_assoc, List.cons_append, Frame.opening]
  | case14 s stack t u hturn hshorter hblanks hshorter' hne ih =>
    obtain ⟨ws, hws, rfl, -⟩ := exists_blanks hblanks
    obtain ⟨ws', hws', rfl⟩ := exists_of_nextKey_closed hturn
    obtain ⟨w, rfl, hw⟩ := ih h
    refine ⟨_, ?_, Skips.empty .object hws hws' hw⟩
    simp only [List.append_assoc, List.cons_append, Frame.opening]
  | case16 s stack t u hturn hshorter v hkey hshorter' hblanks hshorter'' hne ih =>
    obtain ⟨ws, hws, rfl, -⟩ := exists_blanks hblanks
    obtain ⟨sep, hsep, rfl⟩ := exists_of_nextKey_more hturn
    obtain ⟨key, rfl, hpasses, hskip⟩ := skipKey_extent hkey
    obtain ⟨w, rfl, hw⟩ := ih h
    refine ⟨_, ?_, Skips.firstEntry hws hsep hpasses hskip hw⟩
    simp only [List.append_assoc, List.cons_append, Frame.opening]
  | case18 s stack b t hblanks hshorter hbracket hbrace u hscalar hshorter' ih =>
    obtain ⟨ws, hws, rfl, hb⟩ := exists_blanks hblanks
    obtain ⟨v, rfl, hv, hskip⟩ := skipScalar_extent hscalar
    obtain ⟨w, rfl, hw⟩ := ih h
    refine ⟨_, ?_, Skips.scalar hws hb hbracket hbrace hv hskip hw⟩
    simp only [List.append_assoc, List.cons_append]
  | _ => cases h

end TopicRelay.Json
