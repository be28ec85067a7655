/-
  The scan of an element finds the end of every JSON object.

  specification   the grammar of JSON texts, each nonterminal with the texts it derives (`Derives`):
                  blanks, nesting, numbers, and strings with all their escapes
  grammar         whatever is derived passes: it leaves no string and no bracket open
                  (`Derives.passes`), one case for each rule
  string          an escape is a backslash and a byte that is not looked at, so the quote that ends a
                  string is the first one that no backslash takes (`Contents.passes`)
  scan            hence the count is first back at zero with the brace that closes the object
                  (`Partial.object_ends`)

  The grammar is that of texts, and is not taken from the reader: what the reader refuses for its
  depth, a number out of range or a lone surrogate, is well-formed here.
-/
import Mathlib.Data.List.Basic
import TopicRelay.Proofs.Wire.Cursor

namespace TopicRelay

open Json Wire

namespace Json.Grammar

/-! ## Strings -/

/-- What stands between the quotes of a string. -/
inductive Contents : Bytes → Prop where
  | nil : Contents []
  /-- Any byte but a control character, a quote and a backslash. -/
  | byte {b : UInt8} {rest : Bytes} (control : 0x20 ≤ b) (quote : b ≠ Ascii.quote)
      (backslash : b ≠ Ascii.backslash) (behind : Contents rest) : Contents (b :: rest)
  /-- A quote, a backslash or a slash, or a letter for a control character. -/
  | letter {b : UInt8} {rest : Bytes} (letter : b ∈ Ascii.bytes "\"\\/bfnrt")
      (behind : Contents rest) : Contents (Ascii.backslash :: b :: rest)
  /-- The letter u, and four hexadecimal digits. -/
  | unicode {ds rest : Bytes} (four : ds.length = 4)
      (digits : ∀ d ∈ ds, (Ascii.hexValue? d).isSome = true) (behind : Contents rest) :
      Contents (Ascii.backslash :: 0x75 :: (ds ++ rest))

/-- A hexadecimal digit stands for itself in a string. -/
theorem Contents.digits {ds rest : Bytes} (h : ∀ d ∈ ds, (Ascii.hexValue? d).isSome = true)
    (hrest : Passes .inString rest .outside) : Passes .inString (ds ++ rest) .outside := by
  induction ds with
  | nil => exact hrest
  | cons d ds ih =>
    obtain ⟨n, hn⟩ := Option.isSome_iff_exists.mp (h d List.mem_cons_self)
    obtain ⟨hquote, hbackslash⟩ := Lexeme.hexValue_ne hn
    exact (ih fun d hd => h d (List.mem_cons_of_mem _ hd)).inString hquote hbackslash

/-- **The closing quote ends the string**, and nothing before it does. -/
theorem Contents.passes {c : Bytes} (h : Contents c) :
    Passes .inString (c ++ [Ascii.quote]) .outside := by
  induction h with
  | nil => exact .closingQuote
  | byte _ hquote hbackslash _ ih => exact ih.inString hquote hbackslash
  | letter _ _ ih => exact .backslash (ih.escaped _)
  | unicode _ hdigits _ ih =>
    rw [List.cons_append, List.cons_append, List.append_assoc]
    exact .backslash ((Contents.digits hdigits ih).escaped _)

/-! ## Numbers -/

/-- Digits, at least one. -/
def Digits (w : Bytes) : Prop := w ≠ [] ∧ ∀ b ∈ w, Ascii.isDigit b = true

/-- A dot and digits, or nothing. -/
def Fraction (w : Bytes) : Prop := w = [] ∨ ∃ ds, w = Ascii.dot :: ds ∧ Digits ds

/-- A letter, a sign or none, and digits; or nothing. -/
def Exponent (w : Bytes) : Prop :=
  w = [] ∨ ∃ mark sign ds, w = mark :: (sign ++ ds) ∧ Lexeme.isExponentMark mark = true
    ∧ sign ∈ [[], [Ascii.plus], [Ascii.minus]] ∧ Digits ds

/-- A number: a sign or none, digits without a zero in front of others, a fraction, an exponent. -/
def Number (w : Bytes) : Prop :=
  ∃ sign whole fraction exponent, w = sign ++ (whole ++ (fraction ++ exponent))
    ∧ sign ∈ [[], [Ascii.minus]] ∧ Digits whole ∧ (whole.head? = some Ascii.zero → whole.length = 1)
    ∧ Fraction fraction ∧ Exponent exponent

theorem Digits.plain {w : Bytes} (h : Digits w) : Lexeme.Plain w := fun b hb =>
  Lexeme.isPlain_of_isDigit (h.2 b hb)

theorem Fraction.plain {w : Bytes} (h : Fraction w) : Lexeme.Plain w := by
  rcases h with rfl | ⟨ds, rfl, hds⟩
  · exact .nil
  · exact .cons (by decide) hds.plain

theorem Exponent.plain {w : Bytes} (h : Exponent w) : Lexeme.Plain w := by
  rcases h with rfl | ⟨mark, sign, ds, rfl, hmark, hsign, hds⟩
  · exact .nil
  · refine .cons (Lexeme.isPlain_of_isExponentMark hmark) (.append ?_ hds.plain)
    simp only [List.mem_cons, List.not_mem_nil, or_false] at hsign
    rcases hsign with rfl | rfl | rfl
    · exact .nil
    · exact .cons (by decide) .nil
    · exact .cons (by decide) .nil

/-- The bytes of a number mean nothing to the scan. -/
theorem Number.plain {w : Bytes} (h : Number w) : Lexeme.Plain w := by
  obtain ⟨sign, whole, fraction, exponent, rfl, hsign, hwhole, -, hfraction, hexponent⟩ := h
  refine .append ?_ (hwhole.plain.append (hfraction.plain.append hexponent.plain))
  simp only [List.mem_cons, List.not_mem_nil, or_false] at hsign
  rcases hsign with rfl | rfl
  · exact .nil
  · exact .cons (by decide) .nil

/-! ## Values -/

/-- What a text may be derived as. -/
inductive Nonterminal where
  | value
  /-- An array or an object. -/
  | composite (kind : Frame)
  /-- What stands between two commas: a value, or in an object a key and a value. -/
  | member (kind : Frame)
  /-- What stands between the brackets, if there is anything. -/
  | members (kind : Frame)

/-- The rules of the grammar. -/
inductive Derives : Nonterminal → Bytes → Prop where
  | word {w : Bytes} (word : w ∈ [Ascii.bytes "null", Ascii.bytes "true", Ascii.bytes "false"]) :
      Derives .value w
  | number {w : Bytes} (number : Number w) : Derives .value w
  | string {c : Bytes} (contents : Contents c) :
      Derives .value (Ascii.quote :: (c ++ [Ascii.quote]))
  | nested {kind : Frame} {w : Bytes} (composite : Derives (.composite kind) w) : Derives .value w
  | empty {kind : Frame} {ws : Bytes} (blanks : Blanks ws) :
      Derives (.composite kind) (kind.opening :: (ws ++ [kind.closing]))
  | full {kind : Frame} {w : Bytes} (members : Derives (.members kind) w) :
      Derives (.composite kind) (kind.opening :: (w ++ [kind.closing]))
  | last {kind : Frame} {w : Bytes} (member : Derives (.member kind) w) : Derives (.members kind) w
  | more {kind : Frame} {w rest : Bytes} (member : Derives (.member kind) w)
      (behind : Derives (.members kind) rest) : Derives (.members kind) (w ++ Ascii.comma :: rest)
  | item {ws v ws' : Bytes} (before : Blanks ws) (value : Derives .value v) (behind : Blanks ws') :
      Derives (.member .array) (ws ++ (v ++ ws'))
  | entry {ws c ws₁ ws₂ v ws' : Bytes} (before : Blanks ws) (key : Contents c) (between : Blanks ws₁)
      (between' : Blanks ws₂) (value : Derives .value v) (behind : Blanks ws') :
      Derives (.member .object) (ws ++ (Ascii.quote :: (c ++ [Ascii.quote])
        ++ (ws₁ ++ (Ascii.colon :: (ws₂ ++ (v ++ ws'))))))

/-- **What is derived passes**, to any depth. -/
theorem Derives.passes {n : Nonterminal} {w : Bytes} (h : Derives n w) :
    Passes .outside w .outside := by
  have hcolon : Passes .outside [Ascii.colon] .outside := .cons (fun _ => rfl) (.nil _)
  have hcomma : Passes .outside [Ascii.comma] .outside := .cons (fun _ => rfl) (.nil _)
  induction h with
  | word hword =>
    simp only [List.mem_cons, List.not_mem_nil, or_false] at hword
    rcases hword with rfl | rfl | rfl <;> exact .plain (by decide +kernel)
  | number hnumber => exact .plain hnumber.plain
  | string hcontents => exact .string hcontents.passes
  | nested _ ih => exact ih
  | empty hblanks => exact .nested _ hblanks.passes
  | full _ ih => exact .nested _ ih
  | last _ ih => exact ih
  | more _ _ ih ihrest => exact ih.append (hcomma.append ihrest)
  | item hbefore _ hbehind ih => exact hbefore.passes.append (ih.append hbehind.passes)
  | entry hbefore hkey hbetween hbetween' _ hbehind ih =>
    have hvalue := hbetween'.passes.append (ih.append hbehind.passes)
    exact hbefore.passes.append
      ((Passes.string hkey.passes).append (hbetween.passes.append (hcolon.append hvalue)))

/-- An object is something between braces that passes. -/
theorem Derives.exists_inner {w : Bytes} (h : Derives (.composite .object) w) :
    ∃ inner, w = Ascii.openBrace :: (inner ++ [Ascii.closeBrace]) ∧ Passes .outside inner .outside := by
  cases h with
  | empty hblanks => exact ⟨_, rfl, hblanks.passes⟩
  | full members => exact ⟨_, rfl, members.passes⟩

end Json.Grammar

open Json.Grammar

namespace Wire.Partial

section Scan

variable {inner front rest : Bytes} {b : UInt8}

/-- Behind the opening brace of an object the scan is at its end with the last byte, and with no other. -/
theorem complete_iff_of_passes (h : Passes .outside inner .outside)
    (hsplit : inner ++ [Ascii.closeBrace] = front ++ b :: rest) :
    (after (front ++ [b])).isComplete = true ↔ rest = [] := by
  constructor
  · intro hcomplete
    have hprefix : front ++ [b] <+: inner ++ [Ascii.closeBrace] := by
      rw [hsplit, List.append_cons front b rest]
      exact List.prefix_append _ _
    rcases List.prefix_concat_iff.mp hprefix with hwhole | hinner
    · rw [hsplit, List.append_cons front b rest] at hwhole
      exact List.self_eq_append_right.mp hwhole
    · rw [unfinished_of_passes h _ hinner] at hcomplete
      cases hcomplete
  · rintro rfl
    rw [← hsplit]
    exact isComplete_closing h

/-- In front of any byte of it the scan is not at its end. -/
theorem open_of_passes (h : Passes .outside inner .outside)
    (hsplit : inner ++ [Ascii.closeBrace] = front ++ b :: rest) : (after front).isComplete = false := by
  rcases List.eq_nil_or_concat' front with rfl | ⟨front, a, rfl⟩
  · rfl
  · rw [List.append_assoc] at hsplit
    exact Bool.eq_false_iff.mpr fun hc => List.cons_ne_nil _ _ ((complete_iff_of_passes h hsplit).mp hc)

theorem mode_of_passes (h : Passes .outside inner .outside) :
    (after (inner ++ [Ascii.closeBrace])).mode = .outside := by
  have hscan := (foldl_push (inner ++ [Ascii.closeBrace]) start).2.2
  rw [scanAll_append] at hscan
  exact (Prod.mk.inj (hscan.trans (congrArg _ (h.level.back 1)))).2

end Scan

/-- **The end of an object.**  Behind its opening brace, at depth one and with no string open, the scan of
    an element is at its end with the last byte of the object and with none before it; no string is open
    then, and no backslash left over.  So the decoder takes all of the object for an element, and with a
    buffer it does the same. -/
theorem object_ends {w : Bytes} (h : Derives (.composite .object) w) :
    ∃ behind, w = Ascii.openBrace :: behind ∧ behind ≠ []
      ∧ (∀ front b rest, behind = front ++ b :: rest →
          (((after front).push b).isComplete = true ↔ rest = [])
          ∧ Decoder.effect (.inElement (after front)) b
            = (if rest = [] then .element (after behind) else .to (.inElement (after (front ++ [b]))))
          ∧ ∀ c : Cursor, (c.scanned (after front)).scanByte? b
            = some (rest.isEmpty, c.scanned (after (front ++ [b]))))
      ∧ (after []).depth = 1 ∧ (after []).mode = .outside
      ∧ (after behind).bytes = w ∧ (after behind).mode = .outside := by
  obtain ⟨inner, rfl, hpasses⟩ := h.exists_inner
  refine ⟨inner ++ [Ascii.closeBrace], rfl, List.concat_ne_nil _ _, fun front b rest hsplit => ?_,
    rfl, rfl, bytes_after _, mode_of_passes hpasses⟩
  have hdone := complete_iff_of_passes hpasses hsplit
  rw [after_concat, Decoder.effect, after_concat]
  refine ⟨hdone, ?_, fun c => ?_⟩
  · by_cases hrest : rest = []
    · rw [if_pos hrest, if_pos (hdone.mpr hrest), hsplit, hrest]
    · rw [if_neg hrest, if_neg fun hc => hrest (hdone.mp hc)]
  · have hlast : (after (front ++ [b])).isComplete = rest.isEmpty := by
      rw [Bool.eq_iff_iff, hdone, List.isEmpty_iff]
    rw [Cursor.scanByte?_scanned (open_of_passes hpasses hsplit), after_concat, hlast]

/-! ### An object full of brackets and escapes -/

namespace Thorny

/-- Behind a letter, three backslashes and a quote, and then a brace. -/
def key : Bytes := [0x61, Ascii.backslash, Ascii.backslash, Ascii.backslash, Ascii.quote, Ascii.closeBrace]

def number : Bytes := Ascii.bytes "-0.5e+1"

/-- A bracket by its digits, and one as it is. -/
def brackets : Bytes := [Ascii.backslash, 0x75, 0x30, 0x30, 0x35, 0x44, Ascii.openBracket]

def text : Bytes :=
  Ascii.bytes "\x7b \"a\\\\\\\"\x7d\":[-0.5e+1,\x7b\x7d ],\n\"\":\"\\u005D[\" \x7d"

theorem contents_key : Contents key :=
  .byte (by decide) (by decide) (by decide)
    (.letter (by decide +kernel) (.letter (by decide +kernel)
      (.byte (by decide) (by decide) (by decide) .nil)))

theorem contents_brackets : Contents brackets :=
  @Contents.unicode [0x30, 0x30, 0x35, 0x44] _ rfl (by decide +kernel)
    (.byte (by decide) (by decide) (by decide) .nil)

theorem number_number : Number number :=
  ⟨[Ascii.minus], [Ascii.zero], [Ascii.dot, 0x35], [0x65, Ascii.plus, 0x31], by decide +kernel,
    by decide, ⟨by decide, by decide +kernel⟩, fun _ => rfl, .inr ⟨[0x35], rfl, by decide, by decide +kernel⟩,
    .inr ⟨0x65, [Ascii.plus], [0x31], rfl, by decide, by decide, by decide, by decide +kernel⟩⟩

theorem derives_text : Derives (.composite .object) text := by
  have hnone : Blanks [] := by unfold Blanks; decide +kernel
  have hspace : Blanks [Ascii.space] := by unfold Blanks; decide +kernel
  have hline : Blanks [Ascii.lineFeed] := by unfold Blanks; decide +kernel
  have hempty := Derives.nested (@Derives.empty .object [] hnone)
  have hlist := Derives.nested (.full (.more (.item hnone (.number number_number) hnone)
    (.last (.item hnone hempty hspace))))
  have hfirst := Derives.entry hspace contents_key hnone hnone hlist hnone
  have hsecond := Derives.entry hline .nil hnone hnone (.string contents_brackets) hspace
  obtain ⟨w, hw, rfl⟩ : ∃ w, Derives (.composite .object) w ∧ w = text :=
    ⟨_, .full (.more hfirst (.last hsecond)), by decide +kernel⟩
  exact hw

/-- The brackets and braces in strings do not end it, nor does the brace of the inner object. -/
theorem text_ends : Derives (.composite .object) text
    ∧ (∀ front b rest, text.tail = front ++ b :: rest →
        (((after front).push b).isComplete = true ↔ rest = []))
    ∧ (after text.tail).bytes = text ∧ (after text.tail).mode = .outside := by
  obtain ⟨behind, hbehind, -, hends, -, -, hbytes, hmode⟩ := object_ends derives_text
  have htail : text.tail = behind := congrArg List.tail hbehind
  rw [htail]
  exact ⟨derives_text, fun front b rest hsplit => (hends front b rest hsplit).1, hbytes, hmode⟩

end Thorny
end Wire.Partial
end TopicRelay
