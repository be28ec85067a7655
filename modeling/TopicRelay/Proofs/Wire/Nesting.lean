/-
  Brackets that match by kind.

  The scan of an element only counts brackets.  Here is the same scan with the open brackets kept on
  a stack, so that a bracket closes one of its own kind or none:

    `Leads`    bytes that take the scan from one stack and mode to another
    `Passes`   bytes that change the mode only, whichever brackets are open
    `Matched`  bytes that open and close their own brackets, each by its kind

  Whatever the scan with a stack goes over, the counting scan goes over as well, at a depth that is
  the height of the stack (`Leads.scanAll`).  It never takes away what was on the stack before
  (`Leads.under`), so bytes that pass are level (`Passes.level`).
-/
import TopicRelay.Json.Skip
import TopicRelay.Proofs.Wire.Brackets

namespace TopicRelay

open Json

/-! ## Brackets of a kind -/

namespace Json.Frame

/-- The bracket that opens. -/
def opening : Frame → UInt8
  | .array => Ascii.openBracket
  | .object => Ascii.openBrace

/-- The bracket that closes. -/
def closing : Frame → UInt8
  | .array => Ascii.closeBracket
  | .object => Ascii.closeBrace

end Json.Frame

namespace Wire

/-- Where the scan stands: the brackets that are open, the innermost first, and the mode. -/
abbrev Nesting := List Frame × ScanMode

namespace Nesting

/-- One more byte.  There is no next place if it closes a bracket of the other kind, or none. -/
def step (b : UInt8) (stack : List Frame) : ScanMode → Option Nesting
  | .escaped => some (stack, .inString)
  | .inString =>
    if b = Ascii.backslash then some (stack, .escaped)
    else if b = Ascii.quote then some (stack, .outside)
    else some (stack, .inString)
  | .outside =>
    if b = Ascii.quote then some (stack, .inString)
    else if b = Ascii.openBrace then some (.object :: stack, .outside)
    else if b = Ascii.openBracket then some (.array :: stack, .outside)
    else if b = Ascii.closeBrace then
      if stack.head? = some .object then some (stack.tail, .outside) else none
    else if b = Ascii.closeBracket then
      if stack.head? = some .array then some (stack.tail, .outside) else none
    else some (stack, .outside)

/-- Several more bytes. -/
def run : Bytes → Nesting → Option Nesting
  | [], n => some n
  | b :: bs, n => (step b n.1 n.2).bind (run bs)

end Nesting

open Nesting

/-- Bytes that take the scan from one place to another. -/
def Leads (n : Nesting) (bs : Bytes) (n' : Nesting) : Prop := run bs n = some n'

/-- Bytes that open and close their own brackets, each by its kind. -/
def Matched (bs : Bytes) : Prop := Leads ([], .outside) bs ([], .outside)

instance (bs : Bytes) : Decidable (Matched bs) :=
  inferInstanceAs (Decidable (run bs ([], .outside) = some ([], .outside)))

variable {n n' n'' : Nesting} {stack stack' : List Frame} {mode mode' : ScanMode} {b : UInt8}
  {bs cs : Bytes}

namespace Leads

theorem nil (n : Nesting) : Leads n [] n := rfl

theorem cons (h : step b n.1 n.2 = some n') (rest : Leads n' bs n'') : Leads n (b :: bs) n'' := by
  show (step b n.1 n.2).bind (run bs) = some n''
  rw [h]
  exact rest

/-- The first byte goes to some place, and the others on from there. -/
theorem exists_of_cons (h : Leads n (b :: bs) n'') :
    ∃ n', step b n.1 n.2 = some n' ∧ Leads n' bs n'' := Option.bind_eq_some_iff.mp h

theorem append (h : Leads n bs n') (rest : Leads n' cs n'') : Leads n (bs ++ cs) n'' := by
  induction bs generalizing n with
  | nil =>
    cases h
    exact rest
  | cons b bs ih =>
    obtain ⟨next, hstep, htail⟩ := h.exists_of_cons
    exact cons hstep (ih htail)

/-- Bytes can be gone over in two parts. -/
theorem split (h : Leads n (bs ++ cs) n'') : ∃ n', Leads n bs n' ∧ Leads n' cs n'' := by
  induction bs generalizing n with
  | nil => exact ⟨n, nil n, h⟩
  | cons b bs ih =>
    obtain ⟨next, hstep, htail⟩ := exists_of_cons h
    obtain ⟨middle, hfront, hbehind⟩ := ih htail
    exact ⟨middle, cons hstep hfront, hbehind⟩

end Leads

/-! ## Counting -/

/-- The depth of the counting scan is the height of the stack. -/
theorem Nesting.scan_of_step (h : step b stack mode = some (stack', mode')) :
    Partial.scan b stack.length mode = (stack'.length, mode') := by
  cases mode with
  | escaped =>
    cases h
    rfl
  | inString => grind [step, Partial.scan]
  | outside =>
    have htail : stack.tail.length = stack.length - 1 := List.length_tail
    grind [step, Partial.scan]

theorem Leads.scanAll (h : Leads n bs n') :
    Partial.scanAll bs (n.1.length, n.2) = (n'.1.length, n'.2) := by
  induction bs generalizing n with
  | nil =>
    cases h
    rfl
  | cons b bs ih =>
    obtain ⟨next, hstep, htail⟩ := h.exists_of_cons
    show Partial.scanAll bs (Partial.scan b n.1.length n.2) = _
    rw [scan_of_step hstep]
    exact ih htail

theorem Nesting.step_opening (kind : Frame) (stack : List Frame) :
    step kind.opening stack .outside = some (kind :: stack, .outside) := by
  cases kind <;> rfl

theorem Nesting.step_closing (kind : Frame) (stack : List Frame) :
    step kind.closing (kind :: stack) .outside = some (stack, .outside) := by
  cases kind <;> rfl

/-- Brackets further out make no difference. -/
theorem Nesting.step_append (h : step b stack mode = some (stack', mode')) (outer : List Frame) :
    step b (stack ++ outer) mode = some (stack' ++ outer, mode') := by
  cases mode with
  | escaped =>
    cases h
    rfl
  | inString => grind [step]
  | outside =>
    cases stack with
    | nil => grind [step]
    | cons f stack => grind [step]

/-- With more brackets open, bytes lead to where they led, with those still open. -/
theorem Leads.under (h : Leads n bs n') (outer : List Frame) :
    Leads (n.1 ++ outer, n.2) bs (n'.1 ++ outer, n'.2) := by
  induction bs generalizing n with
  | nil =>
    cases h
    exact nil _
  | cons b bs ih =>
    obtain ⟨next, hstep, htail⟩ := h.exists_of_cons
    exact cons (step_append hstep outer) (ih htail)

/-! ## Bytes that pass -/

/-- Bytes that change the mode only, whichever brackets are open. -/
def Passes (mode : ScanMode) (bs : Bytes) (mode' : ScanMode) : Prop :=
  ∀ stack, Leads (stack, mode) bs (stack, mode')

/-- What matches by itself passes, whichever brackets are open around it. -/
theorem Matched.passes (h : Matched bs) : Passes .outside bs .outside := h.under

namespace Passes

variable {mode'' : ScanMode}

theorem nil (mode : ScanMode) : Passes mode [] mode := fun _ => Leads.nil _

theorem append (h : Passes mode bs mode') (rest : Passes mode' cs mode'') :
    Passes mode (bs ++ cs) mode'' := fun stack => (h stack).append (rest stack)

theorem cons (h : ∀ stack, step b stack mode = some (stack, mode')) (rest : Passes mode' bs mode'') :
    Passes mode (b :: bs) mode'' := fun stack => Leads.cons (h stack) (rest stack)

theorem matched (h : Passes .outside bs .outside) : Matched bs := h []

/-- **Bytes that pass are level**: counted, they lead back to the same depth, and never below it. -/
theorem level (h : Passes mode bs mode) : Partial.Level mode bs := by
  refine ⟨fun d => ?_, fun d a ha => ?_⟩
  · have hscan := (h (List.replicate d .array)).scanAll
    rw [List.length_replicate] at hscan
    exact hscan
  · obtain ⟨rest, rfl⟩ := ha
    obtain ⟨middle, hfront, -⟩ := (h []).split
    have hscan := (hfront.under (List.replicate d .array)).scanAll
    rw [List.nil_append, List.length_append, List.length_replicate] at hscan
    rw [hscan]
    exact Nat.le_add_left _ _

/-! ### Outside of strings -/

/-- Whether a byte means nothing to the scan outside of strings. -/
def isPlain (b : UInt8) : Bool :=
  b != Ascii.quote && b != Ascii.openBrace && b != Ascii.openBracket && b != Ascii.closeBrace
    && b != Ascii.closeBracket

theorem isPlain_of_ne (hq : b ≠ Ascii.quote) (hob : b ≠ Ascii.openBrace) (hos : b ≠ Ascii.openBracket)
    (hcb : b ≠ Ascii.closeBrace) (hcs : b ≠ Ascii.closeBracket) : isPlain b = true := by
  simp only [isPlain, Bool.and_eq_true, bne_iff_ne]
  exact ⟨⟨⟨⟨hq, hob⟩, hos⟩, hcb⟩, hcs⟩

theorem plain (h : ∀ b ∈ bs, isPlain b = true) : Passes .outside bs .outside := by
  induction bs with
  | nil => exact nil _
  | cons b bs ih =>
    have hb : isPlain b = true := h b List.mem_cons_self
    refine cons (fun stack => ?_) (ih fun c hc => h c (List.mem_cons_of_mem _ hc))
    simp only [isPlain, Bool.and_eq_true, bne_iff_ne] at hb
    obtain ⟨⟨⟨⟨hq, hob⟩, hos⟩, hcb⟩, hcs⟩ := hb
    rw [step, if_neg hq, if_neg hob, if_neg hos, if_neg hcb, if_neg hcs]

/-- Between brackets of one kind. -/
theorem nested (kind : Frame) (h : Passes .outside bs .outside) :
    Passes .outside (kind.opening :: (bs ++ [kind.closing])) .outside := by
  intro stack
  have hinner := (h (kind :: stack)).append (Leads.cons (step_closing kind stack) (Leads.nil _))
  exact Leads.cons (step_opening kind stack) hinner

/-! ### In strings -/

/-- A string, from its opening quote on. -/
theorem string (h : Passes .inString bs mode') : Passes .outside (Ascii.quote :: bs) mode' :=
  cons (fun _ => rfl) h

/-- A byte of a string that stands for itself. -/
theorem inString (hq : b ≠ Ascii.quote) (hb : b ≠ Ascii.backslash) (h : Passes .inString bs mode') :
    Passes .inString (b :: bs) mode' :=
  cons (fun _ => by rw [step, if_neg hb, if_neg hq]) h

/-- The byte after a backslash, whatever it is. -/
theorem escaped (b : UInt8) (h : Passes .inString bs mode') : Passes .escaped (b :: bs) mode' :=
  cons (fun _ => rfl) h

theorem backslash (h : Passes .escaped bs mode') :
    Passes .inString (Ascii.backslash :: bs) mode' := cons (fun _ => rfl) h

theorem closingQuote : Passes .inString [Ascii.quote] .outside := cons (fun _ => rfl) (nil _)

end Passes
end Wire
end TopicRelay
