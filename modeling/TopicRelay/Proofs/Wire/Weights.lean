/-
  How long the text of an element is.

  strings     a byte is written as at most six (`length_quoted_le`), and one that needs no escape as
              itself
  payloads    each three bytes are written as four symbols, and none of them needs an escape
              (`length_encode`, `escape_of_mem_encode`)
  elements    so the length of an element is that of its frame and its key, and for each message that
              of its frame, its id and a third more than its payload (`length_print_ofMessages`)

  An element without messages has only its key to be long by, and a key that is valid is short.
-/
import Mathlib.Algebra.Ring.Nat
import TopicRelay.Proofs.Base64
import TopicRelay.Proofs.Json.Values
import TopicRelay.Wire.Decoder

namespace TopicRelay

/-! ## Payloads -/

namespace Base64

theorem length_group (a b c : UInt8) : (group a b c).length = 4 := rfl

/-- Four symbols for each three bytes, the last of which may be missing. -/
theorem length_encode (bs : Bytes) : (encode bs).length = 4 * ((bs.length + 2) / 3) := by
  induction bs using group_induction with
  | none => rfl
  | one a =>
    show (lastGroup [a]).length = 4 * ((1 + 2) / 3)
    rfl
  | two a b =>
    show (lastGroup [a, b]).length = 4 * ((2 + 2) / 3)
    rfl
  | more a b c rest ih =>
    rw [encode_group, List.length_append, length_group, ih]
    simp only [List.length_cons]
    omega

end Base64

namespace Json.Printer

open Base64 (symbol)

theorem escape_symbol : ∀ v < 64, escape (symbol v) = [symbol v] := by decide

theorem escape_equals : escape Ascii.equals = [Ascii.equals] := by decide

/-- The text of a payload needs no escapes. -/
theorem escape_of_mem_encode (bs : Bytes) : ∀ b ∈ Base64.encode bs, escape b = [b] := by
  induction bs using Base64.group_induction with
  | none => exact fun b hb => absurd hb List.not_mem_nil
  | one a =>
    have ha := a.toNat_lt
    show ∀ b ∈ Base64.lastGroup [a], _
    simp only [Base64.lastGroup, List.forall_mem_cons]
    exact ⟨escape_symbol _ (Base64.div_four_lt a), escape_symbol _ (by omega), escape_equals,
      escape_equals, fun _ h => absurd h List.not_mem_nil⟩
  | two a b =>
    show ∀ s ∈ Base64.lastGroup [a, b], _
    simp only [Base64.lastGroup, List.forall_mem_cons]
    exact ⟨escape_symbol _ (Base64.div_four_lt a), escape_symbol _ (Base64.mod_four_lt a b),
      escape_symbol _ (by omega), escape_equals, fun _ h => absurd h List.not_mem_nil⟩
  | more a b c rest ih =>
    intro s hs
    rw [Base64.encode_group, List.mem_append] at hs
    rcases hs with hs | hs
    · revert s
      simp only [Base64.group, List.forall_mem_cons]
      exact ⟨escape_symbol _ (Base64.div_four_lt a), escape_symbol _ (Base64.mod_four_lt a b),
        escape_symbol _ (Base64.mod_sixteen_lt b c), escape_symbol _ (Nat.mod_lt _ (by omega)),
        fun _ h => absurd h List.not_mem_nil⟩
    · exact ih s hs

/-! ## Strings -/

theorem length_quoted (contents : Bytes) :
    (quoted contents).length = (contents.flatMap escape).length + 2 := by
  rw [quoted, List.length_cons, List.length_append, List.length_singleton]

theorem length_quoted_encode (bs : Bytes) :
    (quoted (Base64.encode bs)).length = 4 * ((bs.length + 2) / 3) + 2 := by
  have hplain : (Base64.encode bs).flatMap escape = Base64.encode bs := by
    rw [List.flatMap_def, List.map_congr_left (escape_of_mem_encode bs)]
    exact List.flatMap_singleton' _
  rw [length_quoted, hplain, Base64.length_encode]

theorem length_escape_le (b : UInt8) : (escape b).length ≤ 6 := by
  rw [escape]
  split
  · exact (by decide : 2 ≤ 6)
  · split
    · exact Nat.le_refl 6
    · exact (by decide : 1 ≤ 6)

/-- A byte of a string is written as six at most. -/
theorem length_quoted_le (contents : Bytes) : (quoted contents).length ≤ 6 * contents.length + 2 := by
  have hescaped : (contents.flatMap escape).length ≤ 6 * contents.length := by
    induction contents with
    | nil => exact Nat.le_refl 0
    | cons b contents ih =>
      have hb := length_escape_le b
      rw [List.flatMap_cons, List.length_append, List.length_cons]
      omega
  rw [length_quoted]
  omega

theorem length_text_append_le (s t : String) :
    (text (s ++ t)).length ≤ 6 * (Text.Utf8.length s + Text.Utf8.length t) + 2 := by
  have hlength : (Text.Utf8.encode (s ++ t)).length = Text.Utf8.length s + Text.Utf8.length t := by
    rw [Text.Utf8.encode, String.toList_append, List.flatMap_append, List.length_append]
    rfl
  rw [← hlength]
  exact length_quoted_le _

/-! ## Lists -/

theorem length_commaSeparated_cons (item : Bytes) (items : List Bytes) :
    (commaSeparated (item :: items)).length
      = item.length + (items.map fun item => item.length + 1).sum := by
  rw [commaSeparated_cons, List.length_append, List.length_flatMap]
  rfl

end Json.Printer

/-! ## Elements -/

namespace Wire

open Json

/-- The length of a message in an element, and of what divides it from the next one. -/
def messageWeight (m : Message) : Nat :=
  21 + (Printer.text m.id).length + 4 * ((m.payload.length + 2) / 3)

/-- The length of an element with messages of a key. -/
def batchWeight (key : TopicKey) (ms : List Message) : Nat :=
  23 + (Printer.text key).length + (ms.map messageWeight).sum

theorem length_printMessage (m : Message) : (printMessage m).length + 1 = messageWeight m := by
  have hid : (Printer.text "id").length = 4 := by decide +kernel
  have hpayload : (Printer.text "payload").length = 9 := by decide +kernel
  simp only [printMessage, Printer.object, Printer.entry, List.map_cons, List.map_nil,
    Printer.commaSeparated, List.length_cons, List.length_append, List.length_nil,
    Printer.length_quoted_encode, hid, hpayload, messageWeight]
  omega

namespace TopicMessages

/-- The frame of an element without an error. -/
theorem length_print_of_messages (key : TopicKey) (ms : List Message) :
    (ofMessages key ms).print.length
      = 22 + (Printer.text key).length + (Printer.array (ms.map printMessage)).length := by
  have htopic : (Printer.text "topic").length = 7 := by decide +kernel
  have hmessages : (Printer.text "messages").length = 10 := by decide +kernel
  simp only [ofMessages, print, Option.map_none, Option.toList_none, List.append_nil, Printer.object,
    Printer.entry, List.map_cons, List.map_nil, Printer.commaSeparated, List.length_cons,
    List.length_append, List.length_nil, htopic, hmessages]
  omega

/-- **The length of an element**, if there is a message in it. -/
theorem length_print_ofMessages (key : TopicKey) {ms : List Message} (hne : ms ≠ []) :
    (ofMessages key ms).print.length = batchWeight key ms := by
  obtain ⟨m, ms, rfl⟩ := List.exists_cons_of_ne_nil hne
  have hrest : (ms.map printMessage).map (fun item => item.length + 1) = ms.map messageWeight := by
    rw [List.map_map]
    exact List.map_congr_left fun m _ => length_printMessage m
  have hfirst := length_printMessage m
  rw [length_print_of_messages, Printer.array, List.map_cons, List.length_cons, List.length_append,
    List.length_singleton, Printer.length_commaSeparated_cons, hrest, batchWeight, List.map_cons,
    List.sum_cons]
  omega

end TopicMessages

/-- A valid key is short. -/
theorem TopicKey.length_le {key : TopicKey} (h : TopicKey.isValid key = true) :
    Text.Utf8.length key ≤ TopicKey.maxLength := by
  simp only [TopicKey.isValid, Bool.and_eq_true, decide_eq_true_eq] at h
  exact h.1.1

namespace TopicMessages

theorem length_print_empty_le {key : TopicKey} (h : TopicKey.isValid key = true) :
    (empty key).print.length ≤ Decoder.defaultLimit := by
  have hkey : Text.Utf8.length key ≤ 255 := TopicKey.length_le h
  have htext : (Printer.text key).length ≤ 6 * Text.Utf8.length key + 2 := Printer.length_quoted_le _
  have harray : (Printer.array []).length = 2 := rfl
  rw [empty, length_print_of_messages, List.map_nil, harray, Decoder.defaultLimit]
  omega

theorem length_print_notFound_le {key : TopicKey} (h : TopicKey.isValid key = true) :
    (notFound key).print.length ≤ Decoder.defaultLimit := by
  have hkey : Text.Utf8.length key ≤ 255 := TopicKey.length_le h
  have htext : (Printer.text key).length ≤ 6 * Text.Utf8.length key + 2 := Printer.length_quoted_le _
  have hreason := Printer.length_text_append_le "No topic found for " key
  have hwords : Text.Utf8.length "No topic found for " = 19 := by decide +kernel
  have htopic : (Printer.text "topic").length = 7 := by decide +kernel
  have hmessages : (Printer.text "messages").length = 10 := by decide +kernel
  have herror : (Printer.text "error").length = 7 := by decide +kernel
  have hcode : (Printer.text "code").length = 6 := by decide +kernel
  have hmessage : (Printer.text "message").length = 9 := by decide +kernel
  have htwo : (Printer.natural ErrorCode.topicNotFound.toNat).length = 1 := by decide +kernel
  have harray : (Printer.array []).length = 2 := rfl
  simp only [notFound, print, TopicError.print, Option.map_some, Option.toList_some, List.cons_append,
    List.nil_append, Printer.object, Printer.entry, List.map_cons, List.map_nil,
    Printer.commaSeparated, List.length_cons, List.length_append, List.length_nil, htopic, hmessages,
    herror, hcode, hmessage, htwo, harray, Decoder.defaultLimit]
  omega

end TopicMessages
end Wire
end TopicRelay
