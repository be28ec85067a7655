/-
  A payload has one text, and a text has at most one payload.

      encode    bytes to text: three bytes make four symbols, and `=` fills up the last four
      decode?   text to bytes, or nothing

  specification   what was written is read back (`Reads.payload`), and what can be read was written
                  (`decode?_eq_some_iff`); a text with a flaw, which is one that looks like Base64 but
                  is not what would be written, is refused (`Flawed.decode?_eq_none`)
  the crux        the reader computes bytes from six bit values, and the writer these values from the
                  bytes.  Bits get lost on the way only where a value has bits that no byte takes, and
                  there the reader wants zeros (`encode_of_decodeLast`)
  flaws           a written text spells six bit values, so many that two `=` at most fill up the last
                  four, the last one with zeros where the `=` begin (`Spells`).  Each flaw goes against
                  one of these
-/
import TopicRelay.Proofs.Json.Values
import TopicRelay.Proofs.Text.Utf8Order
import TopicRelay.Text.Blank

namespace TopicRelay.Base64

open Text.Utf8 (toNat_byte)

/-! ## Symbols -/

/-- A byte is the symbol of the value that is read from it. -/
theorem symbol_of_value? {b : UInt8} {v : Nat} (h : value? b = some v) : v < 64 ∧ symbol v = b := by
  have key : ∀ n < 256, ∀ v ∈ value? (UInt8.ofNat n), v < 64 ∧ symbol v = UInt8.ofNat n := by
    decide +kernel
  have hb := key b.toNat b.toNat_lt v
  rw [UInt8.ofNat_toNat] at hb
  exact hb h

/-- No value is read from a byte that is not ASCII. -/
theorem value?_of_le {b : UInt8} (h : 0x80 ≤ b) : value? b = none := by
  have key : ∀ n < 256, 0x80 ≤ n → value? (UInt8.ofNat n) = none := by decide +kernel
  have hb := key b.toNat b.toNat_lt h
  rwa [UInt8.ofNat_toNat] at hb

/-! ## Groups -/

/-- The symbols of three bytes that were put together from four values. -/
theorem group_of_values {p q r s : Nat} (hp : p < 64) (hq : q < 64) (hr : r < 64) (hs : s < 64) :
    group (UInt8.ofNat (p * 4 + q / 16)) (UInt8.ofNat (q % 16 * 16 + r / 4))
      (UInt8.ofNat (r % 4 * 64 + s)) = [symbol p, symbol q, symbol r, symbol s] := by
  rw [group, toNat_byte (by omega), toNat_byte (by omega), toNat_byte (by omega),
    show (p * 4 + q / 16) / 4 = p by omega,
    show (p * 4 + q / 16) % 4 * 16 + (q % 16 * 16 + r / 4) / 16 = q by omega,
    show (q % 16 * 16 + r / 4) % 16 * 4 + (r % 4 * 64 + s) / 64 = r by omega,
    show (r % 4 * 64 + s) % 64 = s by omega]

/-- Four symbols in the middle of a text are what is written for the bytes that they give. -/
theorem group_of_decodeGroup {a b c d : UInt8} {bytes : Bytes}
    (h : decodeGroup a b c d = some bytes) :
    ∃ x y z, bytes = [x, y, z] ∧ group x y z = [a, b, c, d] := by
  simp only [decodeGroup, Option.bind_eq_bind, Option.bind_eq_some_iff, Option.pure_def,
    Option.some.injEq] at h
  obtain ⟨p, ha, q, hb, r, hc, s, hd, rfl⟩ := h
  obtain ⟨hp, rfl⟩ := symbol_of_value? ha
  obtain ⟨hq, rfl⟩ := symbol_of_value? hb
  obtain ⟨hr, rfl⟩ := symbol_of_value? hc
  obtain ⟨hs, rfl⟩ := symbol_of_value? hd
  exact ⟨_, _, _, rfl, group_of_values hp hq hr hs⟩

/-- **The last four symbols** are what is written for the bytes that they give. -/
theorem encode_of_decodeLast {a b c d : UInt8} {bytes : Bytes}
    (h : decodeLast a b c d = some bytes) : encode bytes = [a, b, c, d] := by
  simp only [decodeLast, Option.bind_eq_bind, Option.bind_eq_some_iff] at h
  obtain ⟨p, ha, q, hb, h⟩ := h
  obtain ⟨hp, rfl⟩ := symbol_of_value? ha
  obtain ⟨hq, rfl⟩ := symbol_of_value? hb
  split at h
  · next hc =>
    subst hc
    split at h
    · next hd =>
      obtain ⟨rfl, hzero⟩ := hd
      cases h
      show lastGroup [_] = _
      rw [lastGroup, toNat_byte (by omega), show (p * 4 + q / 16) / 4 = p by omega,
        show (p * 4 + q / 16) % 4 * 16 = q by omega]
    · cases h
  · simp only [Option.bind_eq_some_iff] at h
    obtain ⟨r, hc, h⟩ := h
    obtain ⟨hr, rfl⟩ := symbol_of_value? hc
    split at h
    · next hd =>
      subst hd
      split at h
      · next hzero =>
        cases h
        show lastGroup [_, _] = _
        rw [lastGroup, toNat_byte (by omega), toNat_byte (by omega),
          show (p * 4 + q / 16) / 4 = p by omega,
          show (p * 4 + q / 16) % 4 * 16 + (q % 16 * 16 + r / 4) / 16 = q by omega,
          show (q % 16 * 16 + r / 4) % 16 * 4 = r by omega]
      · cases h
    · simp only [Option.bind_eq_some_iff] at h
      obtain ⟨s, hd, h⟩ := h
      obtain ⟨hs, rfl⟩ := symbol_of_value? hd
      cases h
      rw [encode_group, group_of_values hp hq hr hs]
      rfl

/-! ## Texts -/

/-- What is read after some bytes is what was written for the others. -/
theorem encode_of_decodeFrom {read text bs : Bytes} (h : decodeFrom read text = some bs) :
    ∃ rest, bs = read.reverse ++ rest ∧ encode rest = text := by
  fun_induction decodeFrom read text with
  | case1 read =>
    cases h
    exact ⟨[], (List.append_nil _).symm, rfl⟩
  | case2 read a b c d =>
    obtain ⟨bytes, hlast, rfl⟩ := Option.map_eq_some_iff.mp h
    exact ⟨bytes, rfl, encode_of_decodeLast hlast⟩
  | case3 read a b c d text _ bytes hgroup ih =>
    obtain ⟨rest, rfl, rfl⟩ := ih h
    obtain ⟨x, y, z, rfl, hxyz⟩ := group_of_decodeGroup hgroup
    refine ⟨x :: y :: z :: rest, ?_, ?_⟩
    · rw [List.reverse_append, List.reverse_reverse, List.append_assoc]
      rfl
    · rw [encode_group, hxyz]
      rfl
  | case4 => cases h
  | case5 => cases h

/-- **What can be read was written.**  The only text of some bytes is the one that is written for them. -/
theorem decode?_eq_some_iff {text bs : Bytes} : decode? text = some bs ↔ encode bs = text := by
  constructor
  · intro h
    obtain ⟨rest, rfl, htext⟩ := encode_of_decodeFrom h
    exact htext
  · rintro rfl
    exact decode?_encode bs

/-! ## What a written text spells -/

/-- A text that spells six bit values, with some padding: as much as fills up the last four, and with
    zeros in what it leaves of the last value. -/
structure Spells (values : List Nat) (padding : Nat) (text : Bytes) : Prop where
  text_eq : text = values.map symbol ++ List.replicate padding Ascii.equals
  lt : ∀ v ∈ values, v < 64
  padding_le : padding ≤ 2
  full : (values.length + padding) % 4 = 0
  unused_one : padding = 1 → ∀ v ∈ values.getLast?, v % 4 = 0
  unused_two : padding = 2 → ∀ v ∈ values.getLast?, v % 16 = 0

namespace Spells

variable {values : List Nat} {padding : Nat} {text : Bytes}

/-- Four values more in front. -/
theorem group (h : Spells values padding text) {p q r s : Nat} (hp : p < 64) (hq : q < 64)
    (hr : r < 64) (hs : s < 64) :
    Spells (p :: q :: r :: s :: values) padding ([symbol p, symbol q, symbol r, symbol s] ++ text) := by
  have hfull := h.full
  have hlast : ∀ v ∈ (p :: q :: r :: s :: values).getLast?, padding ≠ 0 → v ∈ values.getLast? := by
    intro v hv hne
    cases values with
    | nil =>
      have hle := h.padding_le
      rw [List.length_nil] at hfull
      omega
    | cons w values => exact hv
  refine ⟨?_, ?_, h.padding_le, ?_, ?_, ?_⟩
  · rw [h.text_eq]
    rfl
  · simp only [List.forall_mem_cons]
    exact ⟨hp, hq, hr, hs, h.lt⟩
  · simp only [List.length_cons]
    omega
  · intro hone v hv
    exact h.unused_one hone v (hlast v hv (by omega))
  · intro htwo v hv
    exact h.unused_two htwo v (hlast v hv (by omega))

/-- Every byte is a symbol or padding. -/
theorem symbol_or_equals (h : Spells values padding text) {b : UInt8} (hb : b ∈ text) :
    value? b ≠ none ∨ b = Ascii.equals := by
  rw [h.text_eq, List.mem_append, List.mem_map] at hb
  rcases hb with ⟨v, hv, rfl⟩ | hb
  · left
    rw [value?_symbol v (h.lt v hv)]
    exact Option.some_ne_none v
  · exact Or.inr (List.eq_of_mem_replicate hb)

/-- The symbols end where the padding begins. -/
theorem getLast?_ne_equals (h : Spells values padding text) :
    (values.map symbol).getLast? ≠ some Ascii.equals := by
  intro hlast
  obtain ⟨v, hv, heq⟩ := List.mem_map.mp (List.mem_of_getLast? hlast)
  exact symbol_ne_equals v (h.lt v hv) heq

end Spells

/-- A list without its repeated last item. -/
theorem append_replicate_inj {α : Type} {x : α} {front front' : List α} {n n' : Nat}
    (h : front.getLast? ≠ some x) (h' : front'.getLast? ≠ some x)
    (heq : front ++ List.replicate n x = front' ++ List.replicate n' x) : front = front' ∧ n = n' := by
  -- if there were more of them on one side, the front of the other would end with one
  have key : ∀ {a b : List α} {m k : Nat}, a.getLast? ≠ some x →
      a ++ List.replicate m x = b ++ List.replicate (k + m) x → k = 0 := by
    intro a b m k ha hab
    rw [← List.replicate_append_replicate, ← List.append_assoc, List.append_cancel_right_eq] at hab
    cases k with
    | zero => rfl
    | succ k =>
      rw [hab, List.replicate_succ', ← List.append_assoc, List.getLast?_concat] at ha
      exact absurd rfl ha
  rcases Nat.le_total n n' with hle | hle
  · obtain ⟨k, rfl⟩ := Nat.exists_eq_add_of_le' hle
    have hk := key h heq
    subst hk
    rw [Nat.zero_add] at heq
    exact ⟨List.append_cancel_right heq, (Nat.zero_add n).symm⟩
  · obtain ⟨k, rfl⟩ := Nat.exists_eq_add_of_le' hle
    have hk := key h' heq.symm
    subst hk
    rw [Nat.zero_add] at heq
    exact ⟨List.append_cancel_right heq, Nat.zero_add n'⟩

/-- **What is written spells six bit values.** -/
theorem exists_spells (bs : Bytes) : ∃ values padding, Spells values padding (encode bs) := by
  induction bs using group_induction with
  | none =>
    refine ⟨[], 0, rfl, ?_, by omega, rfl, ?_, ?_⟩
    · intro v hv
      cases hv
    · intro h
      cases h
    · intro h
      cases h
  | one a =>
    have ha := a.toNat_lt
    refine ⟨[a.toNat / 4, a.toNat % 4 * 16], 2, rfl, ?_, Nat.le_refl 2, Nat.mod_self 4, ?_, ?_⟩
    · simp only [List.forall_mem_cons]
      exact ⟨div_four_lt a, by omega, fun _ h => absurd h List.not_mem_nil⟩
    · intro h
      cases h
    · rintro - v hv
      cases Option.mem_some.mp hv
      show a.toNat % 4 * 16 % 16 = 0
      omega
  | two a b =>
    have hb := b.toNat_lt
    refine ⟨[a.toNat / 4, a.toNat % 4 * 16 + b.toNat / 16, b.toNat % 16 * 4], 1, rfl, ?_, by omega,
      Nat.mod_self 4, ?_, ?_⟩
    · simp only [List.forall_mem_cons]
      exact ⟨div_four_lt a, mod_four_lt a b, by omega, fun _ h => absurd h List.not_mem_nil⟩
    · rintro - v hv
      cases Option.mem_some.mp hv
      show b.toNat % 16 * 4 % 4 = 0
      omega
    · intro h
      cases h
  | more a b c rest ih =>
    obtain ⟨values, padding, h⟩ := ih
    rw [encode_group]
    exact ⟨_, padding, h.group (div_four_lt a) (mod_four_lt a b) (mod_sixteen_lt b c)
      (Nat.mod_lt _ (by omega))⟩

/-! ## Flaws -/

/-- A text that has something wrong with it, though it may look like Base64. -/
inductive Flawed : Bytes → Prop where
  /-- Padding is missing, or there is more of it than fills up the last four. -/
  | padding {symbols : Bytes} {n : Nat} (hsymbols : Ascii.equals ∉ symbols)
      (h : ¬ (n ≤ 2 ∧ (symbols.length + n) % 4 = 0)) :
      Flawed (symbols ++ List.replicate n Ascii.equals)
  /-- Something follows the padding. -/
  | inside {b : UInt8} (front rest : Bytes) (h : b ≠ Ascii.equals) :
      Flawed (front ++ Ascii.equals :: b :: rest)
  /-- There is white space, of ASCII or any other. -/
  | blank {c : Char} (front rest : Bytes) (h : Text.isBlank c = true) :
      Flawed (front ++ (Text.Utf8.encodeChar c ++ rest))
  /-- There is a symbol of the alphabet for URLs, which has `-` and `_` for `+` and `/`. -/
  | url {text : Bytes} (h : Ascii.minus ∈ text ∨ 0x5F ∈ text) : Flawed text
  /-- The last symbol before one `=` has bits that are not used, and not zero. -/
  | loose_two {c : UInt8} {v : Nat} (front : Bytes) (hc : value? c = some v) (h : v % 4 ≠ 0) :
      Flawed (front ++ c :: [Ascii.equals])
  /-- The last symbol before two `=` has. -/
  | loose_four {b : UInt8} {v : Nat} (front : Bytes) (hb : value? b = some v) (h : v % 16 ≠ 0) :
      Flawed (front ++ b :: [Ascii.equals, Ascii.equals])

/-- White space begins with a byte that is no symbol. -/
theorem exists_of_isBlank {c : Char} (h : Text.isBlank c = true) :
    ∃ b ∈ Text.Utf8.encodeChar c, value? b = none ∧ b ≠ Ascii.equals := by
  by_cases hascii : c.toNat < 0x80
  · have key : ∀ n < 0x80, Text.isBlank (Char.ofNat n) = true →
        value? (UInt8.ofNat n) = none ∧ UInt8.ofNat n ≠ Ascii.equals := by decide
    have hkey := key c.toNat hascii
    rw [Char.ofNat_toNat] at hkey
    refine ⟨UInt8.ofNat c.toNat, ?_, hkey h⟩
    rw [Text.Utf8.encodeChar, if_pos hascii]
    exact List.mem_singleton_self _
  · -- the first byte of any other character is not ASCII
    have hle : 0x80 ≤ UInt8.ofNat (Text.Utf8.lead c.toNat) := by
      rw [UInt8.le_iff_toNat_le, toNat_byte (Text.Utf8.lead_lt (Text.Utf8.toNat_lt_of_char c))]
      exact Text.Utf8.le_lead (Nat.not_lt.mp hascii)
    refine ⟨_, ?_, value?_of_le hle, ?_⟩
    · rw [Text.Utf8.encodeChar_eq]
      exact List.mem_cons_self
    · intro heq
      rw [heq] at hle
      exact absurd hle (by decide)

namespace Spells

variable {values : List Nat} {padding : Nat} {text : Bytes}

/-- The symbols and the padding of a text are known from where its padding begins. -/
theorem of_padding {front : Bytes} {n : Nat}
    (h : Spells values padding (front ++ List.replicate n Ascii.equals))
    (hfront : front.getLast? ≠ some Ascii.equals) : front = values.map symbol ∧ n = padding :=
  append_replicate_inj hfront h.getLast?_ne_equals h.text_eq

/-- The symbol before the padding is that of the last value. -/
theorem mem_getLast? {front : Bytes} {b : UInt8} {v n : Nat} (hb : value? b = some v)
    (h : Spells values padding (front ++ b :: List.replicate n Ascii.equals)) :
    v ∈ values.getLast? ∧ n = padding := by
  rw [List.append_cons] at h
  have hlast : (front ++ [b]).getLast? ≠ some Ascii.equals := by
    rw [List.getLast?_concat]
    rintro ⟨⟩
    cases hb
  obtain ⟨hvalues, hn⟩ := h.of_padding hlast
  refine ⟨?_, hn⟩
  have hmap := congrArg List.getLast? hvalues
  rw [List.getLast?_concat, List.getLast?_map] at hmap
  obtain ⟨w, hw, hwb⟩ := Option.map_eq_some_iff.mp hmap.symm
  rw [← hwb, value?_symbol w (h.lt w (List.mem_of_getLast? hw))] at hb
  cases hb
  exact hw

/-- **A text without a flaw.** -/
theorem not_flawed (h : Spells values padding text) : ¬ Flawed text := by
  intro hflawed
  cases hflawed with
  | @padding symbols n hsymbols hwrong =>
    obtain ⟨rfl, rfl⟩ := h.of_padding fun hlast => hsymbols (List.mem_of_getLast? hlast)
    refine hwrong ⟨h.padding_le, ?_⟩
    rw [List.length_map]
    exact h.full
  | @inside b front rest hb =>
    rcases List.append_eq_append_iff.mp h.text_eq with ⟨between, hvalues, hrest⟩ | ⟨between, -, hrest⟩
    · cases between with
      | nil => exact hb (List.eq_of_mem_replicate (hrest ▸ List.mem_cons_of_mem _ List.mem_cons_self))
      | cons c between =>
        -- the first `=` would stand among the symbols
        have hequals : Ascii.equals ∈ values.map symbol := by
          rw [hvalues, (List.cons.inj hrest).1]
          exact List.mem_append_right front List.mem_cons_self
        obtain ⟨v, hv, heq⟩ := List.mem_map.mp hequals
        exact symbol_ne_equals v (h.lt v hv) heq
    · refine hb (List.eq_of_mem_replicate (a := Ascii.equals) (n := padding) ?_)
      rw [hrest]
      exact List.mem_append_right between (List.mem_cons_of_mem _ List.mem_cons_self)
  | @blank c front rest hc =>
    obtain ⟨b, hmem, hvalue, hne⟩ := exists_of_isBlank hc
    have hb := h.symbol_or_equals (List.mem_append_right front (List.mem_append_left rest hmem))
    exact hb.elim (fun hsymbol => hsymbol hvalue) hne
  | url hmem =>
    rcases hmem with hmem | hmem
    · exact (h.symbol_or_equals hmem).elim (fun hsymbol => hsymbol rfl) (by decide)
    · exact (h.symbol_or_equals hmem).elim (fun hsymbol => hsymbol rfl) (by decide)
  | @loose_two c v front hc hv =>
    obtain ⟨hlast, hone⟩ := h.mem_getLast? (n := 1) hc
    exact hv (h.unused_one hone.symm v hlast)
  | @loose_four b v front hb hv =>
    obtain ⟨hlast, htwo⟩ := h.mem_getLast? (n := 2) hb
    exact hv (h.unused_two htwo.symm v hlast)

end Spells

/-- **A text with a flaw is refused.** -/
theorem Flawed.decode?_eq_none {text : Bytes} (h : Flawed text) : decode? text = none := by
  cases hdecode : decode? text with
  | none => rfl
  | some bs =>
    obtain ⟨values, padding, hspells⟩ := exists_spells bs
    rw [decode?_eq_some_iff.mp hdecode] at hspells
    exact absurd h hspells.not_flawed

/-! ## Payloads -/

open Json

/-- A payload is what the text of a string is decoded to. -/
theorem run_payload {s r : Bytes} {t : String} (h : Reader.text.run s = .ok (t, r)) :
    Reader.payload.run s = match decode? (Text.Utf8.encode t) with
      | some bs => .ok (bs, r)
      | none => .error .invalidBase64 := by
  simp only [Reader.payload, Reader.check, h]
  cases decode? (Text.Utf8.encode t) with
  | none => rfl
  | some bs => rfl

/-- A payload is read from a string just if the string is what is written for it. -/
theorem run_payload_eq_ok_iff {s r bs : Bytes} {t : String} (h : Reader.text.run s = .ok (t, r)) :
    Reader.payload.run s = .ok (bs, r) ↔ encode bs = Text.Utf8.encode t := by
  rw [run_payload h, ← decode?_eq_some_iff]
  cases decode? (Text.Utf8.encode t) with
  | none => exact iff_of_false (fun hc => by cases hc) (fun hc => by cases hc)
  | some bytes =>
    constructor
    · intro hrun
      cases hrun
      rfl
    · intro hsome
      cases hsome
      rfl

/-- **A payload and its text.**  The text that is written for a payload is read as that payload; a text
    that is read as a payload is the one that is written for it, so two payloads that are the same were
    read from the same text; and a text with a flaw is refused. -/
theorem payload_written_once :
    (∀ bs, Reads Reader.payload (Printer.quoted (encode bs)) bs)
    ∧ (∀ {s r : Bytes} {t : String}, Reader.text.run s = .ok (t, r) →
        (∀ bs, Reader.payload.run s = .ok (bs, r) ↔ encode bs = Text.Utf8.encode t)
        ∧ (Flawed (Text.Utf8.encode t) → Reader.payload.run s = .error .invalidBase64))
    ∧ ∀ {s s' r r' bs : Bytes} {t t' : String}, Reader.text.run s = .ok (t, r) →
        Reader.text.run s' = .ok (t', r') → Reader.payload.run s = .ok (bs, r) →
        Reader.payload.run s' = .ok (bs, r') → t = t' := by
  refine ⟨Reads.payload, ?_, ?_⟩
  · intro s r t htext
    refine ⟨fun bs => run_payload_eq_ok_iff htext, ?_⟩
    intro hflawed
    rw [run_payload htext, hflawed.decode?_eq_none]
  · intro s s' r r' bs t t' htext htext' hrun hrun'
    apply Text.Utf8.encode_injective
    rw [← (run_payload_eq_ok_iff htext).mp hrun, (run_payload_eq_ok_iff htext').mp hrun']

/-- Two bytes, and the same text with a bit set that no byte takes. -/
theorem payload_zero_one :
    (Reader.text.run (Printer.text "AAE=") = .ok ("AAE=", [])
      ∧ Reader.text.run (Printer.text "AAF=") = .ok ("AAF=", [])
      ∧ Flawed (Text.Utf8.encode "AAF="))
    ∧ Reader.payload.run (Printer.text "AAE=") = .ok ([0, 1], [])
    ∧ Reader.payload.run (Printer.text "AAF=") = .error .invalidBase64 := by
  have htext : ∀ t, Reader.text.run (Printer.text t) = .ok (t, []) := by
    intro t
    have hrun := (Reads.text t).run [] EndsValue.nil
    rwa [List.append_nil] at hrun
  have hflawed : Flawed (Text.Utf8.encode "AAF=") := by
    have hlast : value? 0x46 = some 5 := by decide
    exact Flawed.loose_two [0x41, 0x41] hlast (by decide)
  refine ⟨⟨htext _, htext _, hflawed⟩, ?_, (payload_written_once.2.1 (htext _)).2 hflawed⟩
  refine ((payload_written_once.2.1 (htext _)).1 [0, 1]).mpr ?_
  decide +kernel

end TopicRelay.Base64
