/-
  Whose file is whose.

      both names short    <hex of the topic>-<hex of the subscriber>
      together too long   sha256-<digest of:  the topic  NUL  the subscriber>

  A short file name says both names: hexadecimal digits can be read back, and there is no hyphen among
  them.  A digest says them only as far as its input does, and the input does not: where the zero
  byte stands that is meant to separate the names, a name may have one of its own.

  specification   two files have different names, or there is a collision of SHA-256 (`StemsApart`)
  short names     never share a file name, nor does a short one with a long one (`stem_eq_iff`)
  long names      have one input just when a zero character can be moved from one of their names into
                  the other (`digestInput_eq_iff`), and then they share a file without any collision
                  (`stemsApart_iff`)
-/
import Mathlib.Data.List.Basic
import TopicRelay.Offset.Files
import TopicRelay.Proofs.Json.Strings

namespace TopicRelay

/-! ## Hexadecimal digits -/

namespace Hex

/-- **Reading inverts writing.** -/
theorem decode?_encode (bs : Bytes) : decode? (encode bs) = some bs := by
  induction bs with
  | nil => rfl
  | cons b bs ih =>
    have hb := b.toNat_lt
    have hvalue : UInt8.ofNat (b.toNat / 16 * 16 + b.toNat % 16) = b := by
      rw [Nat.div_add_mod', UInt8.ofNat_toNat]
    rw [encode, List.flatMap_cons, ofByte, List.cons_append, List.cons_append, List.nil_append]
    simp only [decode?, Json.Lexeme.hexValue?_hexDigit (b.toNat / 16) (by omega),
      Json.Lexeme.hexValue?_hexDigit (b.toNat % 16) (by omega), Option.bind_eq_bind, Option.bind_some]
    rw [encode] at ih
    rw [ih, hvalue]
    rfl

theorem encode_injective {a b : Bytes} (h : encode a = encode b) : a = b :=
  Option.some.inj (by rw [← decode?_encode a, h, decode?_encode b])

/-- The digits of bytes are hexadecimal digits. -/
theorem exists_of_mem_encode {bs : Bytes} {d : UInt8} (h : d ∈ encode bs) :
    ∃ n < 16, d = Ascii.hexDigit n := by
  obtain ⟨b, -, hd⟩ := List.mem_flatMap.mp h
  have hb := b.toNat_lt
  simp only [ofByte, List.mem_cons, List.not_mem_nil, or_false] at hd
  rcases hd with rfl | rfl
  · exact ⟨_, by omega, rfl⟩
  · exact ⟨_, by omega, rfl⟩

theorem minus_notMem_encode (bs : Bytes) : Ascii.minus ∉ encode bs := by
  intro h
  obtain ⟨n, hn, heq⟩ := exists_of_mem_encode h
  exact absurd heq ((by decide : ∀ n < 16, Ascii.minus ≠ Ascii.hexDigit n) n hn)

end Hex

/-- A text that is given byte by byte shows which bytes they are. -/
theorem Ascii.text_injective {a b : Bytes} (h : Ascii.text a = Ascii.text b) : a = b := by
  have hvalue : ∀ n < 256, (Char.ofNat n).toNat = n := by decide +kernel
  have hchar : Function.Injective fun b : UInt8 => Char.ofNat b.toNat := by
    intro x y hxy
    have hvalues := congrArg Char.toNat hxy
    rw [hvalue _ x.toNat_lt, hvalue _ y.toNat_lt] at hvalues
    exact UInt8.toNat_inj.mp hvalues
  exact List.map_injective_iff.mpr hchar (String.ofList_injective h)

namespace Offset

variable {topic topic' : TopicName} {subscriber subscriber' : SubscriberName}

/-! ## Short names -/

/-- The names are together too long to be a file name themselves. -/
def IsLong (topic : TopicName) (subscriber : SubscriberName) : Prop :=
  maxPlainStem < (plainStem topic subscriber).length

theorem stem_of_short (h : ¬ IsLong topic subscriber) :
    stem topic subscriber = Ascii.text (plainStem topic subscriber) :=
  if_pos (Nat.le_of_not_lt h)

theorem stem_of_long (h : IsLong topic subscriber) :
    stem topic subscriber = "sha256-" ++ Hex.text (Sha256.digest (digestInput topic subscriber)) :=
  if_neg (Nat.not_le.mpr h)

/-- The hyphen is the only one there is, so it shows where the topic ends. -/
theorem plainStem_injective (h : plainStem topic subscriber = plainStem topic' subscriber') :
    topic = topic' ∧ subscriber = subscriber' := by
  obtain ⟨htopic, -, hsubscriber⟩ := (List.append_cons_inj_of_notMem
    (Hex.minus_notMem_encode _) (Hex.minus_notMem_encode _)).mp h
  exact ⟨Text.Utf8.encode_injective (Hex.encode_injective htopic),
    Text.Utf8.encode_injective (Hex.encode_injective hsubscriber)⟩

/-- A short name begins with a digit or a hyphen, and so not like a digest. -/
theorem plainStem_ne_digest (topic : TopicName) (subscriber : SubscriberName) (digits : Bytes) :
    Ascii.text (plainStem topic subscriber) ≠ "sha256-" ++ Ascii.text digits := by
  have hbegins : "sha256-" ++ Ascii.text digits = Ascii.text (Ascii.bytes "sha256-" ++ digits) := by
    rw [Ascii.text, Ascii.text, List.map_append, String.ofList_append]
    rfl
  rw [hbegins]
  intro h
  have hbytes := Ascii.text_injective h
  have hletter : (plainStem topic subscriber).head? = some 0x73 := by
    rw [hbytes]
    rfl
  rw [plainStem] at hletter
  cases hhex : Hex.encode (Text.Utf8.encode topic) with
  | nil =>
    rw [hhex] at hletter
    cases hletter
  | cons d rest =>
    obtain ⟨n, hn, hd⟩ := Hex.exists_of_mem_encode (hhex ▸ List.mem_cons_self : d ∈ _)
    rw [hhex, hd] at hletter
    exact (by decide : ∀ n < 16, Ascii.hexDigit n ≠ 0x73) n hn (Option.some.inj hletter)

/-- **When two files have one name**: they are the same, or both names are long and their digests are the
    same. -/
theorem stem_eq_iff : stem topic subscriber = stem topic' subscriber' ↔
    (topic = topic' ∧ subscriber = subscriber')
      ∨ IsLong topic subscriber ∧ IsLong topic' subscriber'
        ∧ Sha256.digest (digestInput topic subscriber)
          = Sha256.digest (digestInput topic' subscriber') := by
  constructor
  · intro h
    by_cases hlong : IsLong topic subscriber <;> by_cases hlong' : IsLong topic' subscriber'
    · right
      rw [stem_of_long hlong, stem_of_long hlong'] at h
      exact ⟨hlong, hlong', Hex.encode_injective (Ascii.text_injective (String.append_right_inj _ |>.mp h))⟩
    · rw [stem_of_long hlong, stem_of_short hlong'] at h
      exact absurd h.symm (plainStem_ne_digest _ _ _)
    · rw [stem_of_short hlong, stem_of_long hlong'] at h
      exact absurd h (plainStem_ne_digest _ _ _)
    · left
      rw [stem_of_short hlong, stem_of_short hlong'] at h
      exact plainStem_injective (Ascii.text_injective h)
  · rintro (⟨rfl, rfl⟩ | ⟨hlong, hlong', hdigest⟩)
    · rfl
    · rw [stem_of_long hlong, stem_of_long hlong', hdigest]

/-! ## What a digest is taken of -/

/-- The border between two names moved: the first topic has a zero character in it, at which the second
    topic ends, and what stands behind that has become a part of the second subscriber. -/
def Shifted (topic : TopicName) (subscriber : SubscriberName) (topic' : TopicName)
    (subscriber' : SubscriberName) : Prop :=
  ∃ middle : String, topic = topic' ++ "\x00" ++ middle ∧ subscriber' = middle ++ "\x00" ++ subscriber

theorem digestInput_eq_encode (topic : TopicName) (subscriber : SubscriberName) :
    digestInput topic subscriber = Text.Utf8.encode (topic ++ "\x00" ++ subscriber) := by
  simp only [digestInput, Text.Utf8.encode, String.toList_append, List.flatMap_append,
    List.append_assoc]
  rfl

theorem Shifted.digestInput_eq (h : Shifted topic subscriber topic' subscriber') :
    digestInput topic subscriber = digestInput topic' subscriber' := by
  obtain ⟨middle, rfl, rfl⟩ := h
  rw [digestInput_eq_encode, digestInput_eq_encode]
  simp only [String.append_assoc]

theorem Shifted.zero_mem (h : Shifted topic subscriber topic' subscriber') :
    '\x00' ∈ topic.toList := by
  obtain ⟨middle, rfl, -⟩ := h
  rw [String.toList_append, String.toList_append]
  exact List.mem_append_left _ (List.mem_append_right _ List.mem_cons_self)

/-- Where one text is cut at two zero characters, or twice at the same. -/
theorem cut_at_zero {a b c d : List Char} {zero : Char} (h : a ++ zero :: b = c ++ zero :: d) :
    (a = c ∧ b = d) ∨ (∃ m, a = c ++ zero :: m ∧ d = m ++ zero :: b)
      ∨ ∃ m, c = a ++ zero :: m ∧ b = m ++ zero :: d := by
  rcases List.append_eq_append_iff.mp h with ⟨x, rfl, hx⟩ | ⟨x, rfl, hx⟩
  · cases x with
    | nil => exact Or.inl ⟨(List.append_nil a).symm, (List.cons.inj hx).2⟩
    | cons y m =>
      obtain ⟨rfl, hb⟩ := List.cons.inj hx
      exact Or.inr (Or.inr ⟨m, rfl, hb⟩)
  · cases x with
    | nil => exact Or.inl ⟨List.append_nil c, (List.cons.inj hx).2.symm⟩
    | cons y m =>
      obtain ⟨rfl, hd⟩ := List.cons.inj hx
      exact Or.inr (Or.inl ⟨m, rfl, hd⟩)

/-- **What a digest is taken of does not always say the names**: it is the same for others if the border
    between them can be moved. -/
theorem digestInput_eq_iff : digestInput topic subscriber = digestInput topic' subscriber' ↔
    (topic = topic' ∧ subscriber = subscriber') ∨ Shifted topic subscriber topic' subscriber'
      ∨ Shifted topic' subscriber' topic subscriber := by
  -- a text in characters is the text again
  have htext : ∀ {s a b : String} {m : List Char}, s.toList = a.toList ++ '\x00' :: m →
      m = b.toList → s = a ++ "\x00" ++ b := by
    rintro s a b m hs rfl
    refine String.toList_injective ?_
    rw [hs, String.toList_append, String.toList_append, List.append_assoc]
    rfl
  constructor
  · intro h
    rw [digestInput_eq_encode, digestInput_eq_encode] at h
    have htexts := congrArg String.toList (Text.Utf8.encode_injective h)
    simp only [String.toList_append, List.append_assoc] at htexts
    rcases cut_at_zero htexts with ⟨ht, hs⟩ | ⟨m, ht, hs⟩ | ⟨m, ht, hs⟩
    · exact Or.inl ⟨String.toList_injective ht, String.toList_injective hs⟩
    · rw [← String.toList_ofList (l := m)] at hs
      exact Or.inr (Or.inl ⟨String.ofList m, htext ht String.toList_ofList.symm, htext hs rfl⟩)
    · rw [← String.toList_ofList (l := m)] at hs
      exact Or.inr (Or.inr ⟨String.ofList m, htext ht String.toList_ofList.symm, htext hs rfl⟩)
  · rintro (⟨rfl, rfl⟩ | h | h)
    · rfl
    · exact h.digestInput_eq
    · exact h.digestInput_eq.symm

/-! ## What is asked of file names -/

/-- Two files have different names, unless two different inputs of SHA-256 have one digest. -/
def StemsApart (topic : TopicName) (subscriber : SubscriberName) (topic' : TopicName)
    (subscriber' : SubscriberName) : Prop :=
  stem topic subscriber ≠ stem topic' subscriber'
    ∨ IsLong topic subscriber ∧ IsLong topic' subscriber'
      ∧ digestInput topic subscriber ≠ digestInput topic' subscriber'
      ∧ Sha256.digest (digestInput topic subscriber)
        = Sha256.digest (digestInput topic' subscriber')

/-- A moved border makes two pairs share a file. -/
theorem not_stemsApart (hlong : IsLong topic subscriber) (hlong' : IsLong topic' subscriber')
    (h : Shifted topic subscriber topic' subscriber' ∨ Shifted topic' subscriber' topic subscriber) :
    ¬ StemsApart topic subscriber topic' subscriber' := by
  have hinput := digestInput_eq_iff.mpr (Or.inr h)
  rintro (hstem | ⟨-, -, hdifferent, -⟩)
  · exact hstem (stem_eq_iff.mpr (Or.inr ⟨hlong, hlong', congrArg _ hinput⟩))
  · exact hdifferent hinput

/-- **Whose files are apart.**  Two different pairs of names, short or long, have files of different
    names unless there is a collision, with just one exception: both are long, and the border between
    the names of one can be moved to give the names of the other. -/
theorem stemsApart_iff (hne : (topic, subscriber) ≠ (topic', subscriber')) :
    StemsApart topic subscriber topic' subscriber' ↔
      ¬ (IsLong topic subscriber ∧ IsLong topic' subscriber'
        ∧ (Shifted topic subscriber topic' subscriber'
          ∨ Shifted topic' subscriber' topic subscriber)) := by
  have hnames : ¬ (topic = topic' ∧ subscriber = subscriber') := by
    rintro ⟨rfl, rfl⟩
    exact hne rfl
  constructor
  · rintro hapart ⟨hlong, hlong', hshifted⟩
    exact not_stemsApart hlong hlong' hshifted hapart
  · intro h
    by_cases hstem : stem topic subscriber = stem topic' subscriber'
    · rcases stem_eq_iff.mp hstem with hsame | ⟨hlong, hlong', hdigest⟩
      · exact absurd hsame hnames
      · refine Or.inr ⟨hlong, hlong', fun hinput => ?_, hdigest⟩
        rcases digestInput_eq_iff.mp hinput with hsame | hshifted
        · exact hnames hsame
        · exact h ⟨hlong, hlong', hshifted⟩
    · exact Or.inl hstem

/-! ### One text, cut twice -/

namespace TwoBorders

/-- A name that is too long for a file name, whatever the other one is. -/
def long : String := String.ofList (List.replicate 100 'a')

/-- Two subscribers of one topic have files of their own. -/
theorem stemsApart_of_one_topic : (long, "b") ≠ (long, "c") ∧ StemsApart long "b" long "c" := by
  have hne : (long, "b") ≠ (long, "c") := by decide
  have hzero : '\x00' ∉ long.toList := by decide +kernel
  refine ⟨hne, (stemsApart_iff hne).mpr ?_⟩
  rintro ⟨-, -, h | h⟩
  · exact hzero h.zero_mem
  · exact hzero h.zero_mem

/-- A topic with a zero character, and another subscriber with one, have the same file. -/
theorem not_stemsApart_of_zeros : (long ++ "\x00" ++ "b", "c") ≠ (long, "b" ++ "\x00" ++ "c")
    ∧ ¬ StemsApart (long ++ "\x00" ++ "b") "c" long ("b" ++ "\x00" ++ "c") := by
  refine ⟨by decide +kernel, not_stemsApart ?_ ?_ (Or.inl ⟨"b", rfl, rfl⟩)⟩
  · show maxPlainStem < _
    decide +kernel
  · show maxPlainStem < _
    decide +kernel

end TwoBorders
end Offset
end TopicRelay
