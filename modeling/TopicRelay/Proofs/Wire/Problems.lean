/-
  What is wrong with a request for messages.

      isValid, problem?        checks on bytes, made one after the other and left at the first that fails
      ProperKey, Concerns      conditions on characters and numbers, each problem by itself

  specification   a key is accepted if and only if it is proper (`isValid_iff`).  Requests are accepted
                  if and only if every entry is proper (`problem?_eq_none_iff_proper`); otherwise the
                  first problem of the smallest key that has one is reported (`isReported_of_problem?`)
  the crux        a character beyond ASCII begins with a byte beyond ASCII, and a key may have no such
                  byte.  So a check of all bytes is a check of all characters (`all_isPart_encodeChar`)
-/
import Mathlib.Data.String.Basic
import TopicRelay.Proofs.Text.Utf8Order
import TopicRelay.Wire.ConsumeRequest

namespace TopicRelay

/-! ## The length of a text -/

namespace Text.Utf8

theorem length_encodeChar (c : Char) : (encodeChar c).length = c.utf8Size := by
  simp only [encodeChar, Char.utf8Size, Char.toNat, UInt32.le_iff_toNat_le]
  simp only [UInt32.toNat_ofNatLT]
  split_ifs <;> simp only [List.length_cons, List.length_nil] <;> omega

/-- The bytes of a text are as many as it is said to take. -/
theorem length_encode (s : String) : (encode s).length = s.utf8ByteSize := by
  have hchars (cs : List Char) : (cs.flatMap encodeChar).length = String.utf8Len cs := by
    induction cs with
    | nil => rfl
    | cons c cs ih =>
      rw [List.flatMap_cons, List.length_append, ih, length_encodeChar, String.utf8Len_cons,
        Nat.add_comm]
  rw [encode, hchars, ← String.utf8ByteSize_ofList, String.ofList_toList]

end Text.Utf8

namespace Wire

open Text (Utf8.encode Utf8.encodeChar Utf8.lead Utf8.encodeChar_eq Utf8.le_lead Utf8.lead_lt)

/-! ## Keys -/

namespace TopicKey

/-- A character that may follow the first one of a key. -/
def IsFurther (c : Char) : Prop := c.isAlphanum ∨ c = '.' ∨ c = '_' ∨ c = '-'

instance : DecidablePred IsFurther := fun _ => inferInstanceAs (Decidable (_ ∨ _ ∨ _ ∨ _))

/-- A key that may be used: it has 1 to 255 bytes, starts with an ASCII letter or digit and goes on with
    ASCII letters, digits, points, low lines and hyphens. -/
structure ProperKey (key : TopicKey) : Prop where
  length : 1 ≤ key.utf8ByteSize ∧ key.utf8ByteSize ≤ 255
  characters : ∃ first further, key.toList = first :: further ∧ first.isAlphanum
    ∧ ∀ c ∈ further, IsFurther c

/-- No byte beyond ASCII is part of a key. -/
theorem isPart_beyond {n : Nat} (hlow : 0x80 ≤ n) (hhigh : n < 256) :
    isPart (UInt8.ofNat n) = false := by
  have hall : ∀ n < 256, 0x80 ≤ n → isPart (UInt8.ofNat n) = false := by decide +kernel
  exact hall n hhigh hlow

theorem isAlphanum_lt {c : Char} (h : c.isAlphanum) : c.toNat < 0x80 := by
  change (decide (c.val ≥ 65 ∧ c.val ≤ 90) || (c.val ≥ 97 && c.val ≤ 122)
    || (c.val ≥ 48 && c.val ≤ 57)) = true at h
  simp only [Bool.or_eq_true, Bool.and_eq_true, decide_eq_true_eq, ge_iff_le,
    UInt32.le_iff_toNat_le] at h
  change ((65 ≤ c.toNat ∧ c.toNat ≤ 90) ∨ (97 ≤ c.toNat ∧ c.toNat ≤ 122))
    ∨ (48 ≤ c.toNat ∧ c.toNat ≤ 57) at h
  omega

theorem IsFurther.lt {c : Char} (h : IsFurther c) : c.toNat < 0x80 := by
  rcases h with h | rfl | rfl | rfl
  · exact isAlphanum_lt h
  all_goals decide

/-- A character may stand in a key if and only if its bytes may. -/
theorem all_isPart_encodeChar (c : Char) : (Utf8.encodeChar c).all isPart = true ↔ IsFurther c := by
  rcases Nat.lt_or_ge c.toNat 0x80 with hascii | hbeyond
  · have hall : ∀ n < 0x80, (Utf8.encodeChar (Char.ofNat n)).all isPart = true
        ↔ IsFurther (Char.ofNat n) := by decide +kernel
    rw [← Char.ofNat_toNat c]
    exact hall c.toNat hascii
  · have hlead := Utf8.lead_lt (Text.Utf8.toNat_lt_of_char c)
    rw [Utf8.encodeChar_eq, List.all_cons, isPart_beyond (Utf8.le_lead hbeyond) hlead]
    exact iff_of_false Bool.false_ne_true fun h => absurd h.lt (Nat.not_lt.mpr hbeyond)

/-- And it may stand at the start if and only if its first byte may. -/
theorem isStart_encodeChar (c : Char) : (Utf8.encodeChar c).head?.any isStart = true ↔ c.isAlphanum := by
  rcases Nat.lt_or_ge c.toNat 0x80 with hascii | hbeyond
  · have hall : ∀ n < 0x80, (Utf8.encodeChar (Char.ofNat n)).head?.any isStart = true
        ↔ (Char.ofNat n).isAlphanum = true := by decide +kernel
    rw [← Char.ofNat_toNat c]
    exact hall c.toNat hascii
  · have hpart := isPart_beyond (Utf8.le_lead hbeyond) (Utf8.lead_lt (Text.Utf8.toNat_lt_of_char c))
    rw [isPart, Bool.or_eq_false_iff, Bool.or_eq_false_iff, Bool.or_eq_false_iff] at hpart
    rw [Utf8.encodeChar_eq, List.head?_cons, Option.any_some, hpart.1.1.1]
    exact iff_of_false Bool.false_ne_true fun h => absurd (isAlphanum_lt h) (Nat.not_lt.mpr hbeyond)

/-- **A key is accepted if and only if it is proper.** -/
theorem isValid_iff {key : TopicKey} : isValid key = true ↔ ProperKey key := by
  have hbytes : Utf8.encode key = key.toList.flatMap Utf8.encodeChar := rfl
  have hlength := Text.Utf8.length_encode key
  have hall : (Utf8.encode key).all isPart = true ↔ ∀ c ∈ key.toList, IsFurther c := by
    simp only [hbytes, List.all_flatMap, List.all_eq_true (p := fun c => (Utf8.encodeChar c).all isPart),
      all_isPart_encodeChar]
  rw [isValid, Bool.and_eq_true, Bool.and_eq_true, decide_eq_true_eq, hall, hlength, hbytes, maxLength]
  rw [hbytes] at hlength
  cases hchars : key.toList with
  | nil =>
    refine iff_of_false (fun h => Bool.false_ne_true h.1.2) fun h => ?_
    obtain ⟨first, further, hsome, -⟩ := h.characters
    exact absurd (hchars.symm.trans hsome) (List.cons_ne_nil _ _).symm
  | cons first further =>
    have hhead : ((first :: further).flatMap Utf8.encodeChar).head?.any isStart = true
        ↔ first.isAlphanum = true := by
      rw [← isStart_encodeChar, List.flatMap_cons, Utf8.encodeChar_eq, List.cons_append,
        List.head?_cons, List.head?_cons]
    have hpos : 1 ≤ key.utf8ByteSize := by
      rw [← hlength, hchars, List.flatMap_cons, Utf8.encodeChar_eq]
      exact Nat.succ_pos _
    rw [hhead, List.forall_mem_cons]
    constructor
    · rintro ⟨⟨hshort, hfirst⟩, -, hfurther⟩
      exact ⟨⟨hpos, hshort⟩, first, further, hchars, hfirst, hfurther⟩
    · rintro ⟨⟨-, hshort⟩, first', further', hchars', hfirst, hfurther⟩
      obtain ⟨rfl, rfl⟩ := List.cons.inj (hchars.symm.trans hchars')
      exact ⟨⟨hshort, hfirst⟩, Or.inl hfirst, hfurther⟩

end TopicKey

/-! ## Requests -/

namespace ConsumeRequests

open TopicKey (ProperKey isValid isValid_iff)

variable {maximum : UInt32} {key : TopicKey} {r : ConsumeRequest} {rs : ConsumeRequests} {p q : Problem}

/-- An entry that may be asked for. -/
structure ProperEntry (maximum : UInt32) (key : TopicKey) (r : ConsumeRequest) : Prop where
  key : ProperKey key
  limit : 1 ≤ r.limit.toNat ∧ r.limit.toNat ≤ maximum.toNat
  id : r.lastMessageId ≠ some ""

/-- A problem that an entry has, whatever other problems it has. -/
inductive Problem.Concerns (maximum : UInt32) (key : TopicKey) (r : ConsumeRequest) : Problem → Prop where
  | key (h : ¬ ProperKey key) : Concerns maximum key r (.invalidKey key)
  | zero (h : r.limit.toNat = 0) : Concerns maximum key r (.zeroLimit key)
  | tooLarge (h : maximum.toNat < r.limit.toNat) : Concerns maximum key r (.limitTooLarge key maximum)
  | emptyId (h : r.lastMessageId = some "") : Concerns maximum key r (.emptyId key)

/-- Which problem of an entry comes first. -/
def Problem.rank : Problem → Nat
  | .invalidKey _ => 0
  | .zeroLimit _ => 1
  | .limitTooLarge _ _ => 2
  | .emptyId _ => 3

/-- The problem that is reported: the first one of the smallest key, in the order of its bytes, that
    has any. -/
def Problem.IsReported (maximum : UInt32) (rs : ConsumeRequests) (p : Problem) : Prop :=
  ∃ e ∈ rs.entries, p.Concerns maximum e.1 e.2
    ∧ (∀ q : Problem, q.Concerns maximum e.1 e.2 → p.rank ≤ q.rank)
    ∧ ∀ d ∈ rs.entries, ∀ q : Problem, q.Concerns maximum d.1 d.2 →
        d = e ∨ Utf8.encode e.1 < Utf8.encode d.1

/-- No problem concerns a proper entry. -/
theorem ProperEntry.not_concerns (h : ProperEntry maximum key r) : ¬ p.Concerns maximum key r := by
  intro hp
  cases hp with
  | key hkey => exact hkey h.key
  | zero hzero => exact absurd h.limit.1 (by omega)
  | tooLarge hlarge => exact absurd h.limit.2 (by omega)
  | emptyId hid => exact h.id hid

/-- An entry is proper, or the first of its problems is found. -/
theorem proper_or_first (maximum : UInt32) (key : TopicKey) (r : ConsumeRequest) :
    (ProperEntry maximum key r ∧ entryProblem? maximum key r = none)
    ∨ ∃ p : Problem, entryProblem? maximum key r = some p ∧ p.Concerns maximum key r
        ∧ ∀ q : Problem, q.Concerns maximum key r → p.rank ≤ q.rank := by
  have hnone : r.limit = 0 ↔ r.limit.toNat = 0 := UInt32.toNat_inj.symm
  have hmany : maximum < r.limit ↔ maximum.toNat < r.limit.toNat := UInt32.lt_iff_toNat_lt
  rw [entryProblem?]
  -- the cases are those of the check, in its order; what was passed is no problem any more
  by_cases hkey : ProperKey key
  · rw [isValid_iff.mpr hkey, Bool.not_true, if_neg Bool.false_ne_true]
    by_cases hzero : r.limit = 0
    · refine Or.inr ⟨_, if_pos hzero, .zero (hnone.mp hzero), fun q hq => ?_⟩
      cases hq with
      | key hnot => exact absurd hkey hnot
      | zero | tooLarge | emptyId => simp [Problem.rank]
    · rw [if_neg hzero]
      rw [hnone] at hzero
      by_cases hlarge : maximum < r.limit
      · refine Or.inr ⟨_, if_pos hlarge, .tooLarge (hmany.mp hlarge), fun q hq => ?_⟩
        cases hq with
        | key hnot => exact absurd hkey hnot
        | zero h => exact absurd h hzero
        | tooLarge | emptyId => simp [Problem.rank]
      · rw [if_neg hlarge]
        rw [hmany] at hlarge
        by_cases hid : r.lastMessageId = some ""
        · refine Or.inr ⟨_, if_pos hid, .emptyId hid, fun q hq => ?_⟩
          cases hq with
          | key hnot => exact absurd hkey hnot
          | zero h => exact absurd h hzero
          | tooLarge h => exact absurd h hlarge
          | emptyId => exact Nat.le_refl _
        · exact Or.inl ⟨⟨hkey, ⟨by omega, by omega⟩, hid⟩, if_neg hid⟩
  · have hinvalid : (!isValid key) = true := by
      rw [Bool.not_eq_true', ← Bool.not_eq_true, isValid_iff]
      exact hkey
    exact Or.inr ⟨_, if_pos hinvalid, .key hkey, fun _ _ => Nat.zero_le _⟩

theorem entryProblem?_eq_none_iff_proper :
    entryProblem? maximum key r = none ↔ ProperEntry maximum key r := by
  rcases proper_or_first maximum key r with ⟨hproper, hnone⟩ | ⟨p, hsome, hconcerns, -⟩
  · exact iff_of_true hnone hproper
  · exact iff_of_false (hsome ▸ Option.some_ne_none p) fun h => h.not_concerns hconcerns

/-- What is found in an entry is the first of its problems. -/
theorem first_of_entryProblem? (h : entryProblem? maximum key r = some p) :
    p.Concerns maximum key r ∧ ∀ q : Problem, q.Concerns maximum key r → p.rank ≤ q.rank := by
  rcases proper_or_first maximum key r with ⟨-, hnone⟩ | ⟨p', hsome, hfirst⟩
  · exact absurd (h.symm.trans hnone) (Option.some_ne_none p)
  · exact Option.some.inj (h.symm.trans hsome) ▸ hfirst

theorem problem?_eq_none_iff_proper :
    problem? maximum rs = none ↔ ∀ e ∈ rs.entries, ProperEntry maximum e.1 e.2 := by
  rw [problem?, List.findSome?_eq_none_iff]
  exact forall₂_congr fun _ _ => entryProblem?_eq_none_iff_proper

/-- **What is reported is the first problem of the smallest key that has one.** -/
theorem isReported_of_problem? (h : problem? maximum rs = some p) : p.IsReported maximum rs := by
  obtain ⟨before, e, behind, hentries, hfound, hbefore⟩ := List.findSome?_eq_some_iff.mp h
  obtain ⟨hconcerns, hfirst⟩ := first_of_entryProblem? hfound
  refine ⟨e, hentries ▸ List.mem_append_right _ List.mem_cons_self, hconcerns, hfirst,
    fun d hd q hq => ?_⟩
  rw [hentries, List.mem_append, List.mem_cons] at hd
  rcases hd with hd | rfl | hd
  · exact absurd hq (entryProblem?_eq_none_iff_proper.mp (hbefore d hd)).not_concerns
  · exact Or.inl rfl
  · have hascending := rs.ascending
    rw [hentries, List.map_append, List.map_cons, List.pairwise_append, List.pairwise_cons]
      at hascending
    exact Or.inr (Text.Utf8.encode_lt_encode (hascending.2.1.1 d.1 (List.mem_map_of_mem hd)))

end ConsumeRequests

end Wire
end TopicRelay
