/-
  A place in a log is found by halving.

      halve         the first place at which a test fails, in about log₂ n probes
      slice?        the items between two places; nothing if the places are no places of the list
      searchFrom    the place after an id: the ids before it, as bytes, are not above that id
      cutOut?       from that place on as many messages as asked for, but not beyond the end

  specification   on a log whose ids ascend this is what a scan from the front gives, the first
                  messages with larger ids (`cutOut?_eq`); in particular both places are in the log
  the crux        halving assumes that the test holds up to one place and nowhere behind it.  The ids of
                  a log give that for every id that may be asked for, also for one that no message has:
                  what comes after it is a tail of the log (`split_at`)
  overflow        the end is the sum of the place and the limit, which stops at the largest number of 64
                  bits.  A log is shorter, so the sum that is too small is still beyond its end
-/
import TopicRelay.Proofs.Log.Order
import TopicRelay.Proofs.Text.Utf8Order

namespace TopicRelay.Log

open Text (Utf8.encode)

/-! ## Halving -/

section
variable {α : Type}

/-- The first place between `lo` and `hi` at which a test fails. -/
def halve (test : α → Bool) (l : List α) (lo hi : Nat) : Nat :=
  if lo < hi then
    let mid := lo + (hi - lo) / 2
    if l[mid]?.any test then halve test l (mid + 1) hi else halve test l lo mid
  else lo
termination_by hi - lo

/-- The place stays between the two ends of what is left. -/
theorem halve_eq {test : α → Bool} {l : List α} {n : Nat}
    (hbefore : ∀ i, i < n → l[i]?.any test = true) (hbehind : ∀ i, n ≤ i → l[i]?.any test = false)
    {lo hi : Nat} (hlo : lo ≤ n) (hhi : n ≤ hi) : halve test l lo hi = n := by
  fun_induction halve test l lo hi with
  | case1 lo hi hlt mid hholds ih =>
    have hmid : mid < n := by
      by_contra hge
      rw [hbehind mid (by omega)] at hholds
      cases hholds
    exact ih (by omega) hhi
  | case2 lo hi hlt mid hfails ih =>
    have hmid : n ≤ mid := by
      by_contra hless
      exact hfails (hbefore mid (by omega))
    exact ih hlo hmid
  | case3 lo hi hdone => omega

/-- **Halving finds where a front ends** that passes the test, if nothing behind it does. -/
theorem halve_append {test : α → Bool} {front rest : List α} (hfront : ∀ a ∈ front, test a = true)
    (hrest : ∀ a ∈ rest, test a = false) :
    halve test (front ++ rest) 0 (front ++ rest).length = front.length := by
  refine halve_eq (fun i hi => ?_) (fun i hi => ?_) (Nat.zero_le _) ?_
  · rw [List.getElem?_append_left hi, List.getElem?_eq_getElem hi, Option.any_some]
    exact hfront _ (List.getElem_mem hi)
  · rw [List.getElem?_append_right hi]
    cases hget : rest[i - front.length]? with
    | none => rfl
    | some a =>
      rw [Option.any_some]
      exact hrest a (List.mem_of_getElem? hget)
  · rw [List.length_append]
    exact Nat.le_add_right _ _

/-- The items between two places, if these are places of the list, in order. -/
def slice? (l : List α) (start stop : Nat) : Option (List α) :=
  if start ≤ stop ∧ stop ≤ l.length then some ((l.drop start).take (stop - start)) else none

section

variable {l w : List α} {start stop : Nat} {a : α}

/-- A slice reaches from one place of the list to a later one. -/
theorem places_of_slice? (h : slice? l start stop = some w) :
    start ≤ stop ∧ stop ≤ l.length ∧ w.length = stop - start := by
  rw [slice?] at h
  split at h
  · next hplaces =>
    cases h
    refine ⟨hplaces.1, hplaces.2, ?_⟩
    rw [List.length_take, List.length_drop]
    omega
  · cases h

/-- All items from a place on. -/
theorem slice?_drop (h : start ≤ l.length) : slice? l start l.length = some (l.drop start) := by
  rw [slice?, if_pos ⟨h, Nat.le_refl _⟩, List.take_of_length_le (Nat.le_of_eq List.length_drop)]

theorem slice?_single (ha : l[start]? = some a) : slice? l start (start + 1) = some [a] := by
  obtain ⟨hlt, rfl⟩ := List.getElem?_eq_some_iff.mp ha
  rw [slice?, if_pos ⟨Nat.le_succ _, hlt⟩, Nat.add_sub_cancel_left, List.drop_eq_getElem_cons hlt]
  rfl

/-- One more item. -/
theorem slice?_concat (h : slice? l start stop = some w) (ha : l[stop]? = some a) :
    slice? l start (stop + 1) = some (w ++ [a]) := by
  obtain ⟨hle, hstop, -⟩ := places_of_slice? h
  rw [slice?, if_pos ⟨hle, hstop⟩] at h
  obtain ⟨hlt, -⟩ := List.getElem?_eq_some_iff.mp ha
  rw [slice?, if_pos ⟨Nat.le_succ_of_le hle, hlt⟩, Nat.succ_sub hle, List.take_add_one,
    List.getElem?_drop, Nat.add_sub_cancel' hle, ha, Option.some.inj h]
  rfl

/-- Items that come later make no difference. -/
theorem slice?_append (h : slice? l start stop = some w) (more : List α) :
    slice? (l ++ more) start stop = some w := by
  obtain ⟨hle, hstop, -⟩ := places_of_slice? h
  rw [slice?, if_pos ⟨hle, hstop⟩] at h
  rw [slice?, if_pos ⟨hle, by rw [List.length_append]; omega⟩,
    List.drop_append_of_le_length (Nat.le_trans hle hstop),
    List.take_append_of_le_length (by rw [List.length_drop]; omega), h]

end

end

/-! ## Messages -/

/-- Whether a message comes after an id, by their bytes; all messages come after none. -/
def isBehind (after : Option MessageId) (m : Message) : Bool :=
  after.all fun id => Utf8.encode id < Utf8.encode m.id

/-- Ids may be compared as texts or as bytes. -/
theorem isBehind_eq_isAfter (after : Option MessageId) (m : Message) :
    isBehind after m = isAfter after m := by
  cases after with
  | none => rfl
  | some id =>
    rw [isBehind, isAfter, Option.all_some, Option.all_some, decide_eq_decide]
    exact Text.Utf8.encode_lt_encode_iff

/-- The place after an id. -/
def searchFrom (after : Option MessageId) (ms : List Message) : Nat :=
  match after with
  | none => 0
  | some id => halve (fun m => Utf8.encode m.id ≤ Utf8.encode id) ms 0 ms.length

/-- A sum of 64 bits that stays at the largest number. -/
def saturatingAdd (a b : Nat) : Nat := min (a + b) (UInt64.size - 1)

/-- At most `limit` messages after an id, by places. -/
def cutOut? (after : Option MessageId) (limit : Nat) (ms : List Message) : Option (List Message) :=
  let start := searchFrom after ms
  slice? ms start (min ms.length (saturatingAdd start limit))

theorem searchFrom_eq {ms : List Message} (h : Ascending ms) (after : Option MessageId) :
    searchFrom after ms = (ms.filter fun m => !isAfter after m).length := by
  cases after with
  | none =>
    have hnil : (ms.filter fun m => !isAfter none m) = [] :=
      List.filter_eq_nil_iff.mpr fun m _ => by rw [isAfter_none]; decide
    rw [hnil]
    rfl
  | some id =>
    have htest : ∀ m : Message, decide (Utf8.encode m.id ≤ Utf8.encode id) = !isAfter (some id) m := by
      intro m
      rw [← isBehind_eq_isAfter, isBehind, Option.all_some, ← decide_not, decide_eq_decide]
      exact List.not_lt.symm
    have hfront : ∀ m ∈ ms.filter fun m => !isAfter (some id) m, (!isAfter (some id) m) = true :=
      fun m hm => (List.mem_filter.mp hm).2
    have hrest : ∀ m ∈ ms.filter (isAfter (some id)), (!isAfter (some id) m) = false := by
      intro m hm
      rw [(List.mem_filter.mp hm).2]
      rfl
    have hhalve := halve_append hfront hrest
    rw [← split_at h] at hhalve
    simp only [searchFrom, htest]
    exact hhalve

/-- **What is cut out by places** are the first messages after the id, and there is always something to
    cut out, however large the limit is. -/
theorem cutOut?_eq {ms : List Message} (h : Ascending ms) (hlength : ms.length < UInt64.size)
    (after : Option MessageId) (limit : Nat) :
    cutOut? after limit ms = some ((ms.filter (isBehind after)).take limit) := by
  have hsplit := split_at h after
  have hfilter : ms.filter (isBehind after) = ms.filter (isAfter after) :=
    List.filter_congr fun m _ => isBehind_eq_isAfter after m
  have hplace := searchFrom_eq h after
  rw [hfilter]
  -- from here on only the two parts of the log matter
  generalize (ms.filter fun m => !isAfter after m) = front at hsplit hplace
  generalize ms.filter (isAfter after) = rest at hsplit
  have hsum : ms.length = front.length + rest.length := by rw [hsplit, List.length_append]
  have hstop : min ms.length (saturatingAdd front.length limit)
      = front.length + min limit rest.length := by
    unfold saturatingAdd
    omega
  have hdrop : ms.drop front.length = rest := by rw [hsplit, List.drop_left]
  rw [cutOut?, hplace, slice?, hstop, if_pos (by omega), hdrop, Nat.add_sub_cancel_left,
    ← List.take_eq_take_min]

end TopicRelay.Log
