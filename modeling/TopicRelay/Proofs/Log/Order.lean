/-
  Places in a log.

  An offset is a place between the messages of a log: before it are the messages whose ids are not
  above it, after it all others.  In a log whose ids ascend these two are a front and a rest, so what
  follows an offset is what the log has after some of its messages (`following_eq_filter`,
  `split_at`), and going on to the last message of a batch moves the place past just that batch
  (`following_last`, `passed_last`).

  A log only grows at its end.  What follows a place can then only get longer, and what was passed up
  to one of its messages stays the same (`following_grows`, `passed_grows`).
-/
import TopicRelay.Log.Memory

namespace TopicRelay.Log

/-! ## Order -/

/-- The ids of a log ascend, each above those before it. -/
def Ascending (log : List Message) : Prop := log.Pairwise (·.id < ·.id)

/-- Whether a message comes after an offset; all messages come after none. -/
def isAfter (offset : Option MessageId) (m : Message) : Bool := offset.all (· < m.id)

/-- The messages after an offset, up to another one. -/
def passed (start upTo : Option MessageId) (log : List Message) : List Message :=
  log.filter fun m => isAfter start m && !isAfter upTo m

@[simp] theorem isAfter_none (m : Message) : isAfter none m = true := rfl

@[simp] theorem isAfter_some (id : MessageId) (m : Message) :
    isAfter (some id) m = true ↔ id < m.id := by
  rw [isAfter, Option.all_some, decide_eq_true_eq]

theorem le_of_lt {a b : MessageId} (h : a < b) : a ≤ b := String.not_lt.mp (String.lt_asymm h)

theorem lt_of_le_of_lt {a b c : MessageId} (hab : a ≤ b) (hbc : b < c) : a < c :=
  String.not_le.mp fun hca => String.not_le.mpr hbc (String.le_trans hca hab)

/-- What comes after a later place comes after an earlier one. -/
theorem isAfter_of_le {a b : Option MessageId} (hab : a ≤ b) {m : Message} (h : isAfter b m = true) :
    isAfter a m = true := by
  cases a with
  | none => rfl
  | some x =>
    cases b with
    | none => exact absurd hab id
    | some y =>
      rw [isAfter_some] at h ⊢
      exact lt_of_le_of_lt hab h

theorem le_of_isAfter {a : Option MessageId} {m : Message} (h : isAfter a m = true) :
    a ≤ some m.id := by
  cases a with
  | none => exact trivial
  | some x => exact le_of_lt ((isAfter_some x m).mp h)

protected theorem le_refl (a : Option MessageId) : a ≤ a := by
  cases a with
  | none => exact trivial
  | some x => exact String.le_refl x

protected theorem le_trans {a b c : Option MessageId} (hab : a ≤ b) (hbc : b ≤ c) : a ≤ c := by
  cases a with
  | none => cases c <;> exact trivial
  | some x =>
    cases b with
    | none => exact absurd hab id
    | some y =>
      cases c with
      | none => exact absurd hbc id
      | some z => exact String.le_trans hab hbc

/-! ## What follows an offset -/

/-- Behind a message that comes after an offset, all do. -/
theorem isAfter_of_lt {a : Option MessageId} {m n : Message} (h : isAfter a m = true)
    (hmn : m.id < n.id) : isAfter a n = true := by
  cases a with
  | none => rfl
  | some x =>
    rw [isAfter_some] at h ⊢
    exact String.lt_trans h hmn

theorem following_eq_filter {log : List Message} (h : Ascending log) (a : Option MessageId) :
    MemoryLog.following a log = log.filter (isAfter a) := by
  cases a with
  | none => exact (List.filter_eq_self.mpr fun _ _ => rfl).symm
  | some id =>
    rw [MemoryLog.following]
    induction log with
    | nil => rfl
    | cons m log ih =>
      obtain ⟨hhead, htail⟩ := List.pairwise_cons.mp h
      by_cases hm : m.id ≤ id
      · have hnot : ¬ isAfter (some id) m = true := by
          rw [isAfter_some]
          exact String.not_lt.mpr hm
        rw [List.dropWhile_cons_of_pos (by rw [decide_eq_true_eq]; exact hm),
          List.filter_cons_of_neg hnot, ih htail]
      · have hafter : isAfter (some id) m = true := by
          rw [isAfter_some]
          exact String.not_le.mp hm
        rw [List.dropWhile_cons_of_neg (by rw [decide_eq_true_eq]; exact hm)]
        refine (List.filter_eq_self.mpr fun n hn => ?_).symm
        rcases List.mem_cons.mp hn with rfl | hn
        · exact hafter
        · exact isAfter_of_lt hafter (hhead n hn)

/-- A log is what is not after an offset, and then what is. -/
theorem split_at {log : List Message} (h : Ascending log) (a : Option MessageId) :
    log = (log.filter fun m => !isAfter a m) ++ log.filter (isAfter a) := by
  induction log with
  | nil => rfl
  | cons m log ih =>
    obtain ⟨hhead, htail⟩ := List.pairwise_cons.mp h
    by_cases hm : isAfter a m = true
    · have hall : ∀ n ∈ m :: log, isAfter a n = true := by
        intro n hn
        rcases List.mem_cons.mp hn with rfl | hn
        · exact hm
        · exact isAfter_of_lt hm (hhead n hn)
      rw [List.filter_eq_self.mpr hall, List.filter_eq_nil_iff.mpr fun n hn => by
        rw [hall n hn]; decide, List.nil_append]
    · rw [List.filter_cons_of_neg hm, List.filter_cons_of_pos (by simpa using hm), List.cons_append,
        ← ih htail]

/-- The next offset after a batch is its last id; what follows that is what comes behind the batch. -/
theorem following_last {log batch rest : List Message} {a : Option MessageId} {m : Message}
    (h : Ascending log) (hf : MemoryLog.following a log = (batch ++ [m]) ++ rest) :
    MemoryLog.following (some m.id) log = rest := by
  rw [following_eq_filter h] at hf ⊢
  have hm : m ∈ log.filter (isAfter a) := by
    rw [hf]
    exact List.mem_append_left _ (List.mem_append_right _ (List.mem_singleton_self m))
  have hle : a ≤ some m.id := le_of_isAfter (List.mem_filter.mp hm).2
  -- what comes after the last message comes after the old offset as well
  have hnested : log.filter (isAfter (some m.id))
      = (log.filter (isAfter a)).filter (isAfter (some m.id)) := by
    rw [List.filter_filter]
    refine List.filter_congr fun n _ => ?_
    cases hn : isAfter (some m.id) n with
    | false => rfl
    | true => rw [isAfter_of_le hle hn]; rfl
  have hsorted : ((batch ++ [m]) ++ rest).Pairwise (·.id < ·.id) := by
    rw [← hf]
    exact h.filter _
  obtain ⟨hbatch, -, hrest⟩ := List.pairwise_append.mp hsorted
  obtain ⟨-, -, hlast⟩ := List.pairwise_append.mp hbatch
  rw [hnested, hf, List.filter_append]
  have hnone : (batch ++ [m]).filter (isAfter (some m.id)) = [] := by
    refine List.filter_eq_nil_iff.mpr fun n hn => ?_
    rw [isAfter_some]
    rcases List.mem_append.mp hn with hn | hn
    · exact String.not_lt.mpr (le_of_lt (hlast n hn m (List.mem_singleton_self m)))
    · rw [List.mem_singleton.mp hn]
      exact String.lt_irrefl m.id
  rw [hnone, List.nil_append]
  refine List.filter_eq_self.mpr fun n hn => ?_
  rw [isAfter_some]
  exact hrest m (List.mem_append_right _ (List.mem_singleton_self m)) n hn

/-! ## What was passed -/

@[simp] theorem passed_self (a : Option MessageId) (log : List Message) : passed a a log = [] :=
  List.filter_eq_nil_iff.mpr fun m _ => by cases isAfter a m <;> decide

/-- Going on to the last id of a batch passes just that batch. -/
theorem passed_last {log batch rest : List Message} {start a : Option MessageId} {m : Message}
    (h : Ascending log) (hstart : start ≤ a)
    (hf : MemoryLog.following a log = (batch ++ [m]) ++ rest) :
    passed start (some m.id) log = passed start a log ++ (batch ++ [m]) := by
  have hlast := following_last h hf
  rw [following_eq_filter h] at hf hlast
  have hm : m ∈ log.filter (isAfter a) := by
    rw [hf]
    exact List.mem_append_left _ (List.mem_append_right _ (List.mem_singleton_self m))
  have hle : a ≤ some m.id := le_of_isAfter (List.mem_filter.mp hm).2
  have hsplit := split_at h a
  have hafter : (log.filter (isAfter a)).filter (fun n => isAfter start n && !isAfter (some m.id) n)
      = batch ++ [m] := by
    have hcongr : (log.filter (isAfter a)).filter (fun n => isAfter start n && !isAfter (some m.id) n)
        = (log.filter (isAfter a)).filter (fun n => !isAfter (some m.id) n) := by
      refine List.filter_congr fun n hn => ?_
      rw [isAfter_of_le hstart (List.mem_filter.mp hn).2, Bool.true_and]
    rw [hcongr]
    -- `m` cuts the messages after `a` in two, and the second part is the rest
    have hcut := split_at (h.filter (isAfter a)) (some m.id)
    have hrest : (log.filter (isAfter a)).filter (isAfter (some m.id)) = rest := by
      rw [List.filter_filter, ← hlast]
      refine List.filter_congr fun n _ => ?_
      cases hn : isAfter (some m.id) n with
      | false => rfl
      | true => rw [isAfter_of_le hle hn]; rfl
    rw [hrest, hf] at hcut
    rw [hf]
    exact (List.append_cancel_right hcut).symm
  have hbefore : (log.filter fun n => !isAfter a n).filter
        (fun n => isAfter start n && !isAfter (some m.id) n) = passed start a log := by
    rw [passed, List.filter_filter]
    refine List.filter_congr fun n _ => ?_
    cases ha : isAfter a n with
    | true => simp
    | false =>
      cases hn : isAfter (some m.id) n with
      | false => simp
      | true => rw [isAfter_of_le hle hn] at ha; cases ha
  rw [passed]
  conv => lhs; rw [hsplit]
  rw [List.filter_append, hafter, hbefore]

/-! ## Logs that grow -/

theorem following_grows {log log' : List Message} (h : log <+: log') (a : Option MessageId) :
    MemoryLog.following a log <+: MemoryLog.following a log' := by
  obtain ⟨new, rfl⟩ := h
  cases a with
  | none => exact List.prefix_append log new
  | some id =>
    rw [MemoryLog.following, MemoryLog.following, List.dropWhile_append]
    split
    · next hnil =>
      rw [List.isEmpty_iff.mp hnil]
      exact List.nil_prefix
    · exact List.prefix_append _ new

/-- New messages are behind every place that was reached. -/
theorem passed_grows {log log' : List Message} (h : log <+: log') (hasc : Ascending log')
    {start upTo : Option MessageId} (hplace : upTo = start ∨ ∃ m ∈ log, upTo = some m.id) :
    passed start upTo log' = passed start upTo log := by
  rcases hplace with rfl | ⟨m, hm, rfl⟩
  · rw [passed_self, passed_self]
  · obtain ⟨new, rfl⟩ := h
    rw [passed, passed, List.filter_append]
    have hnew : (new.filter fun n => isAfter start n && !isAfter (some m.id) n) = [] := by
      refine List.filter_eq_nil_iff.mpr fun n hn => ?_
      have hlt : isAfter (some m.id) n = true := by
        rw [isAfter_some]
        exact (List.pairwise_append.mp hasc).2.2 m hm n hn
      rw [hlt]
      simp
    rw [hnew, List.append_nil]

/-- Where nothing follows, all was passed. -/
theorem passed_of_following_eq_nil {log : List Message} (hasc : Ascending log)
    {upTo : Option MessageId} (h : MemoryLog.following upTo log = []) (start : Option MessageId) :
    passed start upTo log = MemoryLog.following start log := by
  rw [following_eq_filter hasc, List.filter_eq_nil_iff] at h
  rw [following_eq_filter hasc, passed]
  refine List.filter_congr fun m hm => ?_
  have hnot : isAfter upTo m = false := Bool.not_eq_true _ ▸ h m hm
  rw [hnot, Bool.not_false, Bool.and_true]

end TopicRelay.Log
