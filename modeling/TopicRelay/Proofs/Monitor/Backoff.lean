/-
  How long a monitor waits after a failure.

      promised       the first wait, doubled with each further failure in a row, but not beyond a limit
      kept           the same with 31 doublings at most (`baseDelay_new`)

  specification   of the failures since the last success, the first ones are followed by a wait and no
                  later one is; the waits lie between the first one and the limit and do not get shorter,
                  and a random part of up to a tenth is added (`waits_in_order`)
  overflow        all numbers on the way fit the words that hold them (`failureHeld_eq`).  The one product
                  that may not fit is made with a check, and then the limit takes its place; as the limit
                  fits, this is the smaller of the two even so (`baseDelay_eq`)
  what is amiss   a wait that is still below the limit after 31 doublings stays there.  So what is promised
                  is kept for the first 32 failures in a row, and for later ones if and only if the limit
                  is reached by then, or the first wait is none at all (`baseDelay_promised_iff`)
-/
import Mathlib.Algebra.Group.Nat.Defs
import Mathlib.Data.List.DropRight
import TopicRelay.Proofs.Monitor.Tally

namespace TopicRelay.Monitor.Backoff

variable {b : Backoff} {initial maximum : UInt64} {tolerated : UInt32}

/-! ## The wait as a formula -/

/-- A check for what is too long to be measured makes no difference below a limit that is not. -/
theorem baseDelay_eq (h : b.longest ≤ longestTime) (n : UInt32) :
    b.baseDelay n = min (b.initial * 2 ^ min (n.toNat - 1) maxDoublings) b.longest := by
  rw [baseDelay, Nat.shiftLeft_eq]
  split
  · rfl
  · next hlong => exact (Nat.min_eq_right (by omega)).symm

/-- The wait that is promised after the `n`-th failure in a row. -/
def promised (initial maximum : UInt64) (n : Nat) : Nat :=
  min (initial.toNat * 2 ^ (n - 1)) (max initial.toNat maximum.toNat)

/-- A number of 64 bits is far below the longest time in milliseconds. -/
theorem limit_lt (initial maximum : UInt64) : max initial.toNat maximum.toNat < 2 ^ 64 :=
  Nat.max_lt.mpr ⟨initial.toNat_lt, maximum.toNat_lt⟩

theorem limit_le_longestTime (initial maximum : UInt64) :
    max initial.toNat maximum.toNat ≤ longestTime := by
  have hlt := limit_lt initial maximum
  rw [longestTime]
  omega

/-- **What is kept of the promise.** -/
theorem baseDelay_new (initial maximum : UInt64) (tolerated n : UInt32) :
    (new initial maximum tolerated).baseDelay n = promised initial maximum (min n.toNat 32) := by
  have hlimit : (new initial maximum tolerated).longest = max initial.toNat maximum.toNat :=
    Nat.max_comm _ _
  rw [baseDelay_eq (hlimit ▸ limit_le_longestTime initial maximum), hlimit, promised, maxDoublings,
    show min n.toNat 32 - 1 = min (n.toNat - 1) 31 by omega]
  rfl

/-- More failures are never promised a shorter wait. -/
theorem promised_mono (initial maximum : UInt64) {m n : Nat} (h : m ≤ n) :
    promised initial maximum m ≤ promised initial maximum n := by
  have hpow : 2 ^ (m - 1) ≤ 2 ^ (n - 1) := Nat.pow_le_pow_right (by decide) (by omega)
  have hmul := Nat.mul_le_mul_left initial.toNat hpow
  rw [promised, promised]
  omega

theorem le_promised (initial maximum : UInt64) (n : Nat) :
    initial.toNat ≤ promised initial maximum n :=
  Nat.le_min.mpr ⟨Nat.le_mul_of_pos_right _ (Nat.pow_pos (by decide)), Nat.le_max_left _ _⟩

theorem promised_le (initial maximum : UInt64) (n : Nat) :
    promised initial maximum n ≤ max initial.toNat maximum.toNat := Nat.min_le_right _ _

/-- **The promise is kept** after the first 32 failures in a row, and after later ones if and only if 31
    doublings lead to the limit.  Otherwise the wait is as long as after the 32nd. -/
theorem baseDelay_promised_iff (initial maximum : UInt64) (tolerated n : UInt32) :
    (new initial maximum tolerated).baseDelay n = promised initial maximum (min n.toNat 32)
    ∧ ((new initial maximum tolerated).baseDelay n = promised initial maximum n.toNat
      ↔ n.toNat ≤ 32 ∨ initial = 0 ∨ maximum.toNat ≤ initial.toNat * 2 ^ 31) := by
  refine ⟨baseDelay_new initial maximum tolerated n, ?_⟩
  rw [baseDelay_new]
  rcases Nat.lt_or_ge 32 n.toNat with hmany | hfew
  · rw [Nat.min_eq_right (Nat.le_of_lt hmany)]
    have hzero : initial = 0 ↔ initial.toNat = 0 := UInt64.toNat_inj.symm
    -- one more doubling at least is missing
    have hpow : 2 ^ 32 ≤ 2 ^ (n.toNat - 1) := Nat.pow_le_pow_right (by decide) (by omega)
    have hmul := Nat.mul_le_mul_left initial.toNat hpow
    rw [hzero, promised, promised]
    rcases Nat.eq_zero_or_pos initial.toNat with hnone | hsome
    · simp [hnone]
    · show min (initial.toNat * 2 ^ 31) _ = _ ↔ _
      omega
  · rw [Nat.min_eq_left hfew]
    exact iff_of_true rfl (Or.inl hfew)

/-- From one millisecond to 2³² of them it takes 32 doublings, and only 31 are made. -/
theorem not_promised_many_doublings :
    ¬ (new 1 0x100000000 10).baseDelay 33 = promised 1 0x100000000 33 := by decide

/-! ## Failures and successes -/

/-- What a backoff is told: a failure, after which a number is drawn in some way, or a success. -/
inductive Report where
  | failure (draw : Nat → Nat)
  | success

/-- Whether it is a failure. -/
def Report.isFailure : Report → Bool
  | .failure _ => true
  | .success => false

/-- What follows from a report: the wait with its random part, if there is one. -/
def tell (b : Backoff) : Report → Option Nat × Backoff
  | .failure draw => (b.failure.1.map (withJitter draw), b.failure.2)
  | .success => (none, b.reset)

/-- A backoff that was told one thing after the other. -/
def after (b : Backoff) (reports : List Report) : Backoff := reports.foldl (fun b r => (b.tell r).2) b

/-- How many failures there were since the last success. -/
def inARow (reports : List Report) : Nat := (reports.rtakeWhile (·.isFailure)).length

theorem after_concat (b : Backoff) (reports : List Report) (r : Report) :
    b.after (reports ++ [r]) = ((b.after reports).tell r).2 := by
  rw [after, List.foldl_concat]
  rfl

theorem inARow_failure (reports : List Report) (draw : Nat → Nat) :
    inARow (reports ++ [.failure draw]) = inARow reports + 1 := by
  rw [inARow, List.rtakeWhile_concat, Report.isFailure, if_pos rfl, List.length_append]
  rfl

theorem inARow_success (reports : List Report) : inARow (reports ++ [.success]) = 0 := by
  rw [inARow, List.rtakeWhile_concat, Report.isFailure, if_neg Bool.false_ne_true]
  rfl

/-! ## Numbers in words -/

/-- The largest number of 64 bits. -/
def largestWord : Nat := 0xFFFFFFFFFFFFFFFF

/-- A number where none can be held that is larger than `largest`. -/
def held (largest n : Nat) : Option Nat := if n ≤ largest then some n else none

theorem held_eq {largest n : Nat} (h : n ≤ largest) : held largest n = some n := if_pos h

/-- The count after one more failure, in 32 bits.  It stays as it is if it is the largest one. -/
def countHeld (b : Backoff) : Option Nat :=
  if b.failures.toNat = largestCount then some largestCount
  else held largestCount (b.failures.toNat + 1)

/-- The wait without its random part, by a factor of 32 bits.  If the product is too long to be measured
    this is noticed, and the longest wait takes its place. -/
def baseDelayHeld (b : Backoff) (failures : Nat) : Option Nat :=
  (held largestCount (1 <<< min (failures - 1) maxDoublings)).map fun factor =>
    ((held longestTime (b.initial * factor)).map (min · b.longest)).getD b.longest

/-- The wait with its random part, which is found from the milliseconds in 64 bits. -/
def withJitterHeld (draw : Nat → Nat) (base : Nat) : Option Nat :=
  (held largestWord base).bind fun milliseconds =>
    held longestTime (base + min (draw (milliseconds / 10)) (milliseconds / 10))

/-- One more failure, where each number on the way has to fit what it is held in.  There is no result if
    one of them does not. -/
def failureHeld (draw : Nat → Nat) (b : Backoff) : Option (Option Nat × Backoff) :=
  b.countHeld.bind fun count =>
    let b := { b with failures := UInt32.ofNat count }
    if b.tolerated.toNat < count then some (none, b)
    else ((b.baseDelayHeld count).bind (withJitterHeld draw)).map fun delay => (some delay, b)

theorem countHeld_eq (b : Backoff) : b.countHeld = some b.countFailure.toNat := by
  have hbound : b.failures.toNat ≤ largestCount := Nat.le_of_lt_succ b.failures.toNat_lt
  have hcount := toNat_countFailure (n := b.failures.toNat) (Nat.min_eq_left hbound).symm
  rw [countHeld, hcount]
  split
  · next hmost => rw [Nat.min_eq_right (by omega)]
  · next hless => rw [held_eq (by omega), Nat.min_eq_left (by omega)]

theorem baseDelayHeld_eq (b : Backoff) (failures : UInt32) :
    b.baseDelayHeld failures.toNat = some (b.baseDelay failures) := by
  have hfactor : 1 <<< min (failures.toNat - 1) maxDoublings ≤ largestCount := by
    rw [Nat.one_shiftLeft]
    exact Nat.le_trans (Nat.pow_le_pow_right (by decide) (Nat.min_le_right _ _)) (by decide)
  rw [baseDelayHeld, held_eq hfactor, Option.map_some, Nat.one_shiftLeft, ← Nat.shiftLeft_eq,
    baseDelay, held]
  split <;> rfl

/-- A tenth more than a number of 64 bits is a time that can be measured. -/
theorem withJitterHeld_eq (draw : Nat → Nat) {base : Nat} (h : base ≤ largestWord) :
    withJitterHeld draw base = some (withJitter draw base) := by
  have hrandom : min (draw (base / 10)) (base / 10) ≤ base / 10 := Nat.min_le_right _ _
  rw [withJitterHeld, held_eq h, Option.bind_some, held_eq]
  · rfl
  · rw [largestWord] at h
    rw [longestTime]
    omega

/-! ## What a backoff has counted -/

/-- A backoff that was made with these settings and has counted some failures in a row. -/
structure Counts (initial maximum : UInt64) (tolerated : UInt32) (n : Nat) (b : Backoff) : Prop where
  first : b.initial = initial.toNat
  limit : b.longest = max initial.toNat maximum.toNat
  borne : b.tolerated = tolerated
  count : b.failures.toNat = min n largestCount

namespace Counts

variable {n : Nat}

theorem new (initial maximum : UInt64) (tolerated : UInt32) :
    Counts initial maximum tolerated 0 (.new initial maximum tolerated) :=
  ⟨rfl, Nat.max_comm _ _, rfl, rfl⟩

theorem failure (h : Counts initial maximum tolerated n b) :
    Counts initial maximum tolerated (n + 1) b.failure.2 :=
  ⟨h.first, h.limit, h.borne, toNat_countFailure h.count⟩

theorem reset (h : Counts initial maximum tolerated n b) :
    Counts initial maximum tolerated 0 b.reset := ⟨h.first, h.limit, h.borne, rfl⟩

/-- Whatever a backoff was told, it has counted the failures since the last success. -/
theorem after (initial maximum : UInt64) (tolerated : UInt32) (reports : List Report) :
    Counts initial maximum tolerated (inARow reports)
      ((Backoff.new initial maximum tolerated).after reports) := by
  induction reports using List.reverseRecOn with
  | nil => exact .new initial maximum tolerated
  | append_singleton reports r ih =>
    rw [after_concat]
    cases r with
    | failure draw =>
      rw [inARow_failure]
      exact ih.failure
    | success =>
      rw [inARow_success]
      exact ih.reset

theorem baseDelay (h : Counts initial maximum tolerated n b) (k : UInt32) :
    b.baseDelay k = promised initial maximum (min k.toNat 32) := by
  rw [← baseDelay_new initial maximum tolerated, Backoff.baseDelay, Backoff.baseDelay, h.first,
    h.limit, Nat.max_comm]
  rfl

/-- **The wait after one more failure.**  There is one unless the failures are too many now. -/
theorem wait (h : Counts initial maximum tolerated n b) (hfew : tolerated.toNat < largestCount) :
    b.failure.1 = if n < tolerated.toNat then some (promised initial maximum (min (n + 1) 32))
      else none := by
  have hcount := toNat_countFailure h.count
  have hmany : b.tolerated < b.countFailure ↔ ¬ n < tolerated.toNat := by
    rw [UInt32.lt_iff_toNat_lt, hcount, h.borne]
    omega
  have hdoublings : min b.countFailure.toNat 32 = min (n + 1) 32 := by
    rw [hcount, Nat.min_assoc]
    rfl
  show (if b.tolerated < b.countFailure then none else some (b.baseDelay b.countFailure)) = _
  rw [h.baseDelay, hdoublings]
  by_cases hn : n < tolerated.toNat
  · rw [if_pos hn, if_neg fun hover => hmany.mp hover hn]
  · rw [if_neg hn, if_pos (hmany.mpr hn)]

/-- **Every number fits.** -/
theorem failureHeld_eq (h : Counts initial maximum tolerated n b) (draw : Nat → Nat) :
    b.failureHeld draw = some (b.tell (.failure draw)) := by
  have hword : b.baseDelay b.countFailure ≤ largestWord := by
    rw [h.baseDelay]
    exact Nat.le_of_lt_succ
      (Nat.lt_of_le_of_lt (promised_le initial maximum _) (limit_lt initial maximum))
  have hsame : UInt32.ofNat b.countFailure.toNat = b.countFailure := UInt32.ofNat_toNat
  have hdelay : ({ b with failures := b.countFailure }.baseDelayHeld b.countFailure.toNat).bind
      (withJitterHeld draw) = some (withJitter draw (b.baseDelay b.countFailure)) := by
    rw [baseDelayHeld_eq]
    exact withJitterHeld_eq draw hword
  rw [failureHeld, countHeld_eq, Option.bind_some, hsame]
  show (if b.tolerated < b.countFailure then _ else _) = _
  rw [hdelay, tell, Backoff.failure]
  split <;> rfl

end Counts

/-! ## The whole course -/

/-- **The waits are in order.**  Whatever a backoff was told before, as long as it is not told to put up
    with the largest number of failures there is:

    * each number on the way to the next wait fits what it is held in;
    * there is a next wait if and only if there were fewer failures since the last success than are put
      up with;
    * its base lies between the first wait and the limit, the wait is longer than that by a tenth at
      most, and the base of the wait after it, if there is one, is not smaller. -/
theorem waits_in_order (initial maximum : UInt64) (tolerated : UInt32)
    (h : tolerated.toNat < largestCount) (reports : List Report) :
    let b := (new initial maximum tolerated).after reports
    (∀ draw, b.failureHeld draw = some (b.tell (.failure draw)))
    ∧ (∀ draw, (b.tell (.failure draw)).1.isSome ↔ inARow reports < tolerated.toNat)
    ∧ ∀ base, b.failure.1 = some base →
        initial.toNat ≤ base ∧ base ≤ max initial.toNat maximum.toNat
        ∧ (∀ draw, ∃ delay, (b.tell (.failure draw)).1 = some delay
            ∧ base ≤ delay ∧ delay ≤ base + base / 10)
        ∧ ∀ next, b.failure.2.failure.1 = some next → base ≤ next := by
  intro b
  have hcounts : Counts initial maximum tolerated (inARow reports) b := .after _ _ _ reports
  have hwait := hcounts.wait h
  refine ⟨hcounts.failureHeld_eq, fun draw => ?_, fun base hbase => ?_⟩
  · rw [tell, Option.isSome_map, hwait]
    split <;> simp_all
  · have hbase' : base = promised initial maximum (min (inARow reports + 1) 32) := by
      rw [hwait] at hbase
      split at hbase <;> simp_all
    refine ⟨hbase' ▸ le_promised .., hbase' ▸ promised_le .., fun draw => ?_, fun next hnext => ?_⟩
    · refine ⟨withJitter draw base, by rw [tell, hbase]; rfl, Nat.le_add_right _ _, ?_⟩
      exact Nat.add_le_add_left (Nat.min_le_right _ _) base
    · rw [hcounts.failure.wait h] at hnext
      have hnext' : next = promised initial maximum (min (inARow reports + 1 + 1) 32) := by
        split at hnext <;> simp_all
      rw [hbase', hnext']
      exact promised_mono initial maximum (by omega)

/-- The first wait is half of the longest one there is, and there were eleven failures in a row after a
    success: the product that the next wait is made with is too long to be measured. -/
theorem waits_in_order_longest :
    let reports := [.failure id, .success] ++ List.replicate 11 (.failure id)
    let b := (new 0x8000000000000000 0xFFFFFFFFFFFFFFFF 12).after reports
    (12 : UInt32).toNat < largestCount
    ∧ longestTime < b.initial * 2 ^ 11 ∧ b.failure.1 = some 0xFFFFFFFFFFFFFFFF
    ∧ b.failureHeld id = some (b.tell (.failure id)) ∧ (b.tell (.failure id)).1.isSome
    ∧ (∀ draw, ∃ delay, (b.tell (.failure draw)).1 = some delay
        ∧ 0xFFFFFFFFFFFFFFFF ≤ delay ∧ delay ≤ 0xFFFFFFFFFFFFFFFF + 0x1999999999999999)
    ∧ b.failure.2.failure.1 = none := by
  intro reports b
  have hfew : (12 : UInt32).toNat < largestCount := by decide
  have hbase : b.failure.1 = some 0xFFFFFFFFFFFFFFFF := by decide
  obtain ⟨hfits, hsome, hwaits⟩ :=
    waits_in_order 0x8000000000000000 0xFFFFFFFFFFFFFFFF 12 hfew reports
  obtain ⟨-, -, hdelay, -⟩ := hwaits _ hbase
  exact ⟨hfew, by decide, hbase, hfits id, (hsome id).mpr (by decide), hdelay, by decide⟩

end TopicRelay.Monitor.Backoff
