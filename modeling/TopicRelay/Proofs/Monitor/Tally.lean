/-
  What a monitor counts.

  An attempt is a resolution while the monitor is starting, or a cycle.  A monitor counts the failures
  that can pass, and gives up at one more than it puts up with.  What takes the count back to zero is a
  cycle that succeeds, and a resolution after which some key is resolved; a resolution that succeeds
  and leaves no key resolved does not.

    tally   `counted` says of a list of attempts what a monitor has counted; it is the number of
            failures in a row at the end if and only if no success was overlooked, that is, came after
            failures and left them counted (`lastFailed_iff_not_overlooked`)
    run     what the monitor holds is that tally (`Counting`), and each step keeps it so
            (`Counting.step`); so it goes on while it has not counted too many, and gave up when it had
            counted just one too many (`CameTo`, `Counting.goOn`)

  The number of failures stays at the largest one there is.  A monitor that puts up with so many never
  gives up, and everything here says "or `m` is the largest" for its sake.
-/
import Mathlib.Data.List.Induction
import TopicRelay.Proofs.Monitor.Intake
import TopicRelay.Proofs.Monitor.Recording
import TopicRelay.Proofs.Monitor.Resolution
import TopicRelay.Proofs.Monitor.Simulation

namespace TopicRelay.Monitor

variable {σ : Type} {env : Surroundings σ}

/-! ## Attempts -/

/-- What an attempt came to. -/
inductive Attempt where
  /-- A cycle was completed, or after a resolution some key is resolved. -/
  | succeeded
  /-- A resolution was completed, and no key is resolved. -/
  | fruitless
  | failed (e : RelayError)
  /-- A stop came while the monitor was waiting for it. -/
  | abandoned
deriving DecidableEq

namespace Attempt

/-- Whether what was asked for was answered. -/
def isSuccess : Attempt → Bool
  | succeeded | fruitless => true
  | failed _ | abandoned => false

/-- Whether it failed in a way that can pass. -/
def hasPassingFailure : Attempt → Bool
  | failed e => e.isRetryable
  | succeeded | fruitless | abandoned => false

/-- Whether a monitor goes on after it, unless it gives up. -/
def isBorne (a : Attempt) : Bool := a.isSuccess || a.hasPassingFailure

/-- The failures that are counted after an attempt, with those that were before it. -/
def tally (n : Nat) : Attempt → Nat
  | succeeded => 0
  | failed e => if e.isRetryable then n + 1 else n
  | fruitless | abandoned => n

theorem exists_of_passing {a : Attempt} (h : a.hasPassingFailure = true) :
    ∃ e, a = .failed e ∧ e.isRetryable = true := by
  cases a with
  | failed e => exact ⟨e, rfl, h⟩
  | succeeded => cases h
  | fruitless => cases h
  | abandoned => cases h

theorem le_tally {a : Attempt} (h : a ≠ .succeeded) (n : Nat) : n ≤ a.tally n := by
  cases a with
  | succeeded => exact absurd rfl h
  | failed e =>
    rw [tally]
    split
    · exact Nat.le_succ n
    · exact Nat.le_refl n
  | fruitless => exact Nat.le_refl n
  | abandoned => exact Nat.le_refl n

end Attempt

/-- The failures that are counted after some attempts. -/
def counted (as : List Attempt) : Nat := as.foldl Attempt.tally 0

theorem counted_concat (as : List Attempt) (a : Attempt) :
    counted (as ++ [a]) = a.tally (counted as) := by
  rw [counted, List.foldl_append]
  rfl

theorem counted_failed {as : List Attempt} {e : RelayError} (he : e.isRetryable = true) :
    counted (as ++ [.failed e]) = counted as + 1 := by
  rw [counted_concat, Attempt.tally, if_pos he]

/-- The last `n` attempts failed, each in a way that can pass. -/
def LastFailed (n : Nat) (as : List Attempt) : Prop :=
  ∃ front last, as = front ++ last ∧ last.length = n ∧ ∀ a ∈ last, a.hasPassingFailure = true

/-- A success came after failures that were counted, and they are counted still. -/
def Overlooked (as : List Attempt) : Prop :=
  ∃ front back, as = front ++ .fruitless :: back ∧ 0 < counted front ∧ .succeeded ∉ back

/-! ## The tally, and failures in a row -/

theorem lastFailed_zero (as : List Attempt) : LastFailed 0 as :=
  ⟨as, [], (List.append_nil as).symm, rfl, fun _ h => by cases h⟩

/-- The last failure of a row, with the row before it. -/
theorem LastFailed.exists_concat {n : Nat} {as : List Attempt} (h : LastFailed (n + 1) as) :
    ∃ front e, as = front ++ [.failed e] ∧ e.isRetryable = true ∧ LastFailed n front := by
  obtain ⟨front, row, rfl, hlength, hrow⟩ := h
  rcases row.eq_nil_or_concat with rfl | ⟨row, a, rfl⟩
  · cases hlength
  · rw [List.concat_eq_append] at hlength hrow ⊢
    rw [List.length_append] at hlength
    obtain ⟨e, rfl, he⟩ := Attempt.exists_of_passing (hrow a List.mem_concat_self)
    exact ⟨front ++ row, e, (List.append_assoc _ _ _).symm, he, front, row, rfl,
      Nat.succ_inj.mp hlength, fun a ha => hrow a (List.mem_append_left _ ha)⟩

theorem lastFailed_concat {n : Nat} {as : List Attempt} {e : RelayError} (he : e.isRetryable = true) :
    LastFailed (n + 1) (as ++ [.failed e]) ↔ LastFailed n as := by
  constructor
  · intro h
    obtain ⟨front, e', hsplit, -, hrow⟩ := h.exists_concat
    obtain ⟨rfl, -⟩ := List.append_inj' hsplit rfl
    exact hrow
  · rintro ⟨front, row, rfl, rfl, hrow⟩
    refine ⟨front, row ++ [.failed e], List.append_assoc _ _ _, List.length_append, fun a ha => ?_⟩
    rcases List.mem_append.mp ha with ha | ha
    · exact hrow a ha
    · rw [List.mem_singleton.mp ha]
      exact he

/-- A row ends where an attempt did not fail. -/
theorem lastFailed_concat_of_success {n : Nat} {as : List Attempt} {a : Attempt}
    (ha : a.isSuccess = true) : LastFailed n (as ++ [a]) ↔ n = 0 := by
  constructor
  · intro h
    cases n with
    | zero => rfl
    | succ n =>
      obtain ⟨front, e, hsplit, -⟩ := h.exists_concat
      obtain ⟨-, hlast⟩ := List.append_inj' hsplit rfl
      rw [List.singleton_inj.mp hlast] at ha
      cases ha
  · rintro rfl
    exact lastFailed_zero _

/-- What failed in a row at the end is counted. -/
theorem LastFailed.le_counted {n : Nat} {as : List Attempt} (h : LastFailed n as) : n ≤ counted as := by
  induction n generalizing as with
  | zero => exact Nat.zero_le _
  | succ n ih =>
    obtain ⟨front, e, rfl, he, hrow⟩ := h.exists_concat
    rw [counted_failed he]
    exact Nat.succ_le_succ (ih hrow)

/-- Only a success that is taken note of makes the count smaller. -/
theorem counted_le_append {front back : List Attempt} (h : .succeeded ∉ back) :
    counted front ≤ counted (front ++ back) := by
  induction back using List.reverseRecOn with
  | nil => exact Nat.le_of_eq (congrArg counted (List.append_nil front).symm)
  | append_singleton back a ih =>
    have hle := ih fun hmem => h (List.mem_append_left _ hmem)
    rw [← List.append_assoc, counted_concat]
    refine Nat.le_trans hle (Attempt.le_tally ?_ _)
    rintro rfl
    exact h List.mem_concat_self

theorem overlooked_concat {as : List Attempt} {a : Attempt} : Overlooked (as ++ [a])
    ↔ a ≠ .succeeded ∧ (Overlooked as ∨ a = .fruitless ∧ 0 < counted as) := by
  constructor
  · rintro ⟨front, back, hsplit, hpos, hback⟩
    rcases split_concat hsplit with ⟨rfl, rfl, rfl⟩ | ⟨earlier, rfl, rfl⟩
    · exact ⟨by decide, Or.inr ⟨rfl, hpos⟩⟩
    · refine ⟨?_, Or.inl ⟨front, earlier, rfl, hpos, fun h => hback (List.mem_append_left _ h)⟩⟩
      rintro rfl
      exact hback List.mem_concat_self
  · rintro ⟨ha, ⟨front, back, rfl, hpos, hback⟩ | ⟨rfl, hpos⟩⟩
    · refine ⟨front, back ++ [a], by rw [List.append_assoc, List.cons_append], hpos, fun h => ?_⟩
      rcases List.mem_append.mp h with h | h
      · exact hback h
      · exact ha (List.mem_singleton.mp h).symm
    · exact ⟨as, [], rfl, hpos, by simp⟩

/-- What was overlooked is counted still. -/
theorem Overlooked.counted_pos {as : List Attempt} (h : Overlooked as) : 0 < counted as := by
  obtain ⟨front, back, rfl, hpos, hback⟩ := h
  refine Nat.lt_of_lt_of_le hpos (counted_le_append fun hmem => ?_)
  rcases List.mem_cons.mp hmem with hmem | hmem
  · cases hmem
  · exact hback hmem

/-- **The failures that are counted are the last attempts, if and only if no success was overlooked.** -/
theorem lastFailed_iff_not_overlooked {as : List Attempt} (hborne : ∀ a ∈ as, a.isBorne = true) :
    LastFailed (counted as) as ↔ ¬ Overlooked as := by
  induction as using List.reverseRecOn with
  | nil =>
    refine iff_of_true (lastFailed_zero _) ?_
    rintro ⟨front, back, hsplit, -⟩
    exact absurd hsplit.symm (List.append_ne_nil_of_right_ne_nil _ (List.cons_ne_nil _ _))
  | append_singleton as a ih =>
    have ih := ih fun b hb => hborne b (List.mem_append_left _ hb)
    have ha := hborne a List.mem_concat_self
    rw [counted_concat, overlooked_concat]
    cases a with
    | succeeded => simp [Attempt.tally, lastFailed_zero]
    | fruitless =>
      -- no row goes past a success, so the two sides agree only where nothing is counted
      rw [lastFailed_concat_of_success rfl]
      have hpos : Overlooked as → 0 < counted as := Overlooked.counted_pos
      show counted as = 0 ↔ _
      constructor
      · rintro hzero ⟨-, hover | ⟨-, hcount⟩⟩
        · exact absurd hzero (Nat.ne_of_gt (hpos hover))
        · exact absurd hzero (Nat.ne_of_gt hcount)
      · intro h
        rcases Nat.eq_zero_or_pos (counted as) with hzero | hcount
        · exact hzero
        · exact absurd ⟨by decide, Or.inr ⟨rfl, hcount⟩⟩ h
    | failed e =>
      have he : e.isRetryable = true := ha
      rw [Attempt.tally, if_pos he, lastFailed_concat he, ih]
      simp
    | abandoned => cases ha

/-! ## What a monitor counts -/

/-- The largest number of failures that a monitor can count. -/
def largestCount : Nat := 0xFFFFFFFF

theorem Backoff.toNat_countFailure {b : Backoff} {n : Nat} (h : b.failures.toNat = min n largestCount) :
    b.countFailure.toNat = min (n + 1) largestCount := by
  rw [countFailure]
  split
  · next hmost =>
    rw [hmost] at h ⊢
    change largestCount = min n largestCount at h
    show largestCount = _
    omega
  · next hmost =>
    have hne : b.failures.toNat ≠ largestCount := fun hc => hmost (UInt32.toNat_inj.mp hc)
    rw [UInt32.toNat_add, Nat.mod_eq_of_lt]
    · show b.failures.toNat + 1 = _
      omega
    · show b.failures.toNat + 1 < largestCount + 1
      omega

/-- **One more failure**, where there were not too many of them yet.  If there are too many now, it is
    by one. -/
theorem Backoff.failure_cases {b : Backoff} {m n : Nat} (htolerated : b.tolerated.toNat = m)
    (hfailures : b.failures.toNat = min n largestCount) (hwithin : n ≤ m ∨ m = largestCount) :
    ∃ count : UInt32, count.toNat = min (n + 1) largestCount
      ∧ ((b.failure = (none, { b with failures := count }) ∧ n = m ∧ count.toNat = m + 1)
        ∨ ∃ base, b.failure = (some base, { b with failures := count })
          ∧ (n + 1 ≤ m ∨ m = largestCount)) := by
  have hcount := toNat_countFailure hfailures
  refine ⟨b.countFailure, hcount, ?_⟩
  by_cases hover : b.tolerated < b.countFailure
  · have hlt := UInt32.lt_iff_toNat_lt.mp hover
    rw [htolerated, hcount] at hlt
    refine Or.inl ⟨Prod.ext (if_pos hover) rfl, ?_, ?_⟩
    · omega
    · omega
  · have hle := UInt32.le_iff_toNat_le.mp (UInt32.not_lt.mp hover)
    have hlargest : b.tolerated.toNat ≤ largestCount := Nat.le_of_lt_succ b.tolerated.toNat_lt
    rw [hcount] at hle
    refine Or.inr ⟨_, Prod.ext (if_neg hover) rfl, ?_⟩
    omega

/-- What a monitor has counted that puts up with `m` failures in a row and goes on. -/
structure Counting (m : Nat) (as : List Attempt) (t : Tracking) : Prop where
  tolerated : t.backoff.tolerated.toNat = m
  failures : t.backoff.failures.toNat = min (counted as) largestCount
  within : counted as ≤ m ∨ m = largestCount
  borne : ∀ a ∈ as, a.isBorne = true

/-- What a monitor has come to by some attempts.  A stop may end it at any time. -/
inductive CameTo (m : Nat) (as : List Attempt) : Except Halt Stage → Prop where
  | goesOn {stage : Stage} (hwithin : counted as ≤ m ∨ m = largestCount)
    (hborne : ∀ a ∈ as, a.isBorne = true) : CameTo m as (.ok stage)
  | abandoned : CameTo m as (.error .abandoned)
  /-- It gave up, at one failure more than it puts up with. -/
  | gaveUp {e : RelayError} {count : UInt32} (hlast : as.getLast? = some (.failed e))
    (he : e.isRetryable = true) (hcounted : counted as = m + 1) (hcount : count.toNat = m + 1)
    (hborne : ∀ a ∈ as, a.isBorne = true) :
    CameTo m as (.error (.failure (.tooManyFailures count e.message)))
  /-- It failed in a way that does not pass. -/
  | refused {e : RelayError} (hlast : as.getLast? = some (.failed e)) (he : e.isRetryable = false)
    (hwithin : counted as ≤ m ∨ m = largestCount) : CameTo m as (.error (.failure e))
  /-- It could not start. -/
  | hindered {e : RelayError} (hnone : as = []) (he : ∀ count last, e ≠ .tooManyFailures count last) :
    CameTo m as (.error (.failure e))

namespace Counting

variable {m : Nat} {as : List Attempt} {t t' : Tracking} {w w' : σ}

theorem of_fresh (h : t.backoff = (Tracking.new t.settings).backoff) :
    Counting t.settings.maxConsecutiveFailures.toNat [] t where
  tolerated := by rw [h]; rfl
  failures := by rw [h]; rfl
  within := Or.inl (Nat.zero_le _)
  borne _ ha := by cases ha

/-- Nothing but the count matters. -/
theorem keep (h : Counting m as t) (hb : t'.backoff = t.backoff) : Counting m as t' :=
  ⟨hb ▸ h.tolerated, hb ▸ h.failures, h.within, h.borne⟩

theorem borne_concat (h : Counting m as t) {a : Attempt} (ha : a.isBorne = true) :
    ∀ b ∈ as ++ [a], b.isBorne = true := by
  intro b hb
  rcases List.mem_append.mp hb with hb | hb
  · exact h.borne b hb
  · rwa [List.mem_singleton.mp hb]

theorem succeeded (h : Counting m as t) : Counting m (as ++ [.succeeded]) t.succeeded where
  tolerated := h.tolerated
  failures := by rw [counted_concat]; rfl
  within := by rw [counted_concat]; exact Or.inl (Nat.zero_le _)
  borne := h.borne_concat rfl

theorem fruitless (h : Counting m as t) : Counting m (as ++ [.fruitless]) t where
  tolerated := h.tolerated
  failures := by rw [counted_concat]; exact h.failures
  within := by rw [counted_concat]; exact h.within
  borne := h.borne_concat rfl

/-- **A failure.**  It is counted, and ends the monitor if there are too many of them now. -/
theorem restAfter (h : Counting m as t) {e : RelayError} {x : Except RelayError Nat}
    (hrest : t.restAfter env e w = (x, t', w')) :
    match x with
    | .ok _ => Counting m (as ++ [.failed e]) t'
    | .error e' => CameTo m (as ++ [.failed e]) (.error (.failure e')) := by
  rw [Tracking.restAfter] at hrest
  split at hrest
  · next he =>
    have hcounted : counted (as ++ [.failed e]) = counted as + 1 := counted_failed he
    have hborne := h.borne_concat (a := .failed e) he
    obtain ⟨count, hcount, ⟨hfailure, hmany, hone⟩ | ⟨base, hfailure, hwithin⟩⟩ :=
      Backoff.failure_cases h.tolerated h.failures h.within
    · simp only [hfailure] at hrest
      cases hrest
      exact .gaveUp List.getLast?_concat he (hcounted.trans (congrArg (· + 1) hmany)) hone hborne
    · simp only [hfailure] at hrest
      cases hrest
      exact ⟨h.tolerated, by rw [hcounted]; exact hcount, by rw [hcounted]; exact hwithin, hborne⟩
  · next he =>
    cases hrest
    refine .refused List.getLast?_concat (Bool.eq_false_iff.mpr he) ?_
    rw [counted_concat, Attempt.tally, if_neg he]
    exact h.within

end Counting

namespace Tracking

variable {t t' : Tracking} {w w' : σ}

/-! ### What leaves the count alone -/

theorem backoff_resolveTopics {x : Except Halt Nat} (h : t.resolveTopics env w = (x, t', w')) :
    t'.backoff = t.backoff := by
  rcases resolveTopics_cases h with ⟨rfl, -⟩ | ⟨answer, w₁, -, ⟨rfl, -⟩ | ⟨mapping, r, -, hall⟩⟩
  · rfl
  · rfl
  · exact adoptAll_keeps (P := fun t₁ _ => t₁.backoff = t.backoff) (fun _ _ _ _ _ _ h _ => h)
      (fun _ _ _ _ _ _ h _ _ => h) rfl hall

theorem backoff_applyPolicy {missing : List TopicKey} {x : Except RelayError Unit}
    (h : applyPolicy missing t = (x, t')) : t'.backoff = t.backoff := by
  induction missing generalizing t with
  | nil =>
    cases h
    rfl
  | cons key missing ih =>
    rw [applyPolicy] at h
    split at h
    · split at h
      · exact ih h
      · exact (ih h).trans rfl
      · cases h
        rfl
    · exact ih h

theorem backoff_pollCycle {x : Except Halt CycleSummary} (h : t.pollCycle env w = (x, t', w')) :
    t'.backoff = t.backoff := by
  rcases pollCycle_cases h with ⟨-, -, rfl, -⟩ | ⟨d, w₁, r, i, -, -, ⟨-, rfl⟩ | ⟨-, -, -, rfl⟩⟩
  · rfl
  · rfl
  · rw [conclude]
    split
    · next hpolicy => exact (backoff_applyPolicy hpolicy).trans rfl
    · next hpolicy =>
      have hkept := backoff_applyPolicy hpolicy
      split <;> exact hkept

/-! ## The attempts of a run -/

/-- The attempt that is made in a stage.  A rest is none. -/
def attempt? (env : Surroundings σ) : Stage → Tracking → σ → Option Attempt
  | .starting, t, w => match t.resolveTopics env w with
    | (.ok _, t, _) => some (if t.resolved.isEmpty then .fruitless else .succeeded)
    | (.error (.failure e), _, _) => some (.failed e)
    | (.error .abandoned, _, _) => some .abandoned
  | .polling, t, w => match t.pollCycle env (env.enter .polling w) with
    | (.ok _, _, _) => some .succeeded
    | (.error (.failure e), _, _) => some (.failed e)
    | (.error .abandoned, _, _) => some .abandoned
  | .resting _, _, _ => none

/-- The attempts of up to `fuel` steps. -/
def attempts (env : Surroundings σ) : Nat → Stage → Tracking → σ → List Attempt
  | 0, _, _, _ => []
  | fuel + 1, stage, t, w => (attempt? env stage t w).toList ++ match step env stage t w with
    | (.error _, _, _) => []
    | (.ok stage, t, w) => attempts env fuel stage t w

end Tracking

/-- What a monitor has come to that is to go on with a stage, or has halted. -/
structure Onward (m : Nat) (as : List Attempt) (x : Except Halt Stage) (t : Tracking) : Prop where
  cameTo : CameTo m as x
  counting : ∀ stage, x = .ok stage → Counting m as t

namespace Counting

open Tracking

variable {m : Nat} {as : List Attempt} {t t' : Tracking} {w w' : σ} {x : Except Halt Stage}

theorem onward (h : Counting m as t) (stage : Stage) : Onward m as (.ok stage) t :=
  ⟨.goesOn h.within h.borne, fun _ _ => h⟩

theorem waitThen (h : Counting m as t) {delay : Nat} {next : Stage}
    (hwait : waitThen env delay next t w = (x, t', w')) : Onward m as x t' := by
  rw [Tracking.waitThen] at hwait
  split at hwait
  · cases hwait
    exact ⟨.abandoned, fun _ hx => by cases hx⟩
  · cases hwait
    exact h.onward next

theorem startStep (h : Counting m as t) (hstep : startStep env t w = (x, t', w')) :
    Onward m (as ++ (attempt? env .starting t w).toList) x t' := by
  rw [Tracking.startStep] at hstep
  rw [attempt?]
  split at hstep
  · next heq =>
    cases hstep
    exact ⟨.abandoned, fun _ hx => by cases hx⟩
  · next t₁ w₁ heq =>
    have hkept := h.keep (backoff_resolveTopics heq)
    simp only [heq]
    split at hstep
    · next hempty =>
      rw [if_pos hempty]
      exact hkept.fruitless.waitThen hstep
    · next hempty =>
      cases hstep
      rw [if_neg hempty]
      exact hkept.succeeded.onward .polling
  · next e t₁ w₁ heq =>
    have hkept := h.keep (backoff_resolveTopics heq)
    simp only [heq]
    split at hstep
    · next hrest =>
      cases hstep
      exact ⟨hkept.restAfter hrest, fun _ hx => by cases hx⟩
    · next hrest => exact Counting.waitThen (hkept.restAfter hrest) hstep

theorem pollStep (h : Counting m as t) (hstep : pollStep env t w = (x, t', w')) :
    Onward m (as ++ (attempt? env .polling t w).toList) x t' := by
  rw [Tracking.pollStep] at hstep
  rw [attempt?]
  split at hstep
  · next heq =>
    cases hstep
    exact ⟨.abandoned, fun _ hx => by cases hx⟩
  · next summary t₁ w₁ heq =>
    cases hstep
    simp only [heq]
    exact (h.keep (backoff_pollCycle heq)).succeeded.onward _
  · next e t₁ w₁ heq =>
    have hkept := h.keep (backoff_pollCycle heq)
    simp only [heq]
    split at hstep
    · next hrest =>
      cases hstep
      exact ⟨hkept.restAfter hrest, fun _ hx => by cases hx⟩
    · next delay t₂ w₂ hrest =>
      cases hstep
      exact Counting.onward (hkept.restAfter hrest) (.resting delay)

/-- A rest is no attempt, whatever becomes of the keys that are asked for. -/
theorem restStep (h : Counting m as t) {delay : Nat} (hstep : restStep env delay t w = (x, t', w')) :
    Onward m as x t' := by
  rw [Tracking.restStep] at hstep
  split at hstep
  · cases hstep
    exact ⟨.abandoned, fun _ hx => by cases hx⟩
  · next heq => exact (h.keep (backoff_resolveTopics heq)).waitThen hstep

/-- **A step.** -/
theorem step (h : Counting m as t) (stage : Stage) (hstep : step env stage t w = (x, t', w')) :
    Onward m (as ++ (attempt? env stage t w).toList) x t' := by
  cases stage with
  | starting => exact h.startStep hstep
  | polling => exact h.pollStep hstep
  | resting delay =>
    rw [attempt?, Option.toList_none, List.append_nil]
    exact h.restStep hstep

/-- **Any number of steps.**  By induction on the steps, for any attempts that came before. -/
theorem goOn (h : Counting m as t) (fuel : Nat) (stage : Stage)
    (hgone : goOn env fuel stage t w = (x, t', w')) : CameTo m (as ++ attempts env fuel stage t w) x := by
  induction fuel generalizing as stage t w with
  | zero =>
    cases hgone
    rw [attempts, List.append_nil]
    exact (h.onward stage).cameTo
  | succ fuel ih =>
    rcases heq : Tracking.step env stage t w with ⟨halt | next, t₁, w₁⟩
    · simp only [Tracking.goOn, heq] at hgone
      simp only [attempts, heq, List.append_nil]
      cases hgone
      exact (h.step stage heq).cameTo
    · simp only [Tracking.goOn, heq] at hgone
      simp only [attempts, heq]
      rw [← List.append_assoc]
      exact ih ((h.step stage heq).counting next rfl) next hgone

end Counting

end TopicRelay.Monitor
