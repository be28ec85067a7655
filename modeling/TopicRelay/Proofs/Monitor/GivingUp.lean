/-
  When a monitor gives up.

    law       it gives up when it has counted one failure more than it puts up with (`CameTo.gaveUp_iff`),
              unless a stop was requested by then, which comes first
    in a row  these are the last attempts if and only if no success was overlooked; a resolution that
              finds none of the keys is overlooked (`CameTo.givesUpInARow_iff_not_overlooked`)

  Both are said of a whole run in `Tracking.givesUpInARow_iff`.  After it stands a run that gives up
  after two failures "in a row" with a success between them.
-/
import TopicRelay.Proofs.Monitor.LifeCycle
import TopicRelay.Proofs.Monitor.Tally
import TopicRelay.Rehearsal.World

namespace TopicRelay.Monitor

variable {σ : Type}

/-! ## The outcome -/

/-- A run ended because of too many failures. -/
def GaveUp (outcome? : Option Outcome) (count : UInt32) : Prop :=
  ∃ last, outcome? = some (.failed (.tooManyFailures count last))

/-- The error of the last attempt is itself that there were too many failures.  The monitor takes it for
    one that does not pass. -/
def Reported (count : UInt32) (as : List Attempt) : Prop :=
  ∃ last, as.getLast? = some (.failed (.tooManyFailures count last))

/-- **Giving up only after failures in a row**, for a run with some attempts that came to an outcome, or
    has not ended, where `m` failures in a row are put up with. -/
structure GivesUpInARow (m : Nat) (outcome? : Option Outcome) (as : List Attempt) : Prop where
  /-- It gives up if and only if the last attempts, one more than are put up with, all failed. -/
  iff : ∀ count, GaveUp outcome? count ↔ count.toNat = m + 1 ∧ LastFailed count.toNat as
  /-- Where every failure that is followed by another attempt is followed by a success, it does not. -/
  spared : 1 ≤ m →
    (∀ front e a rest, as = front ++ .failed e :: a :: rest → a.isSuccess = true) →
    ∀ count, ¬ GaveUp outcome? count

theorem GivesUpInARow.of_iff {m : Nat} {outcome? : Option Outcome} {as : List Attempt}
    (h : ∀ count, GaveUp outcome? count ↔ count.toNat = m + 1 ∧ LastFailed count.toNat as) :
    GivesUpInARow m outcome? as where
  iff := h
  spared hm hfollowed count hgave := by
    obtain ⟨hcount, hrow⟩ := (h count).mp hgave
    rw [hcount] at hrow
    obtain ⟨front, e, rfl, -, hrow⟩ := hrow.exists_concat
    rw [← Nat.sub_add_cancel hm] at hrow
    obtain ⟨earlier, e', rfl, -, -⟩ := hrow.exists_concat
    have hsuccess := hfollowed earlier e' (.failed e) [] (List.append_assoc _ _ _)
    cases hsuccess

/-- The outcome of what a monitor has come to, unless a stop was requested meanwhile. -/
def outcomeOf : Except Halt Stage → Option Outcome
  | .ok _ => none
  | .error (.failure e) => some (.failed e)
  | .error .abandoned => some .stopped

namespace CameTo

variable {m : Nat} {as : List Attempt} {x : Except Halt Stage} {count : UInt32}

theorem counted_lt_of_within (hwithin : counted as ≤ m ∨ m = largestCount) (hcount : count.toNat = m + 1) :
    counted as < count.toNat := by
  have hlt : count.toNat < largestCount + 1 := count.toNat_lt
  omega

theorem not_reported_of_borne (hborne : ∀ a ∈ as, a.isBorne = true) : ¬ Reported count as := by
  rintro ⟨last, hlast⟩
  have := hborne _ (List.mem_of_getLast? hlast)
  cases this

theorem counted_le (h : CameTo m as x) (hx : outcomeOf x ≠ some .stopped) (hcount : count.toNat = m + 1) :
    counted as ≤ count.toNat := by
  cases h with
  | goesOn hwithin => exact Nat.le_of_lt (counted_lt_of_within hwithin hcount)
  | abandoned => exact absurd rfl hx
  | gaveUp _ _ hcounted => exact Nat.le_of_eq (hcounted.trans hcount.symm)
  | refused _ _ hwithin => exact Nat.le_of_lt (counted_lt_of_within hwithin hcount)
  | hindered hnone =>
    rw [hnone]
    exact Nat.zero_le _

/-- **What giving up goes by is the tally.** -/
theorem gaveUp_iff (h : CameTo m as x) (hx : outcomeOf x ≠ some .stopped) : GaveUp (outcomeOf x) count
    ↔ count.toNat = m + 1 ∧ counted as = count.toNat ∨ Reported count as := by
  cases h with
  | goesOn hwithin hborne =>
    refine iff_of_false (by rintro ⟨last, h⟩; cases h) ?_
    rintro (⟨hcount, hcounted⟩ | hreported)
    · exact Nat.ne_of_lt (counted_lt_of_within hwithin hcount) hcounted
    · exact not_reported_of_borne hborne hreported
  | abandoned => exact absurd rfl hx
  | @gaveUp e count' hlast he hcounted hcount' hborne =>
    constructor
    · rintro ⟨last, h⟩
      cases h
      exact Or.inl ⟨hcount', hcounted.trans hcount'.symm⟩
    · rintro (⟨hcount, -⟩ | hreported)
      · rw [UInt32.toNat_inj.mp (hcount.trans hcount'.symm)]
        exact ⟨_, rfl⟩
      · exact absurd hreported (not_reported_of_borne hborne)
  | @refused e hlast he hwithin =>
    constructor
    · rintro ⟨last, h⟩
      cases h
      exact Or.inr ⟨last, hlast⟩
    · rintro (⟨hcount, hcounted⟩ | ⟨last, hreported⟩)
      · exact absurd hcounted (Nat.ne_of_lt (counted_lt_of_within hwithin hcount))
      · obtain rfl : e = .tooManyFailures count last := by
          have := hlast.symm.trans hreported
          cases this
          rfl
        exact ⟨last, rfl⟩
  | @hindered e hnone he =>
    refine iff_of_false ?_ ?_
    · rintro ⟨last, h⟩
      cases h
      exact he count last rfl
    · rw [hnone]
      rintro (⟨hcount, hcounted⟩ | ⟨last, hreported⟩)
      · rw [hcount] at hcounted
        cases hcounted
      · cases hreported

/-- A run that gave up by itself bore all of its attempts. -/
theorem borne_of_gaveUp (h : CameTo m as x) (hgave : GaveUp (outcomeOf x) count)
    (hreported : ¬ Reported count as) : ∀ a ∈ as, a.isBorne = true := by
  obtain ⟨last, houtcome⟩ := hgave
  cases h with
  | goesOn => cases houtcome
  | abandoned => cases houtcome
  | gaveUp _ _ _ _ hborne => exact hborne
  | refused hlast =>
    cases houtcome
    exact absurd ⟨last, hlast⟩ hreported
  | hindered _ he =>
    cases houtcome
    exact absurd rfl (he count last)

/-- **Giving up goes by failures in a row if and only if no success was overlooked.** -/
theorem givesUpInARow_iff_not_overlooked (h : CameTo m as x) (hx : outcomeOf x ≠ some .stopped)
    (hreported : ∀ count, ¬ Reported count as) : GivesUpInARow m (outcomeOf x) as
      ↔ ∀ count, GaveUp (outcomeOf x) count → ¬ Overlooked as := by
  have htally : ∀ count, GaveUp (outcomeOf x) count → count.toNat = m + 1 ∧ counted as = count.toNat :=
    fun count hgave => ((h.gaveUp_iff hx).mp hgave).resolve_right (hreported count)
  have hrow : ∀ count, GaveUp (outcomeOf x) count → (LastFailed count.toNat as ↔ ¬ Overlooked as) := by
    intro count hgave
    rw [← (htally count hgave).2]
    exact lastFailed_iff_not_overlooked (h.borne_of_gaveUp hgave (hreported count))
  constructor
  · intro hlaw count hgave
    exact (hrow count hgave).mp ((hlaw.iff count).mp hgave).2
  · intro hover
    refine .of_iff fun count => ⟨fun hgave => ?_, fun ⟨hcount, hfailed⟩ => ?_⟩
    · exact ⟨(htally count hgave).1, (hrow count hgave).mpr (hover count hgave)⟩
    · have hcounted := Nat.le_antisymm (h.counted_le hx hcount) hfailed.le_counted
      exact (h.gaveUp_iff hx).mpr (Or.inl ⟨hcount, hcounted⟩)

end CameTo

/-! ## A run -/

namespace Tracking

theorem finish_cases (env : Surroundings σ) (shutdownTimeout : Nat) (halt : Halt) (w : σ) :
    (finish env shutdownTimeout halt w).1 = .stopped
      ∨ some (finish env shutdownTimeout halt w).1 = outcomeOf (.error halt) := by
  rw [finish]
  cases hcase : failure? env halt w with
  | none => exact Or.inl rfl
  | some e =>
    refine Or.inr ?_
    rw [failure?.eq_def] at hcase
    split at hcase
    · cases hcase
    · cases hcase
    · split at hcase
      · cases hcase
      · cases hcase
        rfl

theorem obstacle?_ne {t : Tracking} {e : RelayError} (h : t.obstacle? = some e) (count : UInt32)
    (last : String) : e ≠ .tooManyFailures count last := by
  rw [obstacle?] at h
  split at h
  · cases h
    exact RelayError.noConfusion
  · split at h
    · cases h
      exact RelayError.noConfusion
    · cases h

/-- The attempts of a run until now. -/
def attemptsSoFar (env : Surroundings σ) (fuel : Nat) (t : Tracking) (w : σ) : List Attempt :=
  if env.isStopRequested w || env.isDeserted w then []
  else match t.obstacle? with
    | some _ => []
    | none => attempts env fuel .starting t (env.enter .starting w)

/-- What a run has come to, and its outcome. -/
theorem soFar_cameTo (env : Surroundings σ) (shutdownTimeout fuel : Nat) {t : Tracking}
    (hfresh : t.backoff = (new t.settings).backoff) (w : σ) :
    ∃ x, CameTo t.settings.maxConsecutiveFailures.toNat (attemptsSoFar env fuel t w) x
      ∧ ((soFar env shutdownTimeout fuel t w).1 = some .stopped
        ∨ (soFar env shutdownTimeout fuel t w).1 = outcomeOf x) := by
  rw [soFar, attemptsSoFar]
  split
  · exact ⟨_, .abandoned, Or.inl rfl⟩
  · cases hobstacle : t.obstacle? with
    | some e =>
      refine ⟨_, .hindered rfl (obstacle?_ne hobstacle), ?_⟩
      exact (finish_cases env shutdownTimeout (.failure e) _).imp (congrArg some) id
    | none =>
      rcases hgone : goOn env fuel .starting t (env.enter .starting w) with ⟨x, t₁, w₁⟩
      refine ⟨x, (Counting.of_fresh hfresh).goOn fuel .starting hgone, ?_⟩
      simp only [hgone]
      cases x with
      | ok stage => exact Or.inr rfl
      | error halt => exact (finish_cases env shutdownTimeout halt w₁).imp (congrArg some) id

/-- **When a monitor gives up.**  After any number of steps of a run of a monitor that has counted no
    failure before, in any surroundings:

    * it has given up if and only if it has counted one failure more than it puts up with, or was told
      so, and no stop was requested by then;
    * where there was no stop, and it was not told so, it gives up after failures in a row, and only
      then, if and only if no success was overlooked when it gave up. -/
theorem givesUpInARow_iff (env : Surroundings σ) (shutdownTimeout fuel : Nat) {t : Tracking}
    (hfresh : t.backoff = (new t.settings).backoff) (w : σ) :
    let m := t.settings.maxConsecutiveFailures.toNat
    let outcome? := (soFar env shutdownTimeout fuel t w).1
    let as := attemptsSoFar env fuel t w
    (∀ count, GaveUp outcome? count ↔ outcome? ≠ some .stopped
        ∧ (count.toNat = m + 1 ∧ counted as = count.toNat ∨ Reported count as))
      ∧ (outcome? ≠ some .stopped → (∀ count, ¬ Reported count as) →
        (GivesUpInARow m outcome? as ↔ ∀ count, GaveUp outcome? count → ¬ Overlooked as)) := by
  intro m outcome? as
  obtain ⟨x, hx, houtcome⟩ := soFar_cameTo env shutdownTimeout fuel hfresh w
  change CameTo m as x at hx
  change outcome? = some .stopped ∨ outcome? = outcomeOf x at houtcome
  by_cases hstopped : outcome? = some .stopped
  · refine ⟨fun count => iff_of_false ?_ fun h => h.1 hstopped, fun h => absurd hstopped h⟩
    rw [hstopped]
    rintro ⟨last, h⟩
    cases h
  · have heq := houtcome.resolve_left hstopped
    rw [heq] at hstopped ⊢
    exact ⟨fun count => ⟨fun h => ⟨hstopped, (hx.gaveUp_iff hstopped).mp h⟩,
      fun h => (hx.gaveUp_iff hstopped).mpr h.2⟩, hx.givesUpInARow_iff_not_overlooked⟩

end Tracking

/-! ### Two failures, and a success between them or not -/

namespace TwoOutages

open Rehearsal (Cue World)

/-- One topic, and one failure is put up with. -/
def settings : RelaySettings :=
  { RelaySettings.default with topics := ["a"], maxConsecutiveFailures := 1 }

/-- The remote is away. -/
def away : Cue := { Cue.plain with error := some (.transient "away") }

/-- The remote is there, and does not have the topic. -/
def lacking : Cue := { Cue.plain with mapping := some SortedMap.empty }

/-- A world whose remote answers the questions for topics in some way. -/
def begin (cues : List Cue) : World where
  clock := { Rehearsal.Clock.new with hasStopper := true }
  topics := SortedMap.empty
  remote := FaultyLog.sound (.new true)
  maxPerRead := 100
  chunkSize := 8192
  resolveCues := cues
  fetchCues := []
  shutdownCues := []
  ownLog := FaultyLog.sound (.new true)
  offsets := .sound .empty
  hooks := []
  callLimit := 100
  arrivals := 0
  phase := .starting
  calls := []
  published := []
  committed := []

/-- What the monitor has come to after five steps. -/
def final (cues : List Cue) : Option Outcome :=
  (Tracking.soFar World.surroundings 5000 5 (.new settings) (begin cues)).1

/-- The attempts it has made. -/
def made (cues : List Cue) : List Attempt :=
  Tracking.attemptsSoFar World.surroundings 5 (.new settings) (begin cues)

/-- **A success between two failures is overlooked.**  The monitor says that it gave up after two
    failures in a row. -/
theorem not_givesUpInARow :
    ¬ GivesUpInARow settings.maxConsecutiveFailures.toNat (final [away, lacking, away])
      (made [away, lacking, away]) := by
  have hmade : made [away, lacking, away]
      = [.failed (.transient "away"), .fruitless] ++ [.failed (.transient "away")] := by decide +kernel
  have hfinal : final [away, lacking, away]
      = some (.failed (.tooManyFailures 2 "Transient failure: away")) := by decide +kernel
  intro h
  have hrow := ((h.iff 2).mp ⟨_, hfinal⟩).2
  rw [hmade] at hrow
  have hbefore : LastFailed 1 ([.failed (.transient "away")] ++ [.fruitless]) :=
    (lastFailed_concat rfl).mp hrow
  have hzero := (lastFailed_concat_of_success rfl).mp hbefore
  cases hzero

/-- Without the success between them, they are in a row. -/
theorem givesUpInARow_of_row :
    (Tracking.new settings).backoff = (Tracking.new (Tracking.new settings).settings).backoff
    ∧ GaveUp (final [away, away]) 2
    ∧ GivesUpInARow settings.maxConsecutiveFailures.toNat (final [away, away]) (made [away, away]) := by
  have hmade : made [away, away]
      = [.failed (.transient "away"), .failed (.transient "away")] := by decide +kernel
  have hfinal : final [away, away]
      = some (.failed (.tooManyFailures 2 "Transient failure: away")) := by decide +kernel
  have hgiven := (Tracking.givesUpInARow_iff World.surroundings 5000 5 (t := .new settings) rfl
    (begin [away, away])).2
  change final [away, away] ≠ some .stopped → (∀ count, ¬ Reported count (made [away, away])) →
    (GivesUpInARow settings.maxConsecutiveFailures.toNat (final [away, away]) (made [away, away])
      ↔ ∀ count, GaveUp (final [away, away]) count → ¬ Overlooked (made [away, away])) at hgiven
  rw [hmade, hfinal] at hgiven ⊢
  refine ⟨rfl, ⟨_, rfl⟩, (hgiven ?_ ?_).mpr ?_⟩
  · exact fun h => by cases h
  · rintro count ⟨last, h⟩
    cases h
  · rintro count - ⟨front, back, h, -⟩
    have hmem : Attempt.fruitless ∈ [Attempt.failed (.transient "away"), .failed (.transient "away")] := by
      rw [h]
      exact List.mem_append_right _ List.mem_cons_self
    revert hmem
    decide

end TwoOutages
end TopicRelay.Monitor
