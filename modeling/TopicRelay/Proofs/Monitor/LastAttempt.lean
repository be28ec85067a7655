/-
  What the last attempt leads to.

      Underway        a run has come to some stage, and is to go on
      its attempt     a resolution or a cycle; a rest is none
      its outcome     after one more step: there is one, or the run goes on

  specification   an attempt that fails for good ends the run with its error (`Underway.ends`); one that
                  fails in a way that can pass does not, unless as many failures as are put up with
                  were counted before it (`Underway.goesOn`); and no rest fails (`Underway.rests`)
  the crux        the attempts of one step more are one attempt more (`Underway.attemptsSoFar_succ`), so
                  what a run has come to by its attempts is read off the last one (`CameTo`)

  Nothing is assumed of the surroundings.  A stop may come at any time, and makes every end one.
-/
import TopicRelay.Proofs.Monitor.GivingUp
import TopicRelay.Proofs.Monitor.Starting

namespace TopicRelay.Monitor

variable {σ : Type} {env : Surroundings σ}

/-! ## One attempt more -/

namespace CameTo

variable {m : Nat} {as : List Attempt} {e : RelayError} {x : Except Halt Stage}

/-- After a failure that does not pass there is nothing but its error. -/
theorem of_final (h : CameTo m (as ++ [.failed e]) x) (he : e.isRetryable = false) :
    x = .error (.failure e) ∨ x = .error .abandoned := by
  have hlast : (as ++ [Attempt.failed e]).getLast? = some (.failed e) := List.getLast?_concat
  have hnot : ¬ ∀ a ∈ as ++ [Attempt.failed e], a.isBorne = true := by
    intro hborne
    have hthis := hborne (.failed e) List.mem_concat_self
    rw [Attempt.isBorne, Attempt.isSuccess, Attempt.hasPassingFailure, he] at hthis
    cases hthis
  cases h with
  | goesOn _ hborne => exact absurd hborne hnot
  | abandoned => exact Or.inr rfl
  | gaveUp _ _ _ _ hborne => exact absurd hborne hnot
  | refused hlast' =>
    rw [hlast] at hlast'
    cases hlast'
    exact Or.inl rfl
  | hindered hnone => exact absurd hnone (List.concat_ne_nil _ _)

/-- One that can pass is borne, unless it is one too many. -/
theorem of_passing (h : CameTo m (as ++ [.failed e]) x) (he : e.isRetryable = true) :
    (∃ stage, x = .ok stage) ∨ x = .error .abandoned
      ∨ counted as = m
        ∧ ∃ count, count.toNat = m + 1 ∧ x = .error (.failure (.tooManyFailures count e.message)) := by
  have hlast : (as ++ [Attempt.failed e]).getLast? = some (.failed e) := List.getLast?_concat
  cases h with
  | goesOn => exact Or.inl ⟨_, rfl⟩
  | abandoned => exact Or.inr (Or.inl rfl)
  | gaveUp hlast' _ hcounted hcount =>
    rw [hlast] at hlast'
    cases hlast'
    rw [counted_failed he] at hcounted
    exact Or.inr (Or.inr ⟨Nat.succ.inj hcounted, _, hcount, rfl⟩)
  | refused hlast' he' =>
    rw [hlast] at hlast'
    cases hlast'
    rw [he] at he'
    cases he'
  | hindered hnone => exact absurd hnone (List.concat_ne_nil _ _)

end CameTo

namespace Tracking

variable {t t' : Tracking} {w w' : σ} {stage stage' : Stage}

/-- The attempts of one step more.  By induction on the steps before it. -/
theorem attempts_succ {n : Nat} (hgone : goOn env n stage t w = (.ok stage', t', w')) :
    attempts env (n + 1) stage t w = attempts env n stage t w ++ (attempt? env stage' t' w').toList := by
  induction n generalizing stage t w with
  | zero =>
    cases hgone
    rw [attempts, attempts, List.nil_append]
    rcases step env stage' t' w' with ⟨halt | next, t₁, w₁⟩
    · exact List.append_nil _
    · exact List.append_nil _
  | succ n ih =>
    rw [goOn] at hgone
    rw [attempts, attempts]
    rcases heq : step env stage t w with ⟨halt | next, t₁, w₁⟩
    · rw [heq] at hgone
      cases hgone
    · rw [heq] at hgone
      simp only
      rw [ih hgone, List.append_assoc]

/-- What every step keeps, any number of steps keep.  By induction on the steps. -/
theorem goOn_keeps {P : Stage → Tracking → Prop}
    (hstep : ∀ {stage t w stage' t' w'}, P stage t →
      step env stage t w = (.ok stage', t', w') → P stage' t')
    (n : Nat) (h : P stage t) (hgone : goOn env n stage t w = (.ok stage', t', w')) : P stage' t' := by
  induction n generalizing stage t w with
  | zero =>
    cases hgone
    exact h
  | succ n ih =>
    rw [goOn] at hgone
    split at hgone
    · cases hgone
    · next heq => exact ih (hstep h heq) hgone

/-- A rest does not fail. -/
theorem restStep_cases {delay : Nat} {x : Except Halt Stage}
    (h : restStep env delay t w = (x, t', w')) : x = .ok .polling ∨ x = .error .abandoned := by
  rw [restStep] at h
  split at h
  · cases h
    exact Or.inr rfl
  · exact (waitThen_cases h).2

end Tracking

/-! ## A run -/

/-- After `n` steps of a run, a new monitor is to go on with a stage. -/
structure Underway (env : Surroundings σ) (settings : RelaySettings) (w₀ : σ) (n : Nat) (stage : Stage)
    (t : Tracking) (w : σ) : Prop where
  begun : (env.isStopRequested w₀ || env.isDeserted w₀) = false
  unhindered : (Tracking.new settings).obstacle? = none
  gone : Tracking.goOn env n .starting (.new settings) (env.enter .starting w₀) = (.ok stage, t, w)

namespace Underway

open Tracking (attempt? attemptsSoFar soFar)

variable {settings : RelaySettings} {w₀ : σ} {n : Nat} {stage : Stage} {t : Tracking} {w : σ}
  {e : RelayError}

/-- **What every step keeps holds wherever a run has come to.** -/
theorem keeps {P : Stage → Tracking → Prop} (hnew : P .starting (.new settings))
    (hstep : ∀ {stage t w stage' t' w'}, P stage t →
      Tracking.step env stage t w = (.ok stage', t', w') → P stage' t')
    (h : Underway env settings w₀ n stage t w) : P stage t :=
  Tracking.goOn_keeps hstep n hnew h.gone

/-- The step that comes next decides whether there is an outcome. -/
theorem soFar_succ (h : Underway env settings w₀ n stage t w) (shutdownTimeout : Nat) :
    (soFar env shutdownTimeout (n + 1) (.new settings) w₀).1 = some .stopped
      ∨ (soFar env shutdownTimeout (n + 1) (.new settings) w₀).1
        = outcomeOf (Tracking.step env stage t w).1 := by
  simp only [soFar, h.begun, Bool.false_eq_true, if_false, h.unhindered]
  rw [Tracking.goOn_add, h.gone]
  simp only [Tracking.goOn]
  rcases Tracking.step env stage t w with ⟨halt | next, t₁, w₁⟩
  · exact (Tracking.finish_cases env shutdownTimeout halt w₁).imp (congrArg some) id
  · exact Or.inr rfl

/-- **One step more is one attempt more.** -/
theorem attemptsSoFar_succ (h : Underway env settings w₀ n stage t w) :
    attemptsSoFar env (n + 1) (.new settings) w₀
      = attemptsSoFar env n (.new settings) w₀ ++ (attempt? env stage t w).toList := by
  simp only [attemptsSoFar, h.begun, Bool.false_eq_true, if_false, h.unhindered]
  exact Tracking.attempts_succ h.gone

/-- What a run has come to after an attempt that failed. -/
theorem cameTo (h : Underway env settings w₀ n stage t w)
    (hfailed : attempt? env stage t w = some (.failed e)) (shutdownTimeout : Nat) :
    ∃ x, CameTo settings.maxConsecutiveFailures.toNat
        (attemptsSoFar env n (.new settings) w₀ ++ [.failed e]) x
      ∧ ((soFar env shutdownTimeout (n + 1) (.new settings) w₀).1 = some .stopped
        ∨ (soFar env shutdownTimeout (n + 1) (.new settings) w₀).1 = outcomeOf x) := by
  have hcame := Tracking.soFar_cameTo env shutdownTimeout (n + 1) (t := .new settings) rfl w₀
  rw [h.attemptsSoFar_succ, hfailed] at hcame
  exact hcame

/-- **A failure that does not pass ends a run.** -/
theorem ends (h : Underway env settings w₀ n stage t w)
    (hfailed : attempt? env stage t w = some (.failed e)) (he : e.isRetryable = false)
    (shutdownTimeout : Nat) :
    (soFar env shutdownTimeout (n + 1) (.new settings) w₀).1 = some (.failed e)
      ∨ (soFar env shutdownTimeout (n + 1) (.new settings) w₀).1 = some .stopped := by
  obtain ⟨x, hx, hstopped | houtcome⟩ := h.cameTo hfailed shutdownTimeout
  · exact Or.inr hstopped
  · rw [houtcome]
    rcases hx.of_final he with rfl | rfl
    · exact Or.inl rfl
    · exact Or.inr rfl

/-- **A failure that can pass does not**, unless it is one too many. -/
theorem goesOn (h : Underway env settings w₀ n stage t w)
    (hfailed : attempt? env stage t w = some (.failed e)) (he : e.isRetryable = true)
    (shutdownTimeout : Nat) :
    (soFar env shutdownTimeout (n + 1) (.new settings) w₀).1 = none
      ∨ (soFar env shutdownTimeout (n + 1) (.new settings) w₀).1 = some .stopped
      ∨ counted (attemptsSoFar env n (.new settings) w₀) = settings.maxConsecutiveFailures.toNat
        ∧ ∃ count, count.toNat = settings.maxConsecutiveFailures.toNat + 1
          ∧ (soFar env shutdownTimeout (n + 1) (.new settings) w₀).1
            = some (.failed (.tooManyFailures count e.message)) := by
  obtain ⟨x, hx, hstopped | houtcome⟩ := h.cameTo hfailed shutdownTimeout
  · exact Or.inr (Or.inl hstopped)
  · rw [houtcome]
    rcases hx.of_passing he with ⟨next, rfl⟩ | rfl | ⟨hmany, count, hcount, rfl⟩
    · exact Or.inl rfl
    · exact Or.inr (Or.inl rfl)
    · exact Or.inr (Or.inr ⟨hmany, count, hcount, rfl⟩)

/-- **A rest does not end a run**, whatever becomes of the keys that are asked for at its beginning. -/
theorem rests {delay : Nat} (h : Underway env settings w₀ n (.resting delay) t w) (shutdownTimeout : Nat) :
    (soFar env shutdownTimeout (n + 1) (.new settings) w₀).1 = none
      ∨ (soFar env shutdownTimeout (n + 1) (.new settings) w₀).1 = some .stopped := by
  rcases h.soFar_succ shutdownTimeout with hstopped | houtcome
  · exact Or.inr hstopped
  · rw [houtcome]
    rcases hrest : Tracking.step env (.resting delay) t w with ⟨x, t₁, w₁⟩
    rcases Tracking.restStep_cases hrest with rfl | rfl
    · exact Or.inl rfl
    · exact Or.inr rfl

end Underway
end TopicRelay.Monitor
