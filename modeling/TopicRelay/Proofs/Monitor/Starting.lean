/-
  How a monitor gets from STARTING to POLLING.

  An attempt to resolve can fail and yet resolve something: the keys whose offsets were loaded before
  one could not be loaded stay resolved.  They could be relayed at once.

  specification   as soon as an attempt has left a key resolved, the monitor goes on to POLLING and
                  fetches for the keys that are resolved (`GoesOn`), after each attempt of a run that was
                  not stopped (`NeverHeldUp`)
  what is so      a run keeps to this if and only if none of its attempts is broken off half-way
                  (`Tracking.neverHeldUp_iff`), for the monitor goes by what the attempt says, and not by
                  what it has left
  crux            while nothing was resolved before, an attempt that is not broken off half-way has either
                  succeeded or left nothing resolved (`Tracking.ok_of_whole`)

  After it stands a run that gives up because of the offset of one key, without ever fetching for the
  other.  Resolving again in BACKOFF is different: the monitor polls whatever came of it.
-/
import Mathlib.Control.Monad.Basic
import TopicRelay.Proofs.Monitor.Adoption
import TopicRelay.Proofs.Monitor.LifeCycle
import TopicRelay.Rehearsal.World

namespace TopicRelay.Monitor

variable {σ : Type} {env : Surroundings σ}

/-! ## What is due after an attempt -/

/-- A cycle for some keys is what a monitor does next. -/
def FetchesNext (env : Surroundings σ) (t : Tracking) (w : σ) (keys : List TopicKey) : Prop :=
  ∀ r : Recorded σ, r.world = w → ∃ requests, requests.keys = keys
    ∧ r.events ++ [.entered .polling, .called (.fetch requests)]
      <+: (Tracking.step env.recorded .polling t r).2.2.events

/-- **One bad checkpoint does not hold up the other topics**, for an attempt to resolve in STARTING. -/
structure GoesOn (env : Surroundings σ) (t : Tracking) (w : σ) : Prop where
  /-- Once a key is resolved, the monitor is to poll, and this starts with a fetch for the resolved
      keys. -/
  leaves : ∀ r t₁ w₁, t.resolveTopics env w = (r, t₁, w₁) → t₁.resolved.isEmpty = false →
    ∃ t₂ w₂, Tracking.startStep env t w = (.ok .polling, t₂, w₂) ∧ t₂.resolved = t₁.resolved
      ∧ FetchesNext env t₂ w₂ t₁.resolved.keys
  /-- It goes on starting, or fails, only while no key is resolved. -/
  stays : ∀ next t₂ w₂, Tracking.startStep env t w = (next, t₂, w₂) →
    next = .ok .starting ∨ (∃ e, next = .error (.failure e)) → t₂.resolved.isEmpty = true

/-- Offsets were loaded, and then one could not be. -/
def BrokenHalfWay (env : Surroundings σ) (t : Tracking) (w : σ) : Prop :=
  ∃ mapping w₁ loaded x w₂, env.resolve t.unresolved w = (.ok mapping, w₁)
    ∧ env.loadAll t.settings.subscriber (t.wanted mapping.entries) w₁ = (loaded, some x, w₂)
    ∧ loaded ≠ []

namespace Tracking

variable {t t' t₁ : Tracking} {w w' w₁ : σ}

/-! ## An attempt -/

theorem isEmpty_adoptLoaded {ls : List Loaded} (hnodup : (ls.map Loaded.key).Nodup)
    (hsome : ls ≠ []) : (t.adoptLoaded ls).resolved.isEmpty = false := by
  obtain ⟨l, hl⟩ := List.exists_mem_of_ne_nil ls hsome
  exact SortedMap.isEmpty_of_get? _ (get?_adoptLoaded_of_mem hnodup hl)

/-- What is broken off half-way has failed, and left a key resolved. -/
theorem resolveTopics_of_brokenHalfWay (h : BrokenHalfWay env t w) :
    ∃ e t₁ w₁, t.resolveTopics env w = (.error (.failure e), t₁, w₁)
      ∧ t₁.resolved.isEmpty = false := by
  obtain ⟨mapping, w₁, loaded, x, w₂, hanswer, hloaded, hsome⟩ := h
  obtain ⟨hwanted, hnodup⟩ := loaded_spec hloaded
  obtain ⟨l, hl⟩ := List.exists_mem_of_ne_nil loaded hsome
  -- what was loaded was waited for
  have hwaits := (Bool.and_eq_true_iff.mp (hwanted l hl)).2
  obtain ⟨u, hu⟩ := SortedMap.contains_iff.mp hwaits
  refine ⟨.store x.message, t.adoptLoaded loaded, w₂, ?_, isEmpty_adoptLoaded hnodup hsome⟩
  rw [resolveTopics, SortedMap.isEmpty_of_get? _ hu, hanswer]
  simp only [Bool.false_eq_true, if_false, adoptAll_eq mapping.ascending 0 hloaded]
  rfl

/-- **An attempt that is not broken off half-way** has succeeded, or left nothing resolved. -/
theorem ok_of_whole (hnone : t.resolved.isEmpty = true) (hwhole : ¬ BrokenHalfWay env t w)
    {r : Except Halt Nat} (h : t.resolveTopics env w = (r, t₁, w₁)) :
    (∃ n, r = .ok n) ∨ t₁.resolved.isEmpty = true := by
  rcases resolveTopics_spec h with
    ⟨-, rfl, -, -⟩ | ⟨halt, -, -, rfl⟩ | ⟨mapping, w₂, loaded, broken?, hanswer, hloaded, rfl, rfl⟩
  · exact Or.inl ⟨0, rfl⟩
  · exact Or.inr hnone
  · cases broken? with
    | none => exact Or.inl ⟨loaded.length, rfl⟩
    | some x =>
      refine Or.inr ?_
      obtain rfl : loaded = [] :=
        Decidable.byContradiction fun hsome => hwhole ⟨_, _, _, _, _, hanswer, hloaded, hsome⟩
      exact hnone

/-! ## What the monitor makes of it -/

theorem waitThen_cases {delay : Nat} {next : Stage} {x : Except Halt Stage}
    (h : waitThen env delay next t w = (x, t', w')) :
    t' = t ∧ (x = .ok next ∨ x = .error .abandoned) := by
  rw [waitThen] at h
  split at h
  · cases h
    exact ⟨rfl, Or.inr rfl⟩
  · cases h
    exact ⟨rfl, Or.inl rfl⟩

/-- A failure is only counted, and for a rest after it a number is drawn. -/
theorem restAfter_cases {e : RelayError} {x : Except RelayError Nat}
    (h : t.restAfter env e w = (x, t', w')) :
    (∃ backoff, t' = { t with backoff := backoff }) ∧ (w' = w ∨ ∃ limit, w' = (env.draw limit w).2) := by
  rw [restAfter] at h
  split at h
  · rcases hfailure : t.backoff.failure with ⟨base, backoff⟩
    simp only [hfailure] at h
    cases base with
    | none =>
      cases h
      exact ⟨⟨_, rfl⟩, Or.inl rfl⟩
    | some base =>
      cases h
      exact ⟨⟨_, rfl⟩, Or.inr ⟨_, rfl⟩⟩
  · cases h
    exact ⟨⟨_, rfl⟩, Or.inl rfl⟩

theorem resolved_restAfter {e : RelayError} {x : Except RelayError Nat}
    (h : t.restAfter env e w = (x, t', w')) : t'.resolved = t.resolved := by
  obtain ⟨⟨backoff, rfl⟩, -⟩ := restAfter_cases h
  rfl

theorem unresolved_restAfter {e : RelayError} {x : Except RelayError Nat}
    (h : t.restAfter env e w = (x, t', w')) : t'.unresolved = t.unresolved := by
  obtain ⟨⟨backoff, rfl⟩, -⟩ := restAfter_cases h
  rfl

theorem unresolved_pollStep {x : Except Halt Stage} (h : pollStep env t w = (x, t', w')) :
    t'.unresolved = t.unresolved := by
  rw [pollStep] at h
  split at h
  · next hcycle =>
    cases h
    exact unresolved_pollCycle hcycle
  · next hcycle =>
    have hsame := unresolved_pollCycle hcycle
    cases h
    exact hsame
  · next hcycle =>
    have hsame := unresolved_pollCycle hcycle
    split at h
    · next hrest =>
      cases h
      exact (unresolved_restAfter hrest).trans hsame
    · next hrest =>
      cases h
      exact (unresolved_restAfter hrest).trans hsame

/-- **What an attempt leads to.**  Only after one that has succeeded and left a key resolved the monitor
    goes on to poll. -/
theorem startStep_cases {x : Except Halt Stage} (h : startStep env t w = (x, t', w')) :
    ∃ r t₁ w₁, t.resolveTopics env w = (r, t₁, w₁) ∧ t'.resolved = t₁.resolved
      ∧ ((∃ n, r = .ok n) ∧ t₁.resolved.isEmpty = false ∧ x = .ok .polling
        ∨ (∃ n, r = .ok n) ∧ t₁.resolved.isEmpty = true ∧ x ≠ .ok .polling
        ∨ (∃ halt, r = .error halt) ∧ x ≠ .ok .polling) := by
  have hwaited : ∀ {delay t₁ w₁ t' w'}, waitThen env delay .starting t₁ w₁ = (x, t', w') →
      t'.resolved = t₁.resolved ∧ x ≠ .ok .polling := by
    intro delay t₁ w₁ t' w' hwait
    obtain ⟨rfl, rfl | rfl⟩ := waitThen_cases hwait
    · exact ⟨rfl, fun hx => by cases hx⟩
    · exact ⟨rfl, fun hx => by cases hx⟩
  rw [startStep] at h
  split at h
  · next hresolve =>
    cases h
    exact ⟨_, _, _, hresolve, rfl, Or.inr (Or.inr ⟨⟨_, rfl⟩, fun hx => by cases hx⟩)⟩
  · next n t₁ w₁ hresolve =>
    split at h
    · next hempty =>
      obtain ⟨hresolved, hx⟩ := hwaited h
      exact ⟨_, t₁, w₁, hresolve, hresolved, Or.inr (Or.inl ⟨⟨n, rfl⟩, hempty, hx⟩)⟩
    · next hempty =>
      cases h
      exact ⟨_, t₁, _, hresolve, rfl, Or.inl ⟨⟨n, rfl⟩, Bool.not_eq_true _ ▸ hempty, rfl⟩⟩
  · next e t₁ w₁ hresolve =>
    split at h
    · next hrest =>
      cases h
      exact ⟨_, t₁, w₁, hresolve, resolved_restAfter hrest,
        Or.inr (Or.inr ⟨⟨_, rfl⟩, fun hx => by cases hx⟩)⟩
    · next hrest =>
      obtain ⟨hresolved, hx⟩ := hwaited h
      exact ⟨_, t₁, w₁, hresolve, hresolved.trans (resolved_restAfter hrest),
        Or.inr (Or.inr ⟨⟨_, rfl⟩, hx⟩)⟩

/-- What was in a record stays there while a cycle goes on, and the fetch comes next. -/
theorem fetch_of_pollCycle {r r' : Recorded σ} {x : Except Halt CycleSummary}
    (hsome : t.resolved.isEmpty = false) (h : t.pollCycle env.recorded r = (x, t', r')) :
    r.events ++ [.called (.fetch t.requests)] <+: r'.events := by
  rcases pollCycle_cases h with ⟨hnone, -, -, -⟩ | ⟨d, r₁, y, i, ⟨⟩, hall, -⟩
  · rw [hsome] at hnone
    cases hnone
  · refine Intake.acceptAll_keeps (P := fun _ s => r.events ++ [.called (.fetch t.requests)] <+: s.events)
      (fun _ _ hs => hs.trans (List.prefix_append _ _)) (fun e _ j s y j' s' hs haccept => ?_)
      (List.prefix_refl _) hall
    refine Intake.accept_keeps
      (P := fun s => r.events ++ [.called (.fetch t.requests)] <+: s.events) ?_ ?_ hs haccept
    · rintro topic payload s y s' hs ⟨⟩
      exact hs.trans (List.prefix_append _ _)
    · rintro topic id s y s' hs ⟨⟩
      exact hs.trans (List.prefix_append _ _)

/-- **Polling starts with a fetch for the keys that are resolved.** -/
theorem fetchesNext (hsome : t.resolved.isEmpty = false) (w : σ) :
    FetchesNext env t w t.resolved.keys := by
  intro r _
  refine ⟨t.requests, t.keys_requests, ?_⟩
  rw [step, pollStep]
  rcases hcycle : t.pollCycle env.recorded (env.recorded.enter .polling r) with ⟨x, t', r'⟩
  have hfetched := fetch_of_pollCycle hsome hcycle
  rw [show (env.recorded.enter .polling r).events = r.events ++ [.entered .polling] from rfl,
    List.append_assoc] at hfetched
  rcases x with halt | summary
  · cases halt with
    | abandoned => exact hfetched
    | failure e =>
      rcases hrest : t'.restAfter env.recorded e r' with ⟨y, t₂, r₂⟩
      have hdrawn : r'.events <+: r₂.events := by
        obtain ⟨-, rfl | ⟨limit, rfl⟩⟩ := restAfter_cases hrest
        · exact List.prefix_refl _
        · exact List.prefix_append _ _
      simp only [hrest]
      cases y with
      | error e => exact hfetched.trans hdrawn
      | ok delay => exact hfetched.trans hdrawn
  · exact hfetched

/-- **What is broken off half-way holds up the keys that it has resolved.** -/
theorem not_goesOn (hbroken : BrokenHalfWay env t w) : ¬ GoesOn env t w := by
  intro hgoes
  obtain ⟨e, t₁, w₁, hresolve, hsome⟩ := resolveTopics_of_brokenHalfWay hbroken
  obtain ⟨t₂, w₂, hstep, -, -⟩ := hgoes.leaves _ t₁ w₁ hresolve hsome
  obtain ⟨r, t₃, w₃, hresolve', -, hcases⟩ := startStep_cases hstep
  rw [hresolve] at hresolve'
  cases hresolve'
  rcases hcases with ⟨⟨n, hok⟩, -⟩ | ⟨-, -, hx⟩ | ⟨-, hx⟩
  · cases hok
  · exact hx rfl
  · exact hx rfl

/-- **When an attempt does not hold anything up**, if nothing was resolved before. -/
theorem goesOn_iff (hnone : t.resolved.isEmpty = true) :
    GoesOn env t w ↔ ¬ BrokenHalfWay env t w := by
  constructor
  · exact fun hgoes hbroken => not_goesOn hbroken hgoes
  · intro hwhole
    rcases hstep : startStep env t w with ⟨x, t₂, w₂⟩
    obtain ⟨r, t₁, w₁, hresolve, hsame, hcases⟩ := startStep_cases hstep
    have hattempt := ok_of_whole hnone hwhole hresolve
    refine ⟨fun r' t₁' w₁' hresolve' hsome => ?_, fun next t₂' w₂' hstep' hnext => ?_⟩
    · rw [hresolve] at hresolve'
      cases hresolve'
      rcases hcases with ⟨-, -, rfl⟩ | ⟨-, hempty, -⟩ | ⟨⟨halt, rfl⟩, -⟩
      · refine ⟨t₂, w₂, hstep, hsame, ?_⟩
        rw [← hsame] at hsome ⊢
        exact fetchesNext hsome w₂
      · rw [hsome] at hempty
        cases hempty
      · rcases hattempt with ⟨n, hok⟩ | hempty
        · cases hok
        · rw [hsome] at hempty
          cases hempty
    · rw [hstep] at hstep'
      cases hstep'
      rw [hsame]
      rcases hcases with ⟨-, -, rfl⟩ | ⟨-, hempty, -⟩ | ⟨⟨halt, rfl⟩, -⟩
      · rcases hnext with hnext | ⟨e, hnext⟩
        · cases hnext
        · cases hnext
      · exact hempty
      · rcases hattempt with ⟨n, hok⟩ | hempty
        · cases hok
        · exact hempty

/-- A monitor that polls or rests does not start again. -/
theorem eq_starting_of_step {stage : Stage} (h : step env stage t w = (.ok .starting, t', w')) :
    stage = .starting := by
  cases stage with
  | starting => rfl
  | polling =>
    rw [step, pollStep] at h
    split at h
    · cases h
    · have hnext := Except.ok.inj (congrArg Prod.fst h)
      split at hnext <;> cases hnext
    · split at h <;> cases h
  | resting delay =>
    rw [step, restStep] at h
    split at h
    · cases h
    · obtain ⟨-, hx | hx⟩ := waitThen_cases h
      · cases hx
      · cases hx

end Tracking

/-! ## A run -/

/-- After `n` steps of a run, a new monitor is still to resolve a first key. -/
structure StillStarting (env : Surroundings σ) (settings : RelaySettings) (w₀ : σ) (n : Nat)
    (t : Tracking) (w : σ) : Prop where
  begun : (env.isStopRequested w₀ || env.isDeserted w₀) = false
  unhindered : (Tracking.new settings).obstacle? = none
  starting : Tracking.goOn env n .starting (.new settings) (env.enter .starting w₀)
    = (.ok .starting, t, w)

/-- **One bad checkpoint does not hold up the other topics**, in a run of a new monitor: this is so for
    each attempt after which the run was not stopped. -/
def NeverHeldUp (env : Surroundings σ) (shutdownTimeout : Nat) (settings : RelaySettings) (w₀ : σ) :
    Prop :=
  ∀ n t w, StillStarting env settings w₀ n t w →
    (Tracking.soFar env shutdownTimeout (n + 1) (.new settings) w₀).1 ≠ some .stopped → GoesOn env t w

namespace StillStarting

variable {settings : RelaySettings} {w₀ : σ} {n : Nat} {t : Tracking} {w : σ}

/-- The attempt before it. -/
theorem before (h : StillStarting env settings w₀ (n + 1) t w) :
    ∃ t₀ w₁, StillStarting env settings w₀ n t₀ w₁
      ∧ Tracking.startStep env t₀ w₁ = (.ok .starting, t, w) := by
  have hgone := h.starting
  rw [Tracking.goOn_add] at hgone
  split at hgone
  · cases hgone
  · next stage t₀ w₁ hbefore =>
    rw [Tracking.goOn] at hgone
    split at hgone
    · cases hgone
    · next hstep =>
      cases hgone
      obtain rfl := Tracking.eq_starting_of_step hstep
      exact ⟨t₀, w₁, ⟨h.begun, h.unhindered, hbefore⟩, hstep⟩

/-- A run that is still starting was not stopped. -/
theorem soFar_eq_none (h : StillStarting env settings w₀ n t w) (shutdownTimeout : Nat) :
    (Tracking.soFar env shutdownTimeout n (.new settings) w₀).1 = none := by
  simp only [Tracking.soFar, h.begun, Bool.false_eq_true, if_false, h.unhindered, h.starting]

/-- Nothing is resolved as long as no attempt is broken off half-way. -/
theorem isEmpty_of_whole {shutdownTimeout : Nat} (hwhole : ∀ n t w, StillStarting env settings w₀ n t w →
      (Tracking.soFar env shutdownTimeout (n + 1) (.new settings) w₀).1 ≠ some .stopped →
      ¬ BrokenHalfWay env t w)
    (h : StillStarting env settings w₀ n t w) : t.resolved.isEmpty = true := by
  induction n generalizing t w with
  | zero =>
    obtain ⟨-, rfl, -⟩ := h.starting
    rfl
  | succ n ih =>
    obtain ⟨t₀, w₁, hbefore, hstep⟩ := h.before
    have hrunning :
        (Tracking.soFar env shutdownTimeout (n + 1) (.new settings) w₀).1 ≠ some .stopped := by
      rw [h.soFar_eq_none]
      exact fun hc => by cases hc
    have hgoes := (Tracking.goesOn_iff (ih hbefore)).mpr (hwhole n t₀ w₁ hbefore hrunning)
    exact hgoes.stays _ t w hstep (Or.inl rfl)

end StillStarting

/-- **When nothing is held up.**  In any surroundings, a run of a new monitor gets from STARTING to
    POLLING as soon as a key is resolved if and only if none of its attempts is broken off half-way, that
    is, comes to a key whose offset cannot be loaded after it has resolved another one. -/
theorem Tracking.neverHeldUp_iff (env : Surroundings σ) (shutdownTimeout : Nat) (settings : RelaySettings)
    (w₀ : σ) : NeverHeldUp env shutdownTimeout settings w₀
      ↔ ∀ n t w, StillStarting env settings w₀ n t w →
        (soFar env shutdownTimeout (n + 1) (.new settings) w₀).1 ≠ some .stopped →
        ¬ BrokenHalfWay env t w := by
  constructor
  · intro h n t w hstarting hrunning hbroken
    exact not_goesOn hbroken (h n t w hstarting hrunning)
  · intro hwhole n t w hstarting hrunning
    exact (goesOn_iff (hstarting.isEmpty_of_whole hwhole)).mpr (hwhole n t w hstarting hrunning)

/-! ### One bad checkpoint -/

namespace BadCheckpoint

open Rehearsal (World)

/-- Two topics, and one failure is put up with. -/
def settings : RelaySettings :=
  { RelaySettings.default with
    topics := ["a", "b"], maxConsecutiveFailures := 1, initialBackoff := 1, maxBackoff := 2 }

/-- A remote that has both topics.  The offset of the second one cannot be loaded, twice in a row. -/
def begin : World where
  clock := { Rehearsal.Clock.new with hasStopper := true }
  topics := SortedMap.ofList [("a", "t"), ("b", "u")]
  remote := FaultyLog.sound (((MemoryLog.new true).create "t").create "u")
  maxPerRead := 100
  chunkSize := 8192
  resolveCues := []
  fetchCues := []
  shutdownCues := []
  ownLog := FaultyLog.sound (.new true)
  offsets := { FaultyOffsets.sound .empty with brokenLoads := [2, 3] }
  hooks := []
  callLimit := 100
  arrivals := 0
  phase := .starting
  calls := []
  published := []
  committed := []

/-- **The first topic is held up by the second.**  It is resolved, but the monitor goes on starting. -/
theorem not_neverHeldUp : ¬ NeverHeldUp World.surroundings 5000 settings begin := by
  intro h
  have hstarting : StillStarting World.surroundings settings begin 0 (.new settings)
      (World.surroundings.enter .starting begin) := ⟨by decide +kernel, by decide +kernel, rfl⟩
  have hgoes := h 0 _ _ hstarting (by decide +kernel)
  obtain ⟨t₂, w₂, hstep, -, -⟩ := hgoes.leaves _ _ _ rfl (by decide +kernel)
  have hnext : (Tracking.startStep World.surroundings (.new settings)
      (World.surroundings.enter .starting begin)).1 = .ok .starting := by decide +kernel
  rw [hstep] at hnext
  cases hnext

-- and with the next failure it gives up
example : (Tracking.soFar World.surroundings 5000 2 (.new settings) begin).1
    = some (.failed (.tooManyFailures 2
      "Local store failure: Stored offset for u/runtime-monitor is unreadable: get 3 failed")) := by
  decide +kernel

end BadCheckpoint
end TopicRelay.Monitor
