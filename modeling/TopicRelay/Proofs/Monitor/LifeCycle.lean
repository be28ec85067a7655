/-
  The life of a monitor, seen from outside.

      STARTING -> POLLING <-> BACKOFF      POLLING -> POLLING
      STARTING, POLLING, BACKOFF -> STOPPING -> STOPPED
      STARTING, POLLING -> FAILED

  specification   a record in which each phase comes after one that it can come after, and each call is
                  made in a phase in which it may be (`Course`); at the end, and only after a stop, the
                  remote was told to shut down, once (`LifeCycle`)
  crux            that a record is a course is something that every call keeps, in the phases in which
                  it is made (`Recorded.OnCourse.simulates`); so it holds after any number of steps
                  (`Simulation.goOn`)
  again           polling twice in a row is for a cycle that drained a topic, and what such a cycle has
                  called shows that it did (`Drained.of_pollCycle`)
  the end         is the only place where the remote is told to shut down (`LifeCycle.finish`)

  Nothing is assumed of the surroundings.  A stop may come at any time, at the beginning as well, and
  whatever waits may be abandoned.  Also a call that never returns is covered: what was done until then
  is the beginning of what is done if it does return.
-/
import TopicRelay.Proofs.Monitor.Drain

namespace TopicRelay.Monitor

variable {σ : Type}

/-! ## What a record may look like -/

/-- The phases in which a call may be made. -/
def Call.phases : Call → List Phase
  | .resolve _ _ => [.starting, .backoff]
  | .load _ _ => [.starting, .backoff]
  | .fetch _ => [.polling]
  | .handle _ => [.polling]
  | .publish _ _ _ => [.polling]
  | .commit _ _ _ _ => [.polling]
  | .draw _ => [.starting, .polling]
  | .wait _ => [.starting, .backoff]
  | .shutdown _ => [.stopping]

/-- The phases that can come next.  A stop can come before a monitor has entered any. -/
def Phase.nextOf : Option Phase → List Phase
  | none => [.starting, .stopping]
  | some p => p.next

/-- What may happen in a phase, and the phase that a monitor is in afterwards. -/
inductive Moves : Option Phase → Event → Phase → Prop where
  | enter {p : Option Phase} {q : Phase} (hq : q ∈ Phase.nextOf p) : Moves p (.entered q) q
  | call {p : Phase} {c : Call} (hp : p ∈ c.phases) : Moves (some p) (.called c) p

/-- What a monitor has done when it is in a phase, or has not entered any.  It polls twice in a row only
    if it has drained a topic in between. -/
inductive Course : List Event → Option Phase → Prop where
  | nil : Course [] none
  | concat {es : List Event} {p : Option Phase} {x : Event} {q : Phase} (h : Course es p)
    (hx : Moves p x q) (hagain : p = some .polling → x = .entered .polling → Drained es) :
    Course (es ++ [x]) (some q)

/-- Whether the remote is told to shut down. -/
def Event.isShutdown : Event → Bool
  | .called (.shutdown _) => true
  | _ => false

/-- The phase in which a monitor ends. -/
def Outcome.phase : Outcome → Phase
  | .stopped => .stopped
  | .failed _ => .failed

/-- What the record of a monitor shows that has come to an outcome, or goes on. -/
structure LifeCycle (outcome? : Option Outcome) (events : List Event) : Prop where
  /-- At every moment it was in some phase, which it could come to, and did what it may do there. -/
  course : ∀ moment, moment <+: events → ∃ p, Course moment p
  /-- It ended in the phase of its outcome. -/
  ended : ∀ outcome, outcome? = some outcome → events.getLast? = some (.entered outcome.phase)
  /-- After an end there is nothing. -/
  final : ∀ before (outcome : Outcome) after,
    events = before ++ .entered outcome.phase :: after → after = []
  /-- If it was stopped, it told the remote to shut down, once; else it never did. -/
  shutdowns : events.countP Event.isShutdown = if outcome? = some .stopped then 1 else 0

namespace Course

variable {es : List Event} {p : Option Phase}

theorem of_prefix (h : Course es p) {moment : List Event} (hm : moment <+: es) :
    ∃ q, Course moment q := by
  induction h with
  | nil =>
    rw [List.prefix_nil.mp hm]
    exact ⟨_, .nil⟩
  | concat h hx hagain ih =>
    rcases List.prefix_concat_iff.mp hm with rfl | hm
    · exact ⟨_, h.concat hx hagain⟩
    · exact ih hm

/-- The phase is the one that was entered last. -/
theorem phase_eq {q : Phase} (h : Course (es ++ [.entered q]) p) : p = some q := by
  generalize hall : es ++ [.entered q] = all at h
  cases h with
  | nil => exact absurd hall (List.concat_ne_nil _ _)
  | concat h hx hagain =>
    obtain ⟨-, hlast⟩ := List.append_inj' hall rfl
    cases hlast
    cases hx
    rfl

/-- Nothing can happen after an end. -/
theorem not_moves (outcome : Outcome) {x : Event} {q : Phase} :
    ¬ Moves (some outcome.phase) x q := by
  generalize hp : outcome.phase = p
  intro hx
  cases hx with
  | enter hq => cases outcome <;> cases hp <;> cases hq
  | @call _ c hc => cases outcome <;> cases hp <;> cases c <;> simp [Call.phases, Outcome.phase] at hc

theorem final (h : Course es p) {before after : List Event} {outcome : Outcome}
    (hes : es = before ++ .entered outcome.phase :: after) : after = [] := by
  induction h generalizing after with
  | nil => exact absurd hes.symm (List.append_ne_nil_of_right_ne_nil _ (List.cons_ne_nil _ _))
  | concat h hx hagain ih =>
    rcases split_concat hes with ⟨-, -, hnone⟩ | ⟨earlier, rfl, -⟩
    · exact hnone
    · obtain rfl := ih rfl
      obtain rfl := h.phase_eq
      exact absurd hx (not_moves outcome)

end Course

/-! ## Until the end -/

/-- A record that is a course to a phase, and where the remote was not told to shut down. -/
structure Recorded.OnCourse (p : Option Phase) (w : σ) (r : Recorded σ) : Prop where
  world : r.world = w
  course : Course r.events p
  noShutdown : r.events.countP Event.isShutdown = 0

namespace Recorded.OnCourse

variable {w : σ} {r : Recorded σ}

theorem begin (w : σ) : OnCourse none w (.begin w) := ⟨rfl, .nil, rfl⟩

theorem note {p : Phase} (h : OnCourse (some p) w r) (c : Call) (hp : p ∈ c.phases)
    (hc : Event.isShutdown (.called c) = false) (w' : σ) : OnCourse (some p) w' (r.note c w') := by
  refine ⟨rfl, h.course.concat (.call hp) (fun _ hc => by cases hc), ?_⟩
  rw [events_note, List.countP_append, h.noShutdown, List.countP_singleton, hc]
  rfl

theorem upcoming {p : Phase} (h : OnCourse (some p) w r) (es : List Wire.TopicMessages) :
    OnCourse (some p) w { r with upcoming := es } :=
  ⟨h.world, h.course, h.noShutdown⟩

theorem enter {p : Option Phase} (h : OnCourse p w r) (env : Surroundings σ) {q : Phase}
    (hq : q ∈ Phase.nextOf p) (hagain : p = some .polling → q = .polling → Drained r.events) :
    OnCourse (some q) (env.enter q w) (env.recorded.enter q r) := by
  obtain ⟨rfl, hcourse, hnone⟩ := h
  refine ⟨rfl, hcourse.concat (.enter hq) (fun hp hx => hagain hp (by cases hx; rfl)), ?_⟩
  show (r.events ++ [Event.entered q]).countP Event.isShutdown = 0
  rw [List.countP_append, hnone]
  rfl

/-- **Every call keeps to the course**, in the phases in which it is made. -/
theorem simulates (env : Surroundings σ) :
    Simulation env env.recorded (fun p => OnCourse (some p)) fun _ r => Drained r.events where
  isStopRequested h := congrArg env.isStopRequested h.world.symm
  enter hq hagain h := h.enter env hq fun hp => hagain (Option.some.inj hp)
  drain _ _ _ hcycle hdrain := .of_pollCycle hcycle hdrain
  resolve := by
    rintro keys p w r hp h
    obtain rfl := h.world
    exact ⟨rfl, h.note (.resolve keys _) hp rfl _⟩
  offset := by
    rintro topic subscriber p w r hp h
    obtain rfl := h.world
    exact ⟨rfl, h.note (.load topic subscriber) hp rfl _⟩
  wait := by
    rintro delay p w r hp h
    obtain rfl := h.world
    exact ⟨rfl, h.note (.wait delay) hp rfl _⟩
  draw := by
    rintro limit p w r hp h
    obtain rfl := h.world
    exact ⟨rfl, h.note (.draw limit) hp rfl _⟩
  fetch := by
    rintro requests w r h
    obtain rfl := h.world
    exact ⟨rfl, (h.note (.fetch requests) (List.mem_singleton_self _) rfl _).upcoming _⟩
  arrive := by
    rintro w r h
    obtain rfl := h.world
    exact (h.note (.handle _) (List.mem_singleton_self _) rfl _).upcoming _
  publish := by
    rintro topic payload w r h
    obtain rfl := h.world
    exact ⟨rfl, h.note (.publish topic payload _) (List.mem_singleton_self _) rfl _⟩
  commit := by
    rintro topic subscriber id w r h
    obtain rfl := h.world
    exact ⟨rfl, h.note (.commit topic subscriber id _) (List.mem_singleton_self _) rfl _⟩

end Recorded.OnCourse

/-! ## The end -/

namespace LifeCycle

variable {es : List Event} {p : Option Phase} {w : σ} {r : Recorded σ}

theorem of_running (h : r.OnCourse p w) : LifeCycle none r.events := by
  refine ⟨fun moment hm => h.course.of_prefix hm, ?_, fun _ _ _ => h.course.final, h.noShutdown⟩
  intro outcome houtcome
  cases houtcome

theorem of_ended (outcome : Outcome) (h : Course (es ++ [.entered outcome.phase]) p)
    (hshutdowns : es.countP Event.isShutdown = if outcome = .stopped then 1 else 0) :
    LifeCycle (some outcome) (es ++ [.entered outcome.phase]) := by
  refine ⟨fun moment hm => h.of_prefix hm, ?_, fun _ _ _ => h.final, ?_⟩
  · rintro _ ⟨⟩
    exact List.getLast?_concat
  · rw [List.countP_append, hshutdowns]
    simp only [Option.some.injEq]
    rfl

/-- **The end.**  It is a failure only if the monitor has failed, and in a phase where it can. -/
theorem finish (env : Surroundings σ) (shutdownTimeout : Nat) (halt : Halt) (h : r.OnCourse p w)
    (hstop : .stopping ∈ Phase.nextOf p) (hfail : ∀ e, halt = .failure e → .failed ∈ Phase.nextOf p) :
    ∃ outcome w' r', Tracking.finish env shutdownTimeout halt w = (outcome, w')
      ∧ Tracking.finish env.recorded shutdownTimeout halt r = (outcome, r')
      ∧ r'.world = w' ∧ LifeCycle (some outcome) r'.events := by
  obtain rfl := h.world
  have hsame : Tracking.failure? env.recorded halt r = Tracking.failure? env halt r.world := rfl
  rw [Tracking.finish, Tracking.finish, hsame]
  cases hcase : Tracking.failure? env halt r.world with
  | some e =>
    have hfailed : .failed ∈ Phase.nextOf p := by
      cases halt with
      | failure e => exact hfail e rfl
      | abandoned => cases hcase
    have hentered := h.enter env hfailed (fun _ hc => by cases hc)
    refine ⟨_, _, _, rfl, rfl, hentered.world, of_ended (.failed e) hentered.course ?_⟩
    rw [h.noShutdown]
    rfl
  | none =>
    have hentered := h.enter env hstop (fun _ hc => by cases hc)
    have htold := hentered.course.concat (.call (c := .shutdown shutdownTimeout)
      (List.mem_singleton_self _)) (fun _ hc => by cases hc)
    have hstopped := htold.concat (.enter (q := .stopped) (List.mem_singleton_self _))
      (fun _ hc => by cases hc)
    refine ⟨_, _, _, rfl, rfl, rfl, of_ended .stopped hstopped ?_⟩
    show List.countP Event.isShutdown (_ ++ [Event.called (.shutdown shutdownTimeout)]) = 1
    rw [List.countP_append, hentered.noShutdown]
    rfl

end LifeCycle

/-! ## A run -/

namespace Tracking

/-- A run after `fuel` steps: its outcome, if it has come to one. -/
def soFar (env : Surroundings σ) (shutdownTimeout fuel : Nat) (t : Tracking) (w : σ) :
    Option Outcome × Tracking × σ :=
  if env.isStopRequested w || env.isDeserted w then
    let (outcome, w) := finish env shutdownTimeout .abandoned w
    (some outcome, t, w)
  else
    let w := env.enter .starting w
    match t.obstacle? with
    | some e =>
      let (outcome, w) := finish env shutdownTimeout (.failure e) w
      (some outcome, t, w)
    | none => match goOn env fuel .starting t w with
      | (.ok _, t, w) => (none, t, w)
      | (.error h, t, w) =>
        let (outcome, w) := finish env shutdownTimeout h w
        (some outcome, t, w)

/-- A run gives what it has come to. -/
theorem run_eq_soFar (env : Surroundings σ) (shutdownTimeout fuel : Nat) (t : Tracking) (w : σ) :
    run env shutdownTimeout fuel t w
      = (soFar env shutdownTimeout fuel t w).1.map fun outcome =>
        (outcome, (soFar env shutdownTimeout fuel t w).2) := by
  rw [run, soFar]
  split
  · rfl
  · cases t.obstacle? with
    | some e => rfl
    | none =>
      simp only [relay_eq_goOn]
      rcases goOn env fuel .starting t (env.enter .starting w) with ⟨halt | stage, t₁, w₁⟩
      · rfl
      · rfl

/-- The recorder shows a life cycle with the outcome that the run has come to. -/
theorem soFar_lifeCycle (env : Surroundings σ) (shutdownTimeout fuel : Nat) (t : Tracking) (w : σ) :
    ∃ outcome? t' w' r, soFar env shutdownTimeout fuel t w = (outcome?, t', w')
      ∧ soFar env.recorded shutdownTimeout fuel t (.begin w) = (outcome?, t', r)
      ∧ r.world = w' ∧ LifeCycle outcome? r.events := by
  have hbegin := Recorded.OnCourse.begin w
  have hsame : (env.recorded.isStopRequested (.begin w) || env.recorded.isDeserted (.begin w))
      = (env.isStopRequested w || env.isDeserted w) := rfl
  rw [soFar, soFar, hsame]
  split
  · obtain ⟨outcome, w', r, hw, hr, hworld, hlife⟩ :=
      LifeCycle.finish env shutdownTimeout .abandoned hbegin (by decide) (fun _ h => by cases h)
    rw [hw, hr]
    exact ⟨_, _, _, _, rfl, rfl, hworld, hlife⟩
  · have hstarting := hbegin.enter env (q := .starting) (by decide) (fun hc => by cases hc)
    cases t.obstacle? with
    | some e =>
      obtain ⟨outcome, w', r, hw, hr, hworld, hlife⟩ :=
        LifeCycle.finish env shutdownTimeout (.failure e) hstarting (by decide) (fun _ _ => by decide)
      simp only [hw, hr]
      exact ⟨_, _, _, _, rfl, rfl, hworld, hlife⟩
    | none =>
      have hgone := (Recorded.OnCourse.simulates env).goOn fuel .starting t hstarting
      obtain ⟨next, ⟨t₁, w₁⟩, ⟨_, r₁⟩, hw, hr, rfl, hdue⟩ := hgone.exists
      rw [hw] at hdue
      simp only [hw, hr]
      cases next with
      | ok stage =>
        obtain ⟨p, hnow⟩ := hdue.of_ok
        exact ⟨_, _, _, _, rfl, rfl, hnow.world, .of_running hnow⟩
      | error halt =>
        obtain ⟨p, hnow, hstop, hfail⟩ := hdue.of_error
        obtain ⟨outcome, w', r, hw, hr, hworld, hlife⟩ :=
          LifeCycle.finish env shutdownTimeout halt hnow hstop hfail
        simp only [hw, hr]
        exact ⟨_, _, _, _, rfl, rfl, hworld, hlife⟩

/-- **The life cycle of a monitor.**  After any number of steps of a run, in any surroundings: what the
    recorder shows of the monitor is a life cycle with the outcome that the run has come to, if it has
    come to one. -/
theorem run_life_cycle (env : Surroundings σ) (shutdownTimeout fuel : Nat) (t : Tracking) (w : σ) :
    ∃ outcome? t' r, soFar env.recorded shutdownTimeout fuel t (.begin w) = (outcome?, t', r)
      ∧ run env shutdownTimeout fuel t w = outcome?.map (fun outcome => (outcome, t', r.world))
      ∧ LifeCycle outcome? r.events := by
  obtain ⟨outcome?, t', w', r, hw, hr, rfl, hlife⟩ := soFar_lifeCycle env shutdownTimeout fuel t w
  refine ⟨outcome?, t', r, hr, ?_, hlife⟩
  rw [run_eq_soFar, hw]

end Tracking
end TopicRelay.Monitor
