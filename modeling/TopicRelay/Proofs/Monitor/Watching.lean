/-
  A monitor that is watched while it is stopped.

  The watch notes what a monitor does, each time with the state of the world before and after.  A stop is
  noticed in three ways, and each of them can be seen:

      resolve   abandoned           the stop came while the monitor waited for the answer
      wait      abandoned           it came in a rest
      handle    with the request    it came before the element was looked at

  A fourth one can not: when an answer to a fetch breaks off because of a stop, this is noticed when all
  elements that came before are done with.  So after such a fetch elements are handled, and either one of
  them fails on this side, or that is the last thing that is done (`Relaying.answered`).

  crux   as long as a monitor goes on, nothing that it did has noticed a stop (`Relaying`); each part of
         a step keeps this or, if it ends in a stop, has noticed it last (`JustNoticed`)
-/
import TopicRelay.Proofs.Monitor.Recording
import TopicRelay.Proofs.Monitor.Resolution

namespace TopicRelay.Monitor

open Wire (TopicMessages)

variable {σ : Type}

/-! ## What can be relied on -/

/-- Something holds between the states before and after every call. -/
structure Surroundings.EveryCall (env : Surroundings σ) (P : σ → σ → Prop) : Prop where
  enter : ∀ p w, P w (env.enter p w)
  resolve : ∀ keys w, P w (env.resolve keys w).2
  fetch : ∀ requests w, P w (env.fetch requests w).2
  arrive : ∀ w, P w (env.arrive w)
  shutdown : ∀ timeout w, P w (env.shutdown timeout w)
  publish : ∀ topic payload w, P w (env.publish topic payload w).2
  offset : ∀ topic subscriber w, P w (env.offset topic subscriber w).2
  commit : ∀ topic subscriber id w, P w (env.commit topic subscriber id w).2
  draw : ∀ limit w, P w (env.draw limit w).2
  wait : ∀ delay w, P w (env.wait delay w).2

theorem Surroundings.EveryCall.mono {env : Surroundings σ} {P Q : σ → σ → Prop} (h : env.EveryCall P)
    (hPQ : ∀ {w w'}, P w w' → Q w w') : env.EveryCall Q :=
  ⟨fun p w => hPQ (h.enter p w), fun keys w => hPQ (h.resolve keys w),
    fun requests w => hPQ (h.fetch requests w), fun w => hPQ (h.arrive w),
    fun timeout w => hPQ (h.shutdown timeout w), fun topic payload w => hPQ (h.publish topic payload w),
    fun topic subscriber w => hPQ (h.offset topic subscriber w),
    fun topic subscriber id w => hPQ (h.commit topic subscriber id w),
    fun limit w => hPQ (h.draw limit w), fun delay w => hPQ (h.wait delay w)⟩

/-- A stop that was requested stays requested, and is not overlooked for ever: a wait that begins then is
    abandoned or takes up some patience, of which there is never more than before. -/
structure HeedsStops (env : Surroundings σ) (patience : σ → Nat) : Prop where
  kept : env.EveryCall fun w w' => env.isStopRequested w = true →
    env.isStopRequested w' = true ∧ patience w' ≤ patience w
  noticed : ∀ {delay w w'}, env.isStopRequested w = true → env.wait delay w = (true, w') →
    patience w' < patience w

/-! ## The watch -/

/-- What a monitor does, as far as it matters for a stop: whether what it waited for was abandoned, and
    whether what it did on this side was done. -/
inductive Act where
  | enter (p : Phase)
  | resolve (abandoned : Bool)
  | load
  | fetch (abandoned : Bool)
  | handle
  | publish (done : Bool)
  | commit (done : Bool)
  | draw
  | wait (abandoned : Bool)
  | shutdown
deriving DecidableEq, Repr

namespace Act

/-- Whether something failed on this side. -/
def isFailure : Act → Bool
  | .publish done | .commit done => !done
  | _ => false

/-- Whether it belongs to the handling of an element. -/
def isHandling : Act → Bool
  | .handle | .publish _ | .commit _ => true
  | _ => false

/-- Whether the remote is asked for something. -/
def isQuestion : Act → Bool
  | .resolve _ | .fetch _ => true
  | _ => false

/-- Whether the phase is entered in which the monitor stops. -/
def isStopping : Act → Bool
  | .enter .stopping => true
  | _ => false

end Act

/-- Something that was done, and the state of the world before and after it. -/
structure Moment (σ : Type) where
  act : Act
  before : σ
  after : σ

/-- Whether a stop was noticed. -/
def Moment.Notices (env : Surroundings σ) (m : Moment σ) : Prop :=
  match m.act with
  | .resolve abandoned | .wait abandoned => abandoned = true
  | .handle => env.isStopRequested m.after = true
  | _ => False

/-- No phase is entered when a stop is noticed. -/
theorem Moment.Notices.isStopping {env : Surroundings σ} {m : Moment σ} (h : m.Notices env) :
    m.act.isStopping = false := by
  obtain ⟨act, before, after⟩ := m
  cases act <;> first | rfl | cases h

/-- A world with the moments in it. -/
structure Watched (σ : Type) where
  world : σ
  moments : List (Moment σ)

namespace Watched

/-- Nothing was done yet. -/
def begin (w : σ) : Watched σ := ⟨w, []⟩

/-- Adds what was done, which led to a new state of the world. -/
def add (r : Watched σ) (a : Act) (w : σ) : Watched σ := ⟨w, r.moments ++ [⟨a, r.world, w⟩]⟩

end Watched

/-- Whether the monitor gave up waiting for something. -/
def isAbandoned {α : Type} : Except Halt α → Bool
  | .error .abandoned => true
  | _ => false

/-- The same surroundings, with a watch. -/
def Surroundings.watched (env : Surroundings σ) : Surroundings (Watched σ) where
  isStopRequested r := env.isStopRequested r.world
  isDeserted r := env.isDeserted r.world
  enter p r := r.add (.enter p) (env.enter p r.world)
  resolve keys r :=
    let (answer, w) := env.resolve keys r.world
    (answer, r.add (.resolve (isAbandoned answer)) w)
  fetch requests r :=
    let (delivery, w) := env.fetch requests r.world
    (delivery, r.add (.fetch (isAbandoned delivery.ending)) w)
  arrive r := r.add .handle (env.arrive r.world)
  shutdown timeout r := r.add .shutdown (env.shutdown timeout r.world)
  publish topic payload r :=
    let (answer, w) := env.publish topic payload r.world
    (answer, r.add (.publish answer.isOk) w)
  offset topic subscriber r :=
    let (answer, w) := env.offset topic subscriber r.world
    (answer, r.add .load w)
  commit topic subscriber id r :=
    let (answer, w) := env.commit topic subscriber id r.world
    (answer, r.add (.commit answer.isOk) w)
  draw limit r :=
    let (drawn, w) := env.draw limit r.world
    (drawn, r.add .draw w)
  wait delay r :=
    let (whole, w) := env.wait delay r.world
    (whole, r.add (.wait !whole) w)

/-! ## While a monitor goes on -/

/-- What was done by a monitor that has noticed no stop.  It may be `pending` that an answer has broken
    off because of one. -/
structure Relaying (env : Surroundings σ) (pending : Prop) (ms : List (Moment σ)) : Prop where
  unnoticed : ∀ m ∈ ms, ¬ m.Notices env
  answered : ∀ before m after, ms = before ++ m :: after → m.act = .fetch true →
    (∃ x ∈ after, x.act.isFailure = true) ∨ pending ∧ ∀ x ∈ after, x.act.isHandling = true
  running : ∀ m ∈ ms, m.act.isStopping = false

/-- What was done until a stop was noticed, which was last. -/
def JustNoticed (env : Surroundings σ) (ms : List (Moment σ)) : Prop :=
  ∃ earlier m, ms = earlier ++ [m] ∧ m.Notices env
    ∧ (Relaying env False earlier ∨ Relaying env True earlier ∧ m.act = .handle)

variable {env : Surroundings σ} {pending : Prop} {ms : List (Moment σ)} {m : Moment σ}

namespace Relaying

theorem nil : Relaying env False [] where
  unnoticed _ hm := by cases hm
  answered _ _ _ h _ := absurd h.symm (List.append_ne_nil_of_right_ne_nil _ (List.cons_ne_nil _ _))
  running _ hm := by cases hm

theorem mono (h : Relaying env pending ms) {pending' : Prop} (hp : pending → pending') :
    Relaying env pending' ms :=
  ⟨h.unnoticed, fun before m after hms hm =>
    (h.answered before m after hms hm).imp_right fun hrest => ⟨hp hrest.1, hrest.2⟩, h.running⟩

/-- **One thing more.**  What is pending stays so while elements are handled. -/
theorem concat (h : Relaying env pending ms) {pending' : Prop} (hnotices : ¬ m.Notices env)
    (hrunning : m.act.isStopping = false) (hfetch : m.act = .fetch true → pending')
    (hpending : pending → m.act.isFailure = true ∨ pending' ∧ m.act.isHandling = true) :
    Relaying env pending' (ms ++ [m]) := by
  constructor
  case unnoticed =>
    intro x hx
    rcases List.mem_append.mp hx with hx | hx
    · exact h.unnoticed x hx
    · cases List.mem_singleton.mp hx
      exact hnotices
  case running =>
    intro x hx
    rcases List.mem_append.mp hx with hx | hx
    · exact h.running x hx
    · cases List.mem_singleton.mp hx
      exact hrunning
  case answered =>
    intro before x after hsplit hx
    rcases split_concat hsplit with ⟨rfl, rfl, rfl⟩ | ⟨earlier, hms, rfl⟩
    · exact Or.inr ⟨hfetch hx, List.forall_mem_nil _⟩
    · rcases h.answered before x earlier hms hx with ⟨y, hy, hfailed⟩ | ⟨hp, hhandling⟩
      · exact Or.inl ⟨y, List.mem_append_left _ hy, hfailed⟩
      · rcases hpending hp with hfailed | ⟨hp', hm⟩
        · exact Or.inl ⟨m, List.mem_append_right _ (List.mem_singleton_self _), hfailed⟩
        · refine Or.inr ⟨hp', fun y hy => ?_⟩
          rcases List.mem_append.mp hy with hy | hy
          · exact hhandling y hy
          · cases List.mem_singleton.mp hy
            exact hm

/-- Something was published or committed, or failed to be. -/
theorem store {r : Watched σ} (h : Relaying env pending r.moments) {a : Act}
    (ha : a.isHandling = true) (hother : a ≠ .handle) (w : σ) :
    Relaying env (pending ∧ a.isFailure = false) (r.add a w).moments := by
  refine h.concat ?_ ?_ ?_ fun hp => ?_
  · cases a <;> first | exact absurd rfl hother | exact id | cases ha
  · cases a <;> first | rfl | cases ha
  · rintro rfl
    cases ha
  · cases hfailed : a.isFailure with
    | false => exact Or.inr ⟨⟨hp, rfl⟩, ha⟩
    | true => exact Or.inl rfl

/-- Something else was done, in which no stop was noticed. -/
theorem add {r : Watched σ} (h : Relaying env False r.moments) {a : Act} {w : σ}
    (hnotices : ¬ Moment.Notices env ⟨a, r.world, w⟩) (hrunning : a.isStopping = false)
    (hfetch : a ≠ .fetch true) : Relaying env False (r.add a w).moments :=
  h.concat hnotices hrunning (fun ha => absurd ha hfetch) False.elim

/-- A phase was entered, but not the one in which the monitor stops. -/
theorem enter {r : Watched σ} (h : Relaying env False r.moments) {p : Phase}
    (hp : (Act.enter p).isStopping = false) : Relaying env False (env.watched.enter p r).moments :=
  h.add id hp fun ha => by cases ha

end Relaying

/-! ## How a part of a step can end -/

/-- Whether a monitor does not go on after it has halted like this. -/
def Halt.isFinal : Halt → Bool
  | .abandoned => true
  | .failure e => !e.isRetryable

/-- Whether a monitor has halted because of a stop. -/
def Halt.isStop : Halt → Bool
  | .abandoned => true
  | .failure e => e = .stopped

/-- What was done until a part of a step was over: if it has halted, and it may be that a stop was noticed
    or that an answer has broken off because of one, then the monitor does not go on. -/
def Went {α : Type} (env : Surroundings σ) (pending : Prop) (x : Except Halt α)
    (ms : List (Moment σ)) : Prop :=
  match x with
  | .ok _ => Relaying env pending ms
  | .error halt => Relaying env False ms
      ∨ halt.isFinal = true ∧ (Relaying env True ms ∨ halt.isStop = true ∧ JustNoticed env ms)

/-- What was done until a step was over, or several. -/
def Stepped {α : Type} (env : Surroundings σ) (x : Except Halt α) (ms : List (Moment σ)) : Prop :=
  match x with
  | .ok _ => Relaying env False ms
  | .error halt => Relaying env True ms ∨ halt.isStop = true ∧ JustNoticed env ms

/-! ## An answer -/

namespace Intake

variable {r r' : Watched σ} {i i' : Intake} {subscriber : SubscriberName}

theorem publishAll_watched {topic : TopicName} {messages : List Message} {x : Except RelayError Unit}
    (h : Relaying env pending r.moments)
    (hpublish : publishAll env.watched topic messages r = (x, r')) :
    Relaying env (pending ∧ x = .ok ()) r'.moments := by
  induction messages generalizing r with
  | nil =>
    rw [publishAll] at hpublish
    cases hpublish
    exact h.mono fun hp => ⟨hp, rfl⟩
  | cons message messages ih =>
    have hstored := h.store (a := .publish (env.publish topic message.payload r.world).1.isOk) rfl
      (fun ha => by cases ha) (env.publish topic message.payload r.world).2
    rw [publishAll] at hpublish
    split at hpublish
    · next e r₁ hone =>
      obtain ⟨hanswer, rfl⟩ := Prod.mk.inj hone
      cases hpublish
      refine hstored.mono ?_
      rw [hanswer]
      exact fun hp => by cases hp.2
    · next id r₁ hone =>
      obtain ⟨-, rfl⟩ := Prod.mk.inj hone
      exact ih (hstored.mono And.left) hpublish

theorem commitLast_watched {p : TopicProgress} {e : TopicMessages} {x : Except RelayError Unit}
    (h : Relaying env pending r.moments)
    (hcommit : commitLast env.watched subscriber p e i r = (x, i', r')) :
    Relaying env (pending ∧ x = .ok ()) r'.moments := by
  rcases commitLast_cases hcommit with ⟨-, rfl, -, rfl⟩ | ⟨id, -, -, hput⟩
  · exact h.mono fun hp => ⟨hp, rfl⟩
  · have hstored := h.store
      (a := .commit (env.commit p.remoteTopic subscriber id r.world).1.isOk) rfl (fun ha => by cases ha)
      (env.commit p.remoteTopic subscriber id r.world).2
    rcases hput with ⟨y, hone, rfl, -⟩ | ⟨hone, rfl, -⟩
    · obtain ⟨hanswer, rfl⟩ := Prod.mk.inj hone
      refine hstored.mono ?_
      rw [hanswer]
      exact fun hp => by cases hp.2
    · obtain ⟨-, rfl⟩ := Prod.mk.inj hone
      exact hstored.mono fun hp => ⟨hp.1, rfl⟩

/-- **An element**: if a stop is there, that is noticed and nothing else is done. -/
theorem accept_watched {e : TopicMessages} {x : Except RelayError Unit}
    (h : Relaying env pending r.moments)
    (haccept : accept env.watched subscriber e i (env.watched.arrive r) = (x, i', r')) :
    Went env pending (x.mapError .failure) r'.moments := by
  rw [accept] at haccept
  split at haccept
  · next hstop =>
    cases haccept
    refine Or.inr ⟨rfl, Or.inr ⟨rfl, r.moments, ⟨.handle, r.world, env.arrive r.world⟩, rfl, hstop, ?_⟩⟩
    exact Or.inr ⟨h.mono fun _ => trivial, rfl⟩
  · next hgoes =>
    have harrived : Relaying env pending (env.watched.arrive r).moments :=
      h.concat hgoes rfl (fun ha => by cases ha) fun hp => Or.inr ⟨hp, rfl⟩
    split at haccept
    · cases haccept
      exact Or.inr ⟨rfl, Or.inl (harrived.mono fun _ => trivial)⟩
    · next p _ =>
      split at haccept
      · cases haccept
        exact harrived
      · next hrelay =>
        rcases relay_cases haccept with ⟨y, hms, rfl, -⟩ | ⟨i₁, r₁, hms, hlast, -, -⟩
        · exact Or.inl ((publishAll_watched harrived hms).mono fun hp => by cases hp.2)
        · have hdone := commitLast_watched (publishAll_watched harrived hms) hlast
          cases x with
          | error y => exact Or.inl (hdone.mono fun hp => by cases hp.2)
          | ok _ => exact hdone.mono fun hp => hp.1.1

/-- **An answer.** -/
theorem acceptAll_watched {es : List TopicMessages} {x : Except RelayError Unit}
    (h : Relaying env pending r.moments)
    (hall : acceptAll env.watched subscriber es i r = (x, i', r')) :
    Went env pending (x.mapError .failure) r'.moments := by
  induction es generalizing i r with
  | nil =>
    rw [acceptAll] at hall
    cases hall
    exact h
  | cons e es ih =>
    rw [acceptAll] at hall
    split at hall
    · next hone =>
      cases hall
      exact accept_watched h hone
    · next hone => exact ih (accept_watched h hone) hall

end Intake

/-! ## Steps -/

namespace Tracking

variable {r r' : Watched σ} {t t' : Tracking}

/-- **A cycle.** -/
theorem pollCycle_watched {x : Except Halt CycleSummary} (h : Relaying env False r.moments)
    (hcycle : t.pollCycle env.watched r = (x, t', r')) : Went env False x r'.moments := by
  rw [pollCycle] at hcycle
  split at hcycle
  · cases hcycle
    exact h
  · -- what is pending from now on is whether the answer will break off
    have hfetched : Relaying env (isAbandoned (env.fetch t.requests r.world).1.ending = true)
        (env.watched.fetch t.requests r).2.moments :=
      h.concat id rfl (fun hact => Act.fetch.inj hact) False.elim
    rcases hall : Intake.acceptAll env.watched t.settings.subscriber
        (env.watched.fetch t.requests r).1.elements (.start t.resolved)
        (env.watched.fetch t.requests r).2 with ⟨r₁, i, w₁⟩
    have hdone := Intake.acceptAll_watched hfetched hall
    simp only [Intake.receive, hall] at hcycle
    cases r₁ with
    | error y =>
      cases hcycle
      exact hdone
    | ok _ =>
      have hending : (env.watched.fetch t.requests r).1.ending
          = (env.fetch t.requests r.world).1.ending := rfl
      have hrelaying : Relaying env (isAbandoned (env.fetch t.requests r.world).1.ending = true)
          w₁.moments := hdone
      cases hcase : (env.fetch t.requests r.world).1.ending with
      | error halt =>
        simp only [hending, hcase] at hcycle
        cases hcycle
        rw [hcase] at hrelaying
        cases halt with
        | abandoned => exact Or.inr ⟨rfl, Or.inl (hrelaying.mono fun _ => trivial)⟩
        | failure e => exact Or.inl (hrelaying.mono fun hp => by cases hp)
      | ok _ =>
        simp only [hending, hcase] at hcycle
        cases hcycle
        rw [hcase] at hrelaying
        have hwhole : Relaying env False _ := hrelaying.mono fun hp => by cases hp
        cases (t.conclude i).1 with
        | ok s => exact hwhole
        | error e => exact Or.inl hwhole

/-- **A resolution**: a stop is noticed if it is abandoned. -/
theorem resolveTopics_watched {x : Except Halt Nat} (h : Relaying env False r.moments)
    (hresolve : t.resolveTopics env.watched r = (x, t', r')) :
    x = .error .abandoned ∧ JustNoticed env r'.moments
      ∨ x ≠ .error .abandoned ∧ Relaying env False r'.moments := by
  rw [resolveTopics] at hresolve
  split at hresolve
  · cases hresolve
    refine Or.inr ⟨fun hx => ?_, h⟩
    cases hx
  · rcases hanswer : env.resolve t.unresolved r.world with ⟨answer, w⟩
    have hasked : env.watched.resolve t.unresolved r
        = (answer, r.add (.resolve (isAbandoned answer)) w) := by
      simp only [Surroundings.watched, hanswer]
    simp only [hasked] at hresolve
    cases answer with
    | error halt =>
      cases hresolve
      cases halt with
      | abandoned => exact Or.inl ⟨rfl, r.moments, _, rfl, rfl, Or.inl h⟩
      | failure e =>
        refine Or.inr ⟨?_, h.add ?_ rfl ?_⟩
        · intro hx
          cases hx
        · exact Bool.false_ne_true
        · intro ha
          cases ha
    | ok mapping =>
      have hnamed : Relaying env False (r.add (.resolve false) w).moments :=
        h.add Bool.false_ne_true rfl fun ha => by cases ha
      rcases hall : adoptAll env.watched 0 mapping.entries t (r.add (.resolve false) w) with ⟨y, t₁, r₁⟩
      have hloaded : Relaying env False r₁.moments := by
        refine adoptAll_keeps (P := fun _ r => Relaying env False r.moments) ?_ ?_ hnamed hall
        · intro e _ t r y r' hr hload
          obtain ⟨-, rfl⟩ := Prod.mk.inj hload
          exact hr.add id rfl fun ha => by cases ha
        · intro e _ t r last r' hr _ hload
          obtain ⟨-, rfl⟩ := Prod.mk.inj hload
          exact hr.add id rfl fun ha => by cases ha
      simp only [isAbandoned, hall] at hresolve
      cases hresolve
      refine Or.inr ⟨?_, hloaded⟩
      intro hx
      cases y <;> cases hx

/-- After a failure that can pass, nothing is pending. -/
theorem restAfter_watched {e : RelayError} {x : Except RelayError Nat}
    (h : Went env False (.error (.failure e) : Except Halt Unit) r.moments)
    (hrest : t.restAfter env.watched e r = (x, t', r')) :
    Stepped env (x.mapError .failure) r'.moments := by
  rw [restAfter] at hrest
  split at hrest
  · next hretryable =>
    have hrelaying : Relaying env False r.moments := by
      rcases h with h | ⟨hfinal, -⟩
      · exact h
      · rw [Halt.isFinal, hretryable] at hfinal
        cases hfinal
    rcases hbackoff : t.backoff.failure with ⟨_ | base, backoff⟩
    · rw [hbackoff] at hrest
      cases hrest
      exact Or.inl (hrelaying.mono False.elim)
    · rw [hbackoff] at hrest
      cases hrest
      exact hrelaying.add id rfl fun ha => by cases ha
  · cases hrest
    rcases h with h | ⟨-, h⟩
    · exact Or.inl (h.mono False.elim)
    · exact h

/-- A stop is noticed in a rest that is abandoned. -/
theorem waitThen_watched {delay : Nat} {next : Stage} {x : Except Halt Stage}
    (h : Relaying env False r.moments) (hwait : waitThen env.watched delay next t r = (x, t', r')) :
    Stepped env x r'.moments := by
  rw [waitThen] at hwait
  split at hwait
  · next r₁ hone =>
    obtain ⟨hanswer, rfl⟩ := Prod.mk.inj hone
    cases hwait
    refine Or.inr ⟨rfl, r.moments, _, rfl, ?_, Or.inl h⟩
    show (!_) = true
    rw [hanswer]
    rfl
  · next r₁ hone =>
    obtain ⟨hanswer, rfl⟩ := Prod.mk.inj hone
    cases hwait
    refine h.add ?_ rfl fun ha => by cases ha
    show ¬ (!_) = true
    rw [hanswer]
    exact Bool.false_ne_true

theorem startStep_watched {x : Except Halt Stage} (h : Relaying env False r.moments)
    (hstep : startStep env.watched t r = (x, t', r')) : Stepped env x r'.moments := by
  rw [startStep] at hstep
  rcases hresolve : t.resolveTopics env.watched r with ⟨y, t₁, r₁⟩
  rw [hresolve] at hstep
  rcases resolveTopics_watched h hresolve with ⟨rfl, hnoticed⟩ | ⟨hy, hrelaying⟩
  · cases hstep
    exact Or.inr ⟨rfl, hnoticed⟩
  · rcases y with (e | _) | n
    · rcases hrest : t₁.restAfter env.watched e r₁ with ⟨z, t₂, r₂⟩
      simp only [hrest] at hstep
      have hrested := restAfter_watched (Or.inl hrelaying) hrest
      cases z with
      | error e =>
        cases hstep
        exact hrested
      | ok delay => exact waitThen_watched hrested hstep
    · exact absurd rfl hy
    · simp only at hstep
      split at hstep
      · exact waitThen_watched hrelaying hstep
      · cases hstep
        exact hrelaying

theorem pollStep_watched {x : Except Halt Stage} (h : Relaying env False r.moments)
    (hstep : pollStep env.watched t r = (x, t', r')) : Stepped env x r'.moments := by
  rw [pollStep] at hstep
  have hentered : Relaying env False (env.watched.enter .polling r).moments := h.enter rfl
  rcases hcycle : t.pollCycle env.watched (env.watched.enter .polling r) with ⟨y, t₁, r₁⟩
  have hwent := pollCycle_watched hentered hcycle
  rw [hcycle] at hstep
  rcases y with (e | _) | summary
  · rcases hrest : t₁.restAfter env.watched e r₁ with ⟨z, t₂, r₂⟩
    simp only [hrest] at hstep
    have hrested := restAfter_watched hwent hrest
    cases z with
    | error e =>
      cases hstep
      exact hrested
    | ok delay =>
      cases hstep
      exact hrested
  · cases hstep
    rcases hwent with hwent | ⟨-, hwent⟩
    · exact Or.inl (hwent.mono False.elim)
    · exact hwent
  · cases hstep
    exact hwent

theorem restStep_watched {delay : Nat} {x : Except Halt Stage} (h : Relaying env False r.moments)
    (hstep : restStep env.watched delay t r = (x, t', r')) : Stepped env x r'.moments := by
  rw [restStep] at hstep
  have hentered : Relaying env False (env.watched.enter .backoff r).moments := h.enter rfl
  rcases hresolve : t.resolveTopics env.watched (env.watched.enter .backoff r) with ⟨y, t₁, r₁⟩
  rw [hresolve] at hstep
  rcases resolveTopics_watched hentered hresolve with ⟨rfl, hnoticed⟩ | ⟨hy, hrelaying⟩
  · cases hstep
    exact Or.inr ⟨rfl, hnoticed⟩
  · rcases y with (e | _) | n
    · exact waitThen_watched hrelaying hstep
    · exact absurd rfl hy
    · exact waitThen_watched hrelaying hstep

/-- **A step.** -/
theorem step_watched {stage : Stage} {x : Except Halt Stage} (h : Relaying env False r.moments)
    (hstep : step env.watched stage t r = (x, t', r')) : Stepped env x r'.moments := by
  cases stage with
  | starting => exact startStep_watched h hstep
  | polling => exact pollStep_watched h hstep
  | resting delay => exact restStep_watched h hstep

/-- **Any number of steps.** -/
theorem goOn_watched {fuel : Nat} {stage : Stage} {x : Except Halt Stage}
    (h : Relaying env False r.moments) (hgone : goOn env.watched fuel stage t r = (x, t', r')) :
    Stepped env x r'.moments := by
  induction fuel generalizing stage t r with
  | zero =>
    cases hgone
    exact h
  | succ fuel ih =>
    rw [goOn] at hgone
    rcases hstep : step env.watched stage t r with ⟨y, t₁, r₁⟩
    have hstepped := step_watched h hstep
    rw [hstep] at hgone
    cases y with
    | error halt =>
      cases hgone
      exact hstepped
    | ok next => exact ih hstepped hgone

end Tracking
end TopicRelay.Monitor
