/-
  A monitor in two worlds at once.

  A monitor knows its surroundings only by what they answer.  So in two surroundings that answer alike
  it does the same, and what relates their states stays true (`Simulation`).  The relation may depend on
  the phase, and a call has to keep it only in those phases in which the call is made:

      STARTING    resolve, load, wait, draw
      POLLING     fetch, publish, commit, draw
      BACKOFF     resolve, load, wait

  One pass through the monitor thus gives two things: what cannot be seen by a monitor does not change
  what it does, and no call is made in another phase than these (`Simulation.goOn`).  A monitor that
  polls twice in a row has drained a topic in between; a second relation is for that moment.
-/
import TopicRelay.Monitor.Run

namespace TopicRelay.Monitor

open Wire (ConsumeRequests TopicMessages)

variable {σ τ : Type}

/-- The phases that can come after a phase. -/
def Phase.next : Phase → List Phase
  | .starting => [.polling, .failed, .stopping]
  | .polling => [.polling, .backoff, .failed, .stopping]
  | .backoff => [.polling, .stopping]
  | .stopping => [.stopped]
  | .stopped => []
  | .failed => []

/-! ## Answers that agree -/

/-- The same answer, and then related states. -/
def Agree {α : Type} (R : σ → τ → Prop) (x : α × σ) (y : α × τ) : Prop := x.1 = y.1 ∧ R x.2 y.2

theorem Agree.exists {α : Type} {R : σ → τ → Prop} {x : α × σ} {y : α × τ} (h : Agree R x y) :
    ∃ a w v, x = (a, w) ∧ y = (a, v) ∧ R w v := by
  obtain ⟨hanswer, hstates⟩ := h
  exact ⟨x.1, x.2, y.2, rfl, Prod.ext hanswer.symm rfl, hstates⟩

/-- Surroundings in which a monitor does the same as in others, and what relates their states: `R` in
    each phase, and `D` as well after a cycle that asks for another one at once. -/
structure Simulation (env : Surroundings σ) (env' : Surroundings τ) (R : Phase → σ → τ → Prop)
    (D : σ → τ → Prop) : Prop where
  isStopRequested : ∀ {w v}, R .polling w v → env.isStopRequested w = env'.isStopRequested v
  enter : ∀ {p q w v}, q ∈ p.next → (p = .polling → q = .polling → D w v) → R p w v →
    R q (env.enter q w) (env'.enter q v)
  drain : ∀ {t : Tracking} {p w v s t' w' v'}, .polling ∈ p.next → R p w v →
    t.pollCycle env (env.enter .polling w) = (.ok s, t', w') →
    t.pollCycle env' (env'.enter .polling v) = (.ok s, t', v') → s.drain = true → D w' v'
  resolve : ∀ keys {p w v}, p ∈ [.starting, .backoff] → R p w v →
    Agree (R p) (env.resolve keys w) (env'.resolve keys v)
  offset : ∀ topic subscriber {p w v}, p ∈ [.starting, .backoff] → R p w v →
    Agree (R p) (env.offset topic subscriber w) (env'.offset topic subscriber v)
  wait : ∀ delay {p w v}, p ∈ [.starting, .backoff] → R p w v →
    Agree (R p) (env.wait delay w) (env'.wait delay v)
  draw : ∀ limit {p w v}, p ∈ [.starting, .polling] → R p w v →
    Agree (R p) (env.draw limit w) (env'.draw limit v)
  fetch : ∀ requests {w v}, R .polling w v →
    Agree (R .polling) (env.fetch requests w) (env'.fetch requests v)
  arrive : ∀ {w v}, R .polling w v → R .polling (env.arrive w) (env'.arrive v)
  publish : ∀ topic payload {w v}, R .polling w v →
    Agree (R .polling) (env.publish topic payload w) (env'.publish topic payload v)
  commit : ∀ topic subscriber id {w v}, R .polling w v →
    Agree (R .polling) (env.commit topic subscriber id w) (env'.commit topic subscriber id v)

namespace Simulation

variable {env : Surroundings σ} {env' : Surroundings τ} {R : Phase → σ → τ → Prop}
  {D : σ → τ → Prop} {w : σ} {v : τ}

/-! ## An answer -/

section Intake

open Intake

theorem publishAll (h : Simulation env env' R D) (topic : TopicName) (ms : List Message)
    (hR : R .polling w v) :
    Agree (R .polling) (publishAll env topic ms w) (publishAll env' topic ms v) := by
  induction ms generalizing w v with
  | nil => exact ⟨rfl, hR⟩
  | cons m ms ih =>
    obtain ⟨r, w₁, v₁, hw, hv, hR₁⟩ := (h.publish topic m.payload hR).exists
    simp only [Intake.publishAll, hw, hv]
    cases r with
    | error e => exact ⟨rfl, hR₁⟩
    | ok id => exact ih hR₁

theorem commitLast (h : Simulation env env' R D) (subscriber : SubscriberName) (p : TopicProgress)
    (e : TopicMessages) (i : Intake) (hR : R .polling w v) :
    Agree (Agree (R .polling)) (commitLast env subscriber p e i w)
      (commitLast env' subscriber p e i v) := by
  rw [Intake.commitLast, Intake.commitLast]
  split
  · exact ⟨rfl, rfl, hR⟩
  · next id _ =>
    by_cases hdone : p.lastMessageId = some id
    · simp only [if_pos hdone]
      exact ⟨rfl, rfl, hR⟩
    · obtain ⟨r, w₁, v₁, hw, hv, hR₁⟩ := (h.commit p.remoteTopic subscriber id hR).exists
      simp only [if_neg hdone, hw, hv]
      cases r with
      | error x => exact ⟨rfl, rfl, hR₁⟩
      | ok _ => exact ⟨rfl, rfl, hR₁⟩

theorem relay (h : Simulation env env' R D) (subscriber : SubscriberName) (p : TopicProgress)
    (e : TopicMessages) (i : Intake) (hR : R .polling w v) :
    Agree (Agree (R .polling)) (relay env subscriber p e i w) (relay env' subscriber p e i v) := by
  obtain ⟨r, w₁, v₁, hw, hv, hR₁⟩ := (h.publishAll p.localTopic e.messages hR).exists
  simp only [Intake.relay, hw, hv]
  cases r with
  | error x => exact ⟨rfl, rfl, hR₁⟩
  | ok _ =>
    obtain ⟨r, ⟨i₂, w₂⟩, ⟨_, v₂⟩, hw, hv, rfl, hR₂⟩ := (h.commitLast subscriber p e i hR₁).exists
    simp only [hw, hv]
    cases r with
    | error x => exact ⟨rfl, rfl, hR₂⟩
    | ok _ => exact ⟨rfl, rfl, hR₂⟩

theorem accept (h : Simulation env env' R D) (subscriber : SubscriberName) (e : TopicMessages)
    (i : Intake) (hR : R .polling w v) :
    Agree (Agree (R .polling)) (accept env subscriber e i w) (accept env' subscriber e i v) := by
  rw [Intake.accept, Intake.accept, h.isStopRequested hR]
  split
  · exact ⟨rfl, rfl, hR⟩
  · split
    · exact ⟨rfl, rfl, hR⟩
    · split
      · exact ⟨rfl, rfl, hR⟩
      · exact h.relay subscriber _ e i hR

theorem acceptAll (h : Simulation env env' R D) (subscriber : SubscriberName)
    (es : List TopicMessages) (i : Intake) (hR : R .polling w v) :
    Agree (Agree (R .polling)) (acceptAll env subscriber es i w)
      (acceptAll env' subscriber es i v) := by
  induction es generalizing i w v with
  | nil => exact ⟨rfl, rfl, hR⟩
  | cons e es ih =>
    obtain ⟨r, ⟨i₁, w₁⟩, ⟨_, v₁⟩, hw, hv, rfl, hR₁⟩ :=
      (h.accept subscriber e i (h.arrive hR)).exists
    simp only [Intake.acceptAll, hw, hv]
    cases r with
    | error x => exact ⟨rfl, rfl, hR₁⟩
    | ok _ => exact ih i₁ hR₁

end Intake

/-! ## What a monitor does -/

section Tracking

open Tracking

variable {p : Phase}

/-- **A cycle.** -/
theorem pollCycle (h : Simulation env env' R D) (t : Tracking) (hR : R .polling w v) :
    Agree (Agree (R .polling)) (t.pollCycle env w) (t.pollCycle env' v) := by
  rw [Tracking.pollCycle, Tracking.pollCycle]
  split
  · exact ⟨rfl, rfl, hR⟩
  · obtain ⟨d, w₁, v₁, hw, hv, hR₁⟩ := (h.fetch t.requests hR).exists
    obtain ⟨r, ⟨i, w₂⟩, ⟨_, v₂⟩, hw₂, hv₂, rfl, hR₂⟩ :=
      (h.acceptAll t.settings.subscriber d.elements (.start t.resolved) hR₁).exists
    simp only [hw, hv, Intake.receive, hw₂, hv₂]
    cases r with
    | error x => exact ⟨rfl, rfl, hR₂⟩
    | ok _ =>
      cases d.ending with
      | error halt => exact ⟨rfl, rfl, hR₂⟩
      | ok _ => exact ⟨rfl, rfl, hR₂⟩

theorem adoptAll (h : Simulation env env' R D) (hp : p ∈ [.starting, .backoff]) (count : Nat)
    (entries : List (TopicKey × TopicName)) (t : Tracking) (hR : R p w v) :
    Agree (Agree (R p)) (adoptAll env count entries t w) (adoptAll env' count entries t v) := by
  induction entries generalizing count t w v with
  | nil => exact ⟨rfl, rfl, hR⟩
  | cons entry entries ih =>
    rw [Tracking.adoptAll, Tracking.adoptAll]
    split
    · obtain ⟨r, w₁, v₁, hw, hv, hR₁⟩ := (h.offset entry.2 t.settings.subscriber hp hR).exists
      simp only [hw, hv]
      cases r with
      | error e => exact ⟨rfl, rfl, hR₁⟩
      | ok last => exact ih (count + 1) _ hR₁
    · exact ih count t hR

/-- **A resolution.** -/
theorem resolveTopics (h : Simulation env env' R D) (hp : p ∈ [.starting, .backoff]) (t : Tracking)
    (hR : R p w v) : Agree (Agree (R p)) (t.resolveTopics env w) (t.resolveTopics env' v) := by
  rw [Tracking.resolveTopics, Tracking.resolveTopics]
  split
  · exact ⟨rfl, rfl, hR⟩
  · obtain ⟨r, w₁, v₁, hw, hv, hR₁⟩ := (h.resolve t.unresolved hp hR).exists
    simp only [hw, hv]
    cases r with
    | error halt => exact ⟨rfl, rfl, hR₁⟩
    | ok mapping =>
      obtain ⟨r, ⟨t₂, w₂⟩, ⟨_, v₂⟩, hw₂, hv₂, rfl, hR₂⟩ :=
        (h.adoptAll hp 0 mapping.entries t hR₁).exists
      simp only [hw₂, hv₂]
      exact ⟨rfl, rfl, hR₂⟩

theorem restAfter (h : Simulation env env' R D) (hp : p ∈ [.starting, .polling]) (e : RelayError)
    (t : Tracking) (hR : R p w v) :
    Agree (Agree (R p)) (t.restAfter env e w) (t.restAfter env' e v) := by
  rw [Tracking.restAfter, Tracking.restAfter]
  split
  · rcases t.backoff.failure with ⟨base, backoff⟩
    cases base with
    | none => exact ⟨rfl, rfl, hR⟩
    | some base =>
      obtain ⟨drawn, w₁, v₁, hw, hv, hR₁⟩ := (h.draw (Backoff.jitterLimit base) hp hR).exists
      simp only [hw, hv]
      exact ⟨rfl, rfl, hR₁⟩
  · exact ⟨rfl, rfl, hR⟩

/-! ## Steps -/

/-- How states are related when a stage is due, or when a monitor has halted. -/
def Due (R : Phase → σ → τ → Prop) (D : σ → τ → Prop) (next : Except Halt Stage) (w : σ) (v : τ) :
    Prop :=
  match next with
  | .ok .starting => R .starting w v
  | .ok .polling => R .starting w v ∨ R .polling w v ∧ D w v ∨ R .backoff w v
  | .ok (.resting _) => R .polling w v
  | .error (.failure _) => R .starting w v ∨ R .polling w v
  | .error .abandoned => R .starting w v ∨ R .polling w v ∨ R .backoff w v

theorem Due.of_ok {stage : Stage} (h : Due R D (.ok stage) w v) : ∃ p, R p w v := by
  cases stage with
  | starting => exact ⟨_, h⟩
  | polling =>
    rcases h with h | ⟨h, -⟩ | h
    · exact ⟨_, h⟩
    · exact ⟨_, h⟩
    · exact ⟨_, h⟩
  | resting delay => exact ⟨_, h⟩

/-- A monitor that has halted can stop, and if it has failed it can fail. -/
theorem Due.of_error {halt : Halt} (h : Due R D (.error halt) w v) :
    ∃ p, R p w v ∧ .stopping ∈ p.next ∧ ∀ e, halt = .failure e → .failed ∈ p.next := by
  cases halt with
  | failure e =>
    rcases h with h | h
    · exact ⟨.starting, h, by decide, fun _ _ => by decide⟩
    · exact ⟨.polling, h, by decide, fun _ _ => by decide⟩
  | abandoned =>
    rcases h with h | h | h
    · exact ⟨.starting, h, by decide, fun _ hc => by cases hc⟩
    · exact ⟨.polling, h, by decide, fun _ hc => by cases hc⟩
    · exact ⟨.backoff, h, by decide, fun _ hc => by cases hc⟩

/-- The same comes next, and the states are related as they are then. -/
def AgreeNext (R : Phase → σ → τ → Prop) (D : σ → τ → Prop) (x : Except Halt Stage × Tracking × σ)
    (y : Except Halt Stage × Tracking × τ) : Prop :=
  Agree (Agree (Due R D x.1)) x y

theorem waitThen (h : Simulation env env' R D) (hp : p ∈ [.starting, .backoff]) (delay : Nat)
    {next : Stage} (hnext : ∀ {w v}, R p w v → Due R D (.ok next) w v)
    (habandoned : ∀ {w v}, R p w v → Due R D (.error .abandoned) w v) (t : Tracking) (hR : R p w v) :
    AgreeNext R D (waitThen env delay next t w) (waitThen env' delay next t v) := by
  obtain ⟨whole, w₁, v₁, hw, hv, hR₁⟩ := (h.wait delay hp hR).exists
  simp only [Tracking.waitThen, hw, hv]
  cases whole with
  | false => exact ⟨rfl, rfl, habandoned hR₁⟩
  | true => exact ⟨rfl, rfl, hnext hR₁⟩

theorem startStep (h : Simulation env env' R D) (t : Tracking) (hR : R .starting w v) :
    AgreeNext R D (startStep env t w) (startStep env' t v) := by
  obtain ⟨r, ⟨t₁, w₁⟩, ⟨_, v₁⟩, hw, hv, rfl, hR₁⟩ :=
    (h.resolveTopics (p := .starting) (by decide) t hR).exists
  simp only [Tracking.startStep, hw, hv]
  cases r with
  | ok _ =>
    simp only
    split
    · exact h.waitThen (by decide) _ id Or.inl _ hR₁
    · exact ⟨rfl, rfl, Or.inl hR₁⟩
  | error halt =>
    cases halt with
    | abandoned => exact ⟨rfl, rfl, Or.inl hR₁⟩
    | failure e =>
      obtain ⟨r, ⟨t₂, w₂⟩, ⟨_, v₂⟩, hw, hv, rfl, hR₂⟩ :=
        (h.restAfter (p := .starting) (by decide) e t₁ hR₁).exists
      simp only [hw, hv]
      cases r with
      | error e => exact ⟨rfl, rfl, Or.inl hR₂⟩
      | ok delay => exact h.waitThen (by decide) _ id Or.inl _ hR₂

theorem pollStep (h : Simulation env env' R D) (t : Tracking) (hdue : Due R D (.ok .polling) w v) :
    AgreeNext R D (pollStep env t w) (pollStep env' t v) := by
  obtain ⟨p, hp, hR, hentered⟩ : ∃ p, .polling ∈ p.next ∧ R p w v
      ∧ R .polling (env.enter .polling w) (env'.enter .polling v) := by
    rcases hdue with hR | ⟨hR, hD⟩ | hR
    · exact ⟨.starting, by decide, hR, h.enter (by decide) (fun hc => by cases hc) hR⟩
    · exact ⟨.polling, by decide, hR, h.enter (by decide) (fun _ _ => hD) hR⟩
    · exact ⟨.backoff, by decide, hR, h.enter (by decide) (fun hc => by cases hc) hR⟩
  obtain ⟨r, ⟨t₁, w₁⟩, ⟨_, v₁⟩, hw, hv, rfl, hR₁⟩ := (h.pollCycle t hentered).exists
  simp only [Tracking.pollStep, hw, hv]
  cases r with
  | ok summary =>
    refine ⟨rfl, rfl, ?_⟩
    show Due R D (.ok (if summary.drain then _ else _)) w₁ v₁
    split
    · next hdrain => exact Or.inr (Or.inl ⟨hR₁, h.drain hp hR hw hv hdrain⟩)
    · exact hR₁
  | error halt =>
    cases halt with
    | abandoned => exact ⟨rfl, rfl, Or.inr (Or.inl hR₁)⟩
    | failure e =>
      obtain ⟨r, ⟨t₂, w₂⟩, ⟨_, v₂⟩, hw, hv, rfl, hR₂⟩ :=
        (h.restAfter (p := .polling) (by decide) e t₁ hR₁).exists
      simp only [hw, hv]
      cases r with
      | error e => exact ⟨rfl, rfl, Or.inr hR₂⟩
      | ok delay => exact ⟨rfl, rfl, hR₂⟩

theorem restStep (h : Simulation env env' R D) (delay : Nat) (t : Tracking) (hR : R .polling w v) :
    AgreeNext R D (restStep env delay t w) (restStep env' delay t v) := by
  have hlast : ∀ {w v}, R .backoff w v →
      R .starting w v ∨ R .polling w v ∨ R .backoff w v := fun hR => Or.inr (Or.inr hR)
  have hnext : ∀ {w v}, R .backoff w v → Due R D (.ok .polling) w v := fun hR => Or.inr (Or.inr hR)
  have hentered := h.enter (q := .backoff) (by decide) (fun _ hc => by cases hc) hR
  obtain ⟨r, ⟨t₁, w₁⟩, ⟨_, v₁⟩, hw, hv, rfl, hR₁⟩ :=
    (h.resolveTopics (p := .backoff) (by decide) t hentered).exists
  simp only [Tracking.restStep, hw, hv]
  rcases r with (_ | _) | _
  · exact h.waitThen (by decide) _ hnext hlast _ hR₁
  · exact ⟨rfl, rfl, hlast hR₁⟩
  · exact h.waitThen (by decide) _ hnext hlast _ hR₁

/-- **A step.** -/
theorem step (h : Simulation env env' R D) (stage : Stage) (t : Tracking)
    (hdue : Due R D (.ok stage) w v) : AgreeNext R D (step env stage t w) (step env' stage t v) := by
  cases stage with
  | starting => exact h.startStep t hdue
  | polling => exact h.pollStep t hdue
  | resting delay => exact h.restStep delay t hdue

end Tracking
end Simulation

/-! ## Runs that go on -/

namespace Tracking

/-- Takes up to `fuel` steps: what is due then, or how it ended before. -/
def goOn (env : Surroundings σ) : Nat → Stage → Tracking → σ → Except Halt Stage × Tracking × σ
  | 0, stage, t, w => (.ok stage, t, w)
  | fuel + 1, stage, t, w => match step env stage t w with
    | (.error h, t, w) => (.error h, t, w)
    | (.ok stage, t, w) => goOn env fuel stage t w

/-- Some steps, and then some more. -/
theorem goOn_add (env : Surroundings σ) (m n : Nat) (stage : Stage) (t : Tracking) (w : σ) :
    goOn env (m + n) stage t w = match goOn env m stage t w with
      | (.error halt, t, w) => (.error halt, t, w)
      | (.ok stage, t, w) => goOn env n stage t w := by
  induction m generalizing stage t w with
  | zero => rw [Nat.zero_add]; rfl
  | succ m ih =>
    rw [Nat.succ_add, goOn, goOn]
    rcases step env stage t w with ⟨halt | next, t₁, w₁⟩
    · rfl
    · exact ih next t₁ w₁

/-- Relaying gives what it ended with, if it has ended. -/
theorem relay_eq_goOn (env : Surroundings σ) (fuel : Nat) (stage : Stage) (t : Tracking) (w : σ) :
    relay env fuel stage t w = match goOn env fuel stage t w with
      | (.error h, t, w) => some (h, t, w)
      | (.ok _, _, _) => none := by
  induction fuel generalizing stage t w with
  | zero => rfl
  | succ fuel ih =>
    rw [relay, goOn]
    rcases step env stage t w with ⟨halt | next, t₁, w₁⟩
    · rfl
    · exact ih next t₁ w₁

end Tracking

/-- **Any number of steps.** -/
theorem Simulation.goOn {env : Surroundings σ} {env' : Surroundings τ} {R : Phase → σ → τ → Prop}
    {D : σ → τ → Prop} (h : Simulation env env' R D) (fuel : Nat) (stage : Stage) (t : Tracking)
    {w : σ} {v : τ} (hdue : Due R D (.ok stage) w v) :
    AgreeNext R D (t.goOn env fuel stage w) (t.goOn env' fuel stage v) := by
  induction fuel generalizing stage t w v with
  | zero => exact ⟨rfl, rfl, hdue⟩
  | succ fuel ih =>
    have hstep := h.step stage t hdue
    obtain ⟨r, ⟨t₁, w₁⟩, ⟨_, v₁⟩, hw, hv, rfl, hdue₁⟩ := hstep.exists
    rw [Tracking.goOn, Tracking.goOn, hw, hv]
    rw [hw] at hdue₁
    cases r with
    | error halt => exact ⟨rfl, rfl, hdue₁⟩
    | ok next => exact ih next t₁ hdue₁

end TopicRelay.Monitor
