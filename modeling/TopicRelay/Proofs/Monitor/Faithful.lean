/-
  A world that can fail, but does not lie.

  What a relay achieves depends on what is around it.  `Faithful` says what can be relied on, and
  nothing in it says that anything succeeds:

    remote     its logs only grow, at their ends, and their ids ascend; it names one topic for a key,
               if it names any, and of each topic it delivers what follows the id it was asked for,
               in order, as far as it gets
    this side  what was published is there, an offset that was loaded is the one that is stored, and
               a commit that failed has changed nothing

  A call may fail at any time, an answer may end after any of its elements, and while anything is
  going on both sides may get more messages (`View.Idle`).

  A `Run` is any sequence of what a monitor does in such a world (it resolves, it polls, it is
  replaced by a new one with the same settings) and of time that passes.
-/
import Mathlib.Logic.Relation
import TopicRelay.Monitor.PollCycle
import TopicRelay.Proofs.Log.Order
import TopicRelay.Proofs.Wire.Answers

namespace TopicRelay.Monitor

open Wire (Answers)

variable {σ : Type}

/-! ## What is seen from outside -/

/-- How to look into the state of a world: at the logs of the remote, at the payloads in the logs of
    this side, and at the stored offsets. -/
structure View (σ : Type) where
  remote : σ → TopicName → List Message
  own : σ → TopicName → List Bytes
  offset : σ → TopicName → SubscriberName → Option MessageId

/-- Nothing was committed between two states, and nothing was taken away from a log. -/
structure View.Idle (v : View σ) (w w' : σ) : Prop where
  remote : ∀ topic, v.remote w topic <+: v.remote w' topic
  own : ∀ topic, v.own w topic <+: v.own w' topic
  offset : ∀ topic subscriber, v.offset w' topic subscriber = v.offset w topic subscriber

theorem View.Idle.refl (v : View σ) (w : σ) : v.Idle w w :=
  ⟨fun _ => List.prefix_refl _, fun _ => List.prefix_refl _, fun _ _ => rfl⟩

theorem View.Idle.trans {v : View σ} {w w' w'' : σ} (h : v.Idle w w') (h' : v.Idle w' w'') :
    v.Idle w w'' :=
  ⟨fun t => (h.remote t).trans (h'.remote t), fun t => (h.own t).trans (h'.own t),
    fun t s => (h'.offset t s).trans (h.offset t s)⟩

/-! ## What can be relied on -/

/-- A world in which everything may fail, but nothing that succeeds is wrong. -/
structure Faithful (env : Surroundings σ) (v : View σ) (topicOf : TopicKey → Option TopicName) :
    Prop where
  ascending : ∀ w topic, Log.Ascending (v.remote w topic)
  resolve : ∀ keys w, v.Idle w (env.resolve keys w).2
  resolved : ∀ {keys w mapping w'}, env.resolve keys w = (.ok mapping, w') →
    ∀ {key topic}, keys.contains key = true → mapping.get? key = some topic →
      topicOf key = some topic
  fetch : ∀ requests w, v.Idle w (env.fetch requests w).2
  fetched : ∀ {requests w delivery w'}, env.fetch requests w = (delivery, w') →
    Answers requests topicOf (v.remote w') delivery.elements
  arrive : ∀ w, v.Idle w (env.arrive w)
  load : ∀ topic subscriber w, v.Idle w (env.offset topic subscriber w).2
  loaded : ∀ {topic subscriber w last w'}, env.offset topic subscriber w = (.ok last, w') →
    last = v.offset w' topic subscriber
  publish : ∀ topic payload w, v.Idle w (env.publish topic payload w).2
  published : ∀ {topic payload w id w'}, env.publish topic payload w = (.ok id, w') →
    v.own w' topic = v.own w topic ++ [payload]
  refused : ∀ {topic subscriber id w e w'}, env.commit topic subscriber id w = (.error e, w') →
    v.Idle w w'
  committed : ∀ {topic subscriber id w w'}, env.commit topic subscriber id w = (.ok (), w') →
    (∀ t, v.remote w t <+: v.remote w' t) ∧ (∀ t, v.own w t <+: v.own w' t)
    ∧ v.offset w' topic subscriber = some id
    ∧ ∀ t s, (t ≠ topic ∨ s ≠ subscriber) → v.offset w' t s = v.offset w t s

/-! ## Runs -/

/-- What can happen next to a monitor and its world. -/
inductive Step (env : Surroundings σ) (v : View σ) : Tracking × σ → Tracking × σ → Prop where
  /-- It asks for the topics of its unresolved keys. -/
  | resolve (t : Tracking) (w : σ) : Step env v (t, w) (t.resolveTopics env w).2
  /-- It fetches once and relays what comes back. -/
  | cycle (t : Tracking) (w : σ) : Step env v (t, w) (t.pollCycle env w).2
  /-- It is given up, and a new one begins on the same stores. -/
  | restart (t : Tracking) (w : σ) : Step env v (t, w) (.new t.settings, w)
  /-- Time passes. -/
  | pass (t : Tracking) {w w' : σ} (h : v.Idle w w') : Step env v (t, w) (t, w')

theorem Step.of_resolveTopics {env : Surroundings σ} {v : View σ} {t t' : Tracking} {w w' : σ}
    {r : Except Halt Nat} (h : t.resolveTopics env w = (r, t', w')) : Step env v (t, w) (t', w') := by
  have hstep : Step env v (t, w) (t.resolveTopics env w).2 := .resolve t w
  rw [h] at hstep
  exact hstep

theorem Step.of_pollCycle {env : Surroundings σ} {v : View σ} {t t' : Tracking} {w w' : σ}
    {r : Except Halt CycleSummary} (h : t.pollCycle env w = (r, t', w')) :
    Step env v (t, w) (t', w') := by
  have hstep : Step env v (t, w) (t.pollCycle env w).2 := .cycle t w
  rw [h] at hstep
  exact hstep

/-- Any number of steps. -/
def Run (env : Surroundings σ) (v : View σ) : Tracking × σ → Tracking × σ → Prop :=
  Relation.ReflTransGen (Step env v)

/-! ### Runs that can be followed -/

/-- What a monitor does of its own accord. -/
inductive Deed where
  | resolve
  | cycle
  | restart
deriving DecidableEq, Repr

/-- Does it. -/
def Deed.perform (env : Surroundings σ) (x : Tracking × σ) : Deed → Tracking × σ
  | .resolve => (x.1.resolveTopics env x.2).2
  | .cycle => (x.1.pollCycle env x.2).2
  | .restart => (.new x.1.settings, x.2)

/-- One thing after the other. -/
def Deed.performAll (env : Surroundings σ) (x : Tracking × σ) (deeds : List Deed) : Tracking × σ :=
  deeds.foldl (Deed.perform env) x

theorem Deed.run_performAll (env : Surroundings σ) (v : View σ) (x : Tracking × σ)
    (deeds : List Deed) : Run env v x (Deed.performAll env x deeds) := by
  induction deeds generalizing x with
  | nil => exact .refl
  | cons deed deeds ih =>
    have hstep : Step env v x (deed.perform env x) := by
      cases deed with
      | resolve => exact .resolve x.1 x.2
      | cycle => exact .cycle x.1 x.2
      | restart => exact .restart x.1 x.2
    exact (Relation.ReflTransGen.single hstep).trans (ih _)

end TopicRelay.Monitor
