/-
  What a monitor did, written down.

  Any surroundings can be put behind a recorder (`Surroundings.recorded`), which passes every call on
  and notes it with what came of it.  A monitor cannot tell the difference (`Surroundings.simulates`),
  so what the record shows is what the monitor does without it as well.

  A call to handle an element does not say which one it is: it is the next one of the last answer, and
  the recorder keeps those that are still to come.
-/
import TopicRelay.Proofs.Monitor.Intake
import TopicRelay.Proofs.Monitor.Simulation

namespace TopicRelay.Monitor

open Wire (ConsumeRequests TopicMessages)

/-- What a monitor calls, and what of the answer matters. -/
inductive Call where
  | resolve (keys : TopicKeys) (answer : Except Halt TopicMapping)
  | load (topic : TopicName) (subscriber : SubscriberName)
  | fetch (requests : ConsumeRequests)
  /-- The next element is about to be handled. -/
  | handle (e : Option TopicMessages)
  | publish (topic : TopicName) (payload : Bytes) (done : Bool)
  | commit (topic : TopicName) (subscriber : SubscriberName) (id : MessageId) (done : Bool)
  | draw (limit : Nat)
  | wait (delay : Nat)
  | shutdown (timeout : Nat)

/-- What can be seen of a monitor. -/
inductive Event where
  | entered (p : Phase)
  | called (c : Call)

/-- A world with the record of what was done in it. -/
structure Recorded (σ : Type) where
  world : σ
  /-- The elements of the last answer that are still to be handled. -/
  upcoming : List TopicMessages
  events : List Event

/-- Where something stands in a record that has become longer: at the end, or where it stood before. -/
theorem split_concat {α : Type} {es before after : List α} {x y : α}
    (h : es ++ [x] = before ++ y :: after) :
    (es = before ∧ x = y ∧ after = [])
      ∨ ∃ earlier, es = before ++ y :: earlier ∧ after = earlier ++ [x] := by
  rcases after.eq_nil_or_concat with rfl | ⟨earlier, z, rfl⟩
  · obtain ⟨hes, hlast⟩ := List.append_inj' h rfl
    exact Or.inl ⟨hes, List.head_eq_of_cons_eq hlast, rfl⟩
  · rw [List.concat_eq_append, ← List.cons_append, ← List.append_assoc] at h
    obtain ⟨hes, hlast⟩ := List.append_inj' h rfl
    refine Or.inr ⟨earlier, hes, ?_⟩
    rw [List.concat_eq_append, hlast]

namespace Recorded

variable {σ : Type}

/-- Nothing was done yet. -/
def begin (w : σ) : Recorded σ := ⟨w, [], []⟩

/-- Adds a call, which led to a new state of the world. -/
def note (r : Recorded σ) (c : Call) (w : σ) : Recorded σ :=
  { r with world := w, events := r.events ++ [.called c] }

@[simp] theorem events_note (r : Recorded σ) (c : Call) (w : σ) :
    (r.note c w).events = r.events ++ [.called c] := rfl

end Recorded

namespace Surroundings

variable {σ : Type} (env : Surroundings σ)

/-- The same surroundings, with a record. -/
def recorded : Surroundings (Recorded σ) where
  isStopRequested r := env.isStopRequested r.world
  isDeserted r := env.isDeserted r.world
  enter p r := { r with world := env.enter p r.world, events := r.events ++ [.entered p] }
  resolve keys r :=
    let (answer, w) := env.resolve keys r.world
    (answer, r.note (.resolve keys answer) w)
  fetch requests r :=
    let (delivery, w) := env.fetch requests r.world
    (delivery, { r.note (.fetch requests) w with upcoming := delivery.elements })
  arrive r :=
    { r.note (.handle r.upcoming.head?) (env.arrive r.world) with upcoming := r.upcoming.tail }
  shutdown timeout r := r.note (.shutdown timeout) (env.shutdown timeout r.world)
  publish topic payload r :=
    let (answer, w) := env.publish topic payload r.world
    (answer, r.note (.publish topic payload answer.isOk) w)
  offset topic subscriber r :=
    let (answer, w) := env.offset topic subscriber r.world
    (answer, r.note (.load topic subscriber) w)
  commit topic subscriber id r :=
    let (answer, w) := env.commit topic subscriber id r.world
    (answer, r.note (.commit topic subscriber id answer.isOk) w)
  draw limit r :=
    let (drawn, w) := env.draw limit r.world
    (drawn, r.note (.draw limit) w)
  wait delay r :=
    let (whole, w) := env.wait delay r.world
    (whole, r.note (.wait delay) w)

/-- **A record cannot be noticed.** -/
theorem simulates : Simulation env env.recorded (fun _ w r => r.world = w) fun _ _ => True where
  isStopRequested := by
    rintro w r rfl
    rfl
  enter := by
    rintro p q w r - - rfl
    rfl
  drain _ _ _ _ _ := trivial
  resolve := by
    rintro keys p w r - rfl
    exact ⟨rfl, rfl⟩
  offset := by
    rintro topic subscriber p w r - rfl
    exact ⟨rfl, rfl⟩
  wait := by
    rintro delay p w r - rfl
    exact ⟨rfl, rfl⟩
  draw := by
    rintro limit p w r - rfl
    exact ⟨rfl, rfl⟩
  fetch := by
    rintro requests w r rfl
    exact ⟨rfl, rfl⟩
  arrive := by
    rintro w r rfl
    rfl
  publish := by
    rintro topic payload w r rfl
    exact ⟨rfl, rfl⟩
  commit := by
    rintro topic subscriber id w r rfl
    exact ⟨rfl, rfl⟩

end Surroundings

/-! ## The elements of an answer -/

namespace Intake

variable {σ : Type} {env : Surroundings σ} {subscriber : SubscriberName} {i i' : Intake}
  {r r' : Recorded σ} {x : Except RelayError Unit}

theorem upcoming_accept {e : TopicMessages}
    (h : accept env.recorded subscriber e i r = (x, i', r')) : r'.upcoming = r.upcoming := by
  refine accept_keeps (P := fun s => s.upcoming = r.upcoming) ?_ ?_ rfl h
  · rintro topic payload s y s' hs ⟨⟩
    exact hs
  · rintro topic id s y s' hs ⟨⟩
    exact hs

/-- **What every element keeps, an answer keeps**, where each element is the one that is expected. -/
theorem acceptAll_recorded {P : Intake → Recorded σ → Prop}
    (haccept : ∀ {e i r x i' r'}, r.upcoming.head? = some e → P i r →
      accept env.recorded subscriber e i (env.recorded.arrive r) = (x, i', r') → P i' r')
    {es : List TopicMessages} (hnext : r.upcoming = es) (hstart : P i r)
    (h : acceptAll env.recorded subscriber es i r = (x, i', r')) : P i' r' := by
  induction es generalizing i r with
  | nil =>
    rw [acceptAll] at h
    cases h
    exact hstart
  | cons e es ih =>
    have hhead : r.upcoming.head? = some e := by
      rw [hnext]
      rfl
    rw [acceptAll] at h
    split at h
    · next hone =>
      cases h
      exact haccept hhead hstart hone
    · next hone =>
      refine ih ?_ (haccept hhead hstart hone) h
      rw [upcoming_accept hone]
      show r.upcoming.tail = es
      rw [hnext]
      rfl

end Intake
end TopicRelay.Monitor
