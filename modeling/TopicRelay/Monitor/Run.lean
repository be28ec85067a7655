/-
  The life of a monitor.

      STARTING -> POLLING <-> BACKOFF      STOPPING -> STOPPED
      any of the three -> STOPPING         STARTING, POLLING -> FAILED

  A monitor is starting until a key is resolved.  Then it polls: at once again when there is
  probably more, and else after a rest, at the beginning of which it asks again for the keys that
  are unresolved.  An error that can pass is followed by a rest too, which gets longer with each
  error in a row; any other error, and too many in a row, end it.

  A stop ends it whenever it waits.  A stop that was requested while it failed counts as a stop as
  well: its owner asked for an end, and that is what there is.

  One `step` is one attempt to resolve, one cycle, or one rest.
-/
import TopicRelay.Monitor.PollCycle

namespace TopicRelay.Monitor

/-- What is due next. -/
inductive Stage where
  /-- To resolve a first key. -/
  | starting
  /-- To fetch. -/
  | polling
  /-- To rest, for a time in milliseconds. -/
  | resting (delay : Nat)
deriving DecidableEq, Repr

namespace Tracking

variable {σ : Type}

/-! ## Failures in a row -/

/-- There was a success. -/
def succeeded (t : Tracking) : Tracking := { t with backoff := t.backoff.reset }

/-- How long to rest after a failure, or the error to end with. -/
def restAfter (env : Surroundings σ) (e : RelayError) (t : Tracking) (w : σ) :
    Except RelayError Nat × Tracking × σ :=
  if e.isRetryable then
    let (base, backoff) := t.backoff.failure
    let t := { t with backoff := backoff }
    match base with
    | none => (.error (.tooManyFailures backoff.failures e.message), t, w)
    | some base =>
      let (drawn, w) := env.draw (Backoff.jitterLimit base) w
      (.ok (Backoff.withJitter (fun _ => drawn) base), t, w)
  else (.error e, t, w)

/-! ## Steps -/

/-- Waits, and then goes on with a stage. -/
def waitThen (env : Surroundings σ) (delay : Nat) (next : Stage) (t : Tracking) (w : σ) :
    Except Halt Stage × Tracking × σ :=
  match env.wait delay w with
  | (false, w) => (.error .abandoned, t, w)
  | (true, w) => (.ok next, t, w)

/-- Tries to resolve a first key. -/
def startStep (env : Surroundings σ) (t : Tracking) (w : σ) : Except Halt Stage × Tracking × σ :=
  match t.resolveTopics env w with
  | (.error .abandoned, t, w) => (.error .abandoned, t, w)
  | (.ok _, t, w) =>
    if t.resolved.isEmpty then waitThen env t.settings.pollInterval.toNat .starting t w
    else (.ok .polling, t.succeeded, w)
  | (.error (.failure e), t, w) => match t.restAfter env e w with
    | (.error e, t, w) => (.error (.failure e), t, w)
    | (.ok delay, t, w) => waitThen env delay .starting t w

/-- Fetches once. -/
def pollStep (env : Surroundings σ) (t : Tracking) (w : σ) : Except Halt Stage × Tracking × σ :=
  match t.pollCycle env (env.enter .polling w) with
  | (.error .abandoned, t, w) => (.error .abandoned, t, w)
  | (.ok summary, t, w) =>
    (.ok (if summary.drain then .polling else .resting t.settings.pollInterval.toNat), t.succeeded, w)
  | (.error (.failure e), t, w) => match t.restAfter env e w with
    | (.error e, t, w) => (.error (.failure e), t, w)
    | (.ok delay, t, w) => (.ok (.resting delay), t, w)

/-- Asks for the keys that are unresolved, whatever comes of that, and rests. -/
def restStep (env : Surroundings σ) (delay : Nat) (t : Tracking) (w : σ) :
    Except Halt Stage × Tracking × σ :=
  match t.resolveTopics env (env.enter .backoff w) with
  | (.error .abandoned, t, w) => (.error .abandoned, t, w)
  | (_, t, w) => waitThen env delay .polling t w

/-- Does what is due. -/
def step (env : Surroundings σ) : Stage → Tracking → σ → Except Halt Stage × Tracking × σ
  | .starting => startStep env
  | .polling => pollStep env
  | .resting delay => restStep env delay

/-- Takes up to `fuel` steps: how it ended, if it did. -/
def relay (env : Surroundings σ) : Nat → Stage → Tracking → σ → Option (Halt × Tracking × σ)
  | 0, _, _, _ => none
  | fuel + 1, stage, t, w => match step env stage t w with
    | (.error h, t, w) => some (h, t, w)
    | (.ok stage, t, w) => relay env fuel stage t w

/-! ## Beginning and end -/

/-- Why a monitor cannot start. -/
def obstacle? (t : Tracking) : Option RelayError :=
  match t.settings.problem? with
  | some reason => some (.invalidSettings reason)
  | none =>
    if t.unresolved.isEmpty && t.resolved.isEmpty then some (.internal "No topics are configured")
    else none

/-- The error to fail with, unless this is a stop. -/
def failure? (env : Surroundings σ) (h : Halt) (w : σ) : Option RelayError :=
  match h with
  | .abandoned => none
  | .failure .stopped => none
  | .failure e => if env.isStopRequested w then none else some e

/-- Ends a run. -/
def finish (env : Surroundings σ) (shutdownTimeout : Nat) (h : Halt) (w : σ) : Outcome × σ :=
  match failure? env h w with
  | some e => (.failed e, env.enter .failed w)
  | none => (.stopped, env.enter .stopped (env.shutdown shutdownTimeout (env.enter .stopping w)))

/-- How long a shutdown may take unless another time is given. -/
def defaultShutdownTimeout : Nat := 5000

/-- Runs a monitor until it ends; nothing if it has not ended after `fuel` steps. -/
def run (env : Surroundings σ) (shutdownTimeout fuel : Nat) (t : Tracking) (w : σ) :
    Option (Outcome × Tracking × σ) :=
  if env.isStopRequested w || env.isDeserted w then
    let (outcome, w) := finish env shutdownTimeout .abandoned w
    some (outcome, t, w)
  else
    let w := env.enter .starting w
    match t.obstacle? with
    | some e =>
      let (outcome, w) := finish env shutdownTimeout (.failure e) w
      some (outcome, t, w)
    | none => (relay env fuel .starting t w).map fun (h, t, w) =>
      let (outcome, w) := finish env shutdownTimeout h w
      (outcome, t, w)

end Tracking
end TopicRelay.Monitor
