/-
  What a monitor has around it.

  A monitor asks a remote for messages, publishes them to a log and commits offsets; between that it
  waits.  `Surroundings` is everything it uses for this, as functions on a state of a type that the
  monitor knows nothing about.  So what is said of a monitor holds wherever it runs: with a remote
  over a network, with one in memory, or with one that misbehaves in any way at all.

  A request to stop can come whenever the monitor waits.  What it was waiting for is then abandoned,
  which is something else than a failure: `Halt` keeps the two apart.
-/
import TopicRelay.Log.Basic
import TopicRelay.Monitor.RelayError
import TopicRelay.Offset.Basic
import TopicRelay.Wire.ConsumeRequest

namespace TopicRelay.Monitor

open Wire (ConsumeRequests TopicMessages)

/-! ## What a monitor is doing -/

/-- The phases in the life of a monitor. -/
inductive Phase where
  /-- No key has been resolved yet. -/
  | starting
  /-- Messages are being fetched. -/
  | polling
  /-- Nothing is due for a while. -/
  | backoff
  /-- A stop was requested, and the remote is told to shut down. -/
  | stopping
  | stopped
  | failed
deriving DecidableEq, Repr

/-- The name of a phase. -/
def Phase.name : Phase → String
  | .starting => "STARTING"
  | .polling => "POLLING"
  | .backoff => "BACKOFF"
  | .stopping => "STOPPING"
  | .stopped => "STOPPED"
  | .failed => "FAILED"

/-- How a monitor ended.  One that failed did not tell the remote to shut down. -/
inductive Outcome where
  | stopped
  | failed (e : RelayError)
deriving DecidableEq, Repr

/-- Why something did not come to its end. -/
inductive Halt where
  /-- It failed. -/
  | failure (e : RelayError)
  /-- A stop came while the monitor was waiting for it. -/
  | abandoned
deriving DecidableEq, Repr

/-! ## What it uses -/

/-- The answer to a fetch: its elements in the order in which they come, and how it ends. -/
structure Delivery where
  elements : List TopicMessages
  ending : Except Halt Unit

/-- What a monitor relies on, where `σ` is the state of it all. -/
structure Surroundings (σ : Type) where
  /-- Whether a stop was requested. -/
  isStopRequested : σ → Bool
  /-- Whether nobody is left who could request one. -/
  isDeserted : σ → Bool
  /-- Takes note of the phase that the monitor enters. -/
  enter : Phase → σ → σ
  /-- Asks the remote for the topics of some keys. -/
  resolve : TopicKeys → σ → Except Halt TopicMapping × σ
  /-- Asks the remote for messages. -/
  fetch : ConsumeRequests → σ → Delivery × σ
  /-- Takes note that the next element of an answer is about to be handled. -/
  arrive : σ → σ
  /-- Asks the remote to shut down, and waits for that at most for a time in milliseconds.  Nothing
      depends on the reply. -/
  shutdown : Nat → σ → σ
  /-- Publishes a message to the log of this side. -/
  publish : TopicName → Bytes → σ → Except LogError MessageId × σ
  /-- The last committed id of a topic and subscriber. -/
  offset : TopicName → SubscriberName → σ → Except OffsetError (Option MessageId) × σ
  /-- Commits an id for a topic and subscriber. -/
  commit : TopicName → SubscriberName → MessageId → σ → Except OffsetError Unit × σ
  /-- Draws a number from zero up to a limit. -/
  draw : Nat → σ → Nat × σ
  /-- Waits for a time in milliseconds; false if a stop came before the time was over. -/
  wait : Nat → σ → Bool × σ

end TopicRelay.Monitor
