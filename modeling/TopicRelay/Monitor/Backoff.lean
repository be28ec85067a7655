/-
  Waiting longer after each failure in a row.

  The first failure is followed by a short wait, each further one by twice the wait before it, up to
  a limit; a random part of up to a tenth is added, so that many monitors do not come back at the
  same time.  After too many failures in a row there is nothing to wait for any more.
-/
namespace TopicRelay.Monitor

/-- The failures in a row, and what follows from them.  Times are in milliseconds. -/
structure Backoff where
  /-- The wait after the first failure. -/
  initial : Nat
  /-- The longest wait; it is never shorter than the first. -/
  longest : Nat
  /-- How many failures in a row are put up with. -/
  tolerated : UInt32
  failures : UInt32
deriving DecidableEq, Repr

namespace Backoff

/-- No failure yet.  A limit below the first wait is raised to it. -/
def new (initial maximum : UInt64) (tolerated : UInt32) : Backoff :=
  ⟨initial.toNat, max maximum.toNat initial.toNat, tolerated, 0⟩

/-- The longest time that can be measured: one second less than 2⁶⁴ seconds, and nearly one more. -/
def longestTime : Nat := 0xFFFFFFFFFFFFFFFF * 1000 + 999

/-- How often the first wait is doubled at most. -/
def maxDoublings : Nat := 31

/-- The wait after a number of failures in a row, without its random part.  A wait that is too long
    to be measured is cut to the longest. -/
def baseDelay (b : Backoff) (failures : UInt32) : Nat :=
  let delay := b.initial <<< min (failures.toNat - 1) maxDoublings
  if delay ≤ longestTime then min delay b.longest else b.longest

/-- The number of failures after one more; it stays at the largest number there is. -/
def countFailure (b : Backoff) : UInt32 :=
  if b.failures = 0xFFFFFFFF then b.failures else b.failures + 1

/-- One more failure: the wait without its random part, unless there were too many. -/
def failure (b : Backoff) : Option Nat × Backoff :=
  let b := { b with failures := b.countFailure }
  (if b.tolerated < b.failures then none else some (b.baseDelay b.failures), b)

/-- The largest random part that is added to a wait. -/
def jitterLimit (base : Nat) : Nat := base / 10

/-- A wait with its random part, which is drawn from 0 up to the limit. -/
def withJitter (draw : Nat → Nat) (base : Nat) : Nat :=
  base + min (draw (jitterLimit base)) (jitterLimit base)

/-- There was a success. -/
def reset (b : Backoff) : Backoff := { b with failures := 0 }

example : (Backoff.new 100 1000 10).baseDelay 4 = 800
    ∧ (Backoff.new 100 1000 10).baseDelay 64 = 1000 := by decide

end Backoff
end TopicRelay.Monitor
