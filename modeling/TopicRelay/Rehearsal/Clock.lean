/-
  Time that passes only while the monitor waits.

  Whoever holds the monitor can request a stop, and so can anyone who holds a stopper; when nobody
  is left who could, that counts as a stop as well.  A stop can also be set for a time, and its
  alarm is then someone who could request it.

  A wait ends at once when a stop is there.  When the time of a stop comes during a wait, or at its
  very end, the stop comes first.  A wait of no time at all is over before anybody looks, so no stop
  is noticed by it, except that after many of them in a row the monitor pauses for a look.
-/
namespace TopicRelay.Rehearsal

/-- The time in milliseconds, and who may stop the monitor. -/
structure Clock where
  now : Nat
  isStopRequested : Bool
  /-- When a stop will be requested. -/
  alarm : Option Nat
  /-- Whether somebody holds the monitor. -/
  hasOwner : Bool
  /-- Whether somebody holds a stopper. -/
  hasStopper : Bool
  /-- How many waits of no time may follow before the monitor pauses. -/
  patience : Nat
deriving DecidableEq, Repr

namespace Clock

/-- How many waits of no time may follow one another. -/
def maxPatience : Nat := 128

/-- A monitor that somebody holds, and that nothing will stop. -/
def new : Clock := ⟨0, false, none, true, false, maxPatience⟩

/-- Whether nobody is left who could request a stop. -/
def isDeserted (c : Clock) : Bool := !c.hasOwner && !c.hasStopper && c.alarm.isNone

/-- Whether the monitor would end if it looked. -/
def isOver (c : Clock) : Bool := c.isStopRequested || c.isDeserted

/-- Whoever holds the stopper requests a stop. -/
def useStopper (c : Clock) : Clock := if c.hasStopper then { c with isStopRequested := true } else c

/-- The stop that was set for a time is requested. -/
def ring (at' : Nat) (c : Clock) : Clock :=
  { c with now := max c.now at', isStopRequested := true, alarm := none }

/-- Lets time pass, with nobody looking for a stop. -/
def pass (delay : Nat) (c : Clock) : Clock := { c with now := c.now + delay }

/-- Waits for a time; false if a stop came first. -/
def wait (delay : Nat) (c : Clock) : Bool × Clock :=
  if delay = 0 ∧ 0 < c.patience then (true, { c with patience := c.patience - 1 })
  else if c.isOver then (false, c)
  else
    let rested := { c with patience := maxPatience - 1 }
    match c.alarm with
    | some time =>
      if time ≤ c.now + delay ∧ 0 < delay then (false, c.ring time) else (true, rested.pass delay)
    | none => (true, rested.pass delay)

/-- Waits for what never comes; only a stop can end that. -/
def waitForever (c : Clock) : Clock :=
  match c.alarm with
  | some time => if c.isOver then c else c.ring time
  | none => c

end Clock
end TopicRelay.Rehearsal
