/-
  Shutting down the program beside the endpoint, once.
-/
namespace TopicRelay.Endpoint

/-- Whether the shutdown was triggered, and how often its action was started. -/
structure ShutdownTrigger where
  triggered : Bool
  runs : Nat
deriving DecidableEq, Repr

namespace ShutdownTrigger

/-- A shutdown that nobody has asked for. -/
def new : ShutdownTrigger := ⟨false, 0⟩

/-- Asks for the shutdown.  Only the first time has an effect, and is told so. -/
def trigger (t : ShutdownTrigger) : Bool × ShutdownTrigger :=
  if t.triggered then (false, t) else (true, ⟨true, t.runs + 1⟩)

/-- However often it is asked for, the action is started at most once. -/
theorem runs_trigger {t : ShutdownTrigger} (h : t.runs = if t.triggered then 1 else 0) :
    t.trigger.2.runs = 1 := by
  unfold trigger
  split <;> simp_all

end ShutdownTrigger
end TopicRelay.Endpoint
