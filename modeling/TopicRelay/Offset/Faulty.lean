/-
  Offsets that fail on schedule.

  To see what a relay does when its offsets cannot be loaded or committed, offsets in memory are
  wrapped with the numbers of the calls that fail.  A commit that fails changes nothing.
-/
import TopicRelay.Offset.Memory
import TopicRelay.Text.Numeral

namespace TopicRelay

/-- Offsets in memory with the faults that their users meet. -/
structure FaultyOffsets where
  offsets : MemoryOffsets
  /-- The numbers, from one, of the loads that fail. -/
  brokenLoads : List Nat
  /-- The numbers, from one, of the commits that fail. -/
  brokenCommits : List Nat
  /-- How many loads were tried so far. -/
  loads : Nat
  /-- How many commits were tried so far. -/
  commits : Nat

namespace FaultyOffsets

/-- Offsets without faults. -/
def sound (offsets : MemoryOffsets) : FaultyOffsets := ⟨offsets, [], [], 0, 0⟩

/-- The reason that is given for the failure of the call with a number. -/
def reason (call : String) (n : Nat) : String := call ++ " " ++ Text.Numeral.text n ++ " failed"

/-- The last committed id. -/
def get (o : FaultyOffsets) (topic : TopicName) (subscriber : SubscriberName) :
    Except OffsetError (Option MessageId) × FaultyOffsets :=
  let n := o.loads + 1
  let result :=
    if o.brokenLoads.contains n then .error (.unreadable topic subscriber (reason "get" n))
    else .ok (o.offsets.get topic subscriber)
  (result, { o with loads := n })

/-- Commits an id at the time `now`. -/
def put (o : FaultyOffsets) (now : UInt64) (topic : TopicName) (subscriber : SubscriberName)
    (id : MessageId) : Except OffsetError Unit × FaultyOffsets :=
  let n := o.commits + 1
  let counted := { o with commits := n }
  if o.brokenCommits.contains n then (.error (.failure (reason "put" n)), counted)
  else (.ok (), { counted with offsets := o.offsets.put now topic subscriber id })

end FaultyOffsets
end TopicRelay
