/-
  From keys to topics, on the side that has the topics.

  Only the endpoint knows which topic of its log a key stands for.  A key whose configured name is
  blank counts as not configured: the name may not have been set yet.
-/
import TopicRelay.Text.Blank
import TopicRelay.Wire.Reply

namespace TopicRelay.Endpoint

/-- The configured topic names by key. -/
structure Resolver where
  configured : TopicMapping

namespace Resolver

/-- The topic that a key stands for. -/
def resolve? (r : Resolver) (key : TopicKey) : Option TopicName :=
  (r.configured.get? key).filter fun name => !Text.isBlankText name

/-- The topics of those keys that stand for one. -/
def resolveAll (r : Resolver) (keys : TopicKeys) : TopicMapping :=
  keys.filterMap fun key _ => r.resolve? key

/-- The names of all topics that a key stands for, in the order of their keys. -/
def topicNames (r : Resolver) : List TopicName :=
  r.configured.values.filter fun name => !Text.isBlankText name

end Resolver
end TopicRelay.Endpoint
