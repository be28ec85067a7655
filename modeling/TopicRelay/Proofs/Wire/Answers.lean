/-
  What the elements of an answer hold for a key.

  A topic may be spread over several elements, with elements of other topics between them.  All that
  counts for a key is the messages of its elements in order (`messagesOf`), and of those an answer
  that came to an early end has the first ones (`Answers.take`).
-/
import TopicRelay.Log.Memory
import TopicRelay.Wire.ConsumeRequest

namespace TopicRelay.Wire

/-! ## The messages of a key -/

/-- The messages of a key in some elements, in order. -/
def messagesOf (key : TopicKey) (es : List TopicMessages) : List Message :=
  (es.filter fun e => e.topic == key).flatMap (·.messages)

theorem messagesOf_cons_self (e : TopicMessages) (es : List TopicMessages) :
    messagesOf e.topic (e :: es) = e.messages ++ messagesOf e.topic es := by
  have h : (e.topic == e.topic) = true := beq_self_eq_true e.topic
  simp only [messagesOf, List.filter_cons, h, if_true, List.flatMap_cons]

theorem messagesOf_cons_ne {key : TopicKey} {e : TopicMessages} (h : e.topic ≠ key)
    (es : List TopicMessages) : messagesOf key (e :: es) = messagesOf key es := by
  have hne : (e.topic == key) = false := beq_false_of_ne h
  simp only [messagesOf, List.filter_cons, hne, Bool.false_eq_true, if_false]

theorem messagesOf_append (key : TopicKey) (a b : List TopicMessages) :
    messagesOf key (a ++ b) = messagesOf key a ++ messagesOf key b := by
  rw [messagesOf, List.filter_append, List.flatMap_append]; rfl

/-- Elements of other keys hold nothing. -/
theorem messagesOf_eq_nil {key : TopicKey} {es : List TopicMessages}
    (h : ∀ e ∈ es, e.topic ≠ key) : messagesOf key es = [] := by
  induction es with
  | nil => rfl
  | cons e es ih =>
    rw [messagesOf_cons_ne (h e List.mem_cons_self)]
    exact ih fun x hx => h x (List.mem_cons_of_mem _ hx)

/-- Elements of a key hold all their messages. -/
theorem messagesOf_eq_flatMap {key : TopicKey} {es : List TopicMessages}
    (h : ∀ e ∈ es, e.topic = key) : messagesOf key es = es.flatMap (·.messages) := by
  rw [messagesOf, List.filter_eq_self.mpr fun e he => beq_iff_eq.mpr (h e he)]

/-! ## Answers -/

/-- The elements that an endpoint gives for some requests, as far as they came: those of a key hold
    what its topic has after the requested id, without a gap, and an element with an error holds
    nothing. -/
structure Answers (requests : ConsumeRequests) (topicOf : TopicKey → Option TopicName)
    (remote : TopicName → List Message) (es : List TopicMessages) : Prop where
  errors : ∀ e ∈ es, e.error.isSome = true → e.messages = []
  messages : ∀ {key r topic}, requests.get? key = some r → topicOf key = some topic →
    messagesOf key es <+: MemoryLog.following r.lastMessageId (remote topic)

namespace Answers

variable {requests : ConsumeRequests} {topicOf : TopicKey → Option TopicName}
  {remote : TopicName → List Message} {es : List TopicMessages}

/-- The first elements of an answer are an answer. -/
theorem take (h : Answers requests topicOf remote es) (n : Nat) :
    Answers requests topicOf remote (es.take n) := by
  refine ⟨fun e he => h.errors e (List.mem_of_mem_take he), fun hr ht => ?_⟩
  refine List.IsPrefix.trans ?_ (h.messages hr ht)
  conv => rhs; rw [← List.take_append_drop n es, messagesOf_append]
  exact List.prefix_append _ _

end Answers
end TopicRelay.Wire
