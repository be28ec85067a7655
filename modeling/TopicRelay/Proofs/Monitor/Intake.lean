/-
  What handling elements comes to.

  Two views of the same code:

    whatever happens   an element does one of a few things (`Intake.accept_cases`), so the keys that are
                       resolved stay the same, with the same topics (`Intake.acceptAll_topics`)
    while all is well  an element does to its key exactly what it should, and nothing to the others
                       (`Intake.accept_of_works`)

  `Works` says what "all is well" means to the stores of this side.  It counts down the publications
  that will succeed, so it is of use also where one fails later.
-/
import TopicRelay.Proofs.Monitor.Faithful
import TopicRelay.Proofs.SortedMap

namespace TopicRelay.Monitor

open Wire (TopicMessages)

variable {σ : Type} {env : Surroundings σ} {v : View σ} {topicOf : TopicKey → Option TopicName}
  {subscriber : SubscriberName}

namespace Intake

/-! ## What an element can do -/

variable {p : TopicProgress} {e : TopicMessages} {i i' : Intake} {w w' : σ} {r : Except RelayError Unit}

/-- **What the commit of an element can do.** -/
theorem commitLast_cases (h : commitLast env subscriber p e i w = (r, i', w')) :
    ((∀ id, e.lastMessageId? = some id → p.lastMessageId = some id) ∧ r = .ok () ∧ i' = i ∧ w' = w)
    ∨ ∃ id, e.lastMessageId? = some id ∧ p.lastMessageId ≠ some id
      ∧ ((∃ x, env.commit p.remoteTopic subscriber id w = (.error x, w')
          ∧ r = .error (.store x.message) ∧ i' = i)
        ∨ (env.commit p.remoteTopic subscriber id w = (.ok (), w') ∧ r = .ok ()
          ∧ i' = i.advance e.topic p id)) := by
  rw [commitLast] at h
  split at h
  · next hlast =>
    cases h
    refine Or.inl ⟨?_, rfl, rfl, rfl⟩
    intro id hid
    rw [hlast] at hid
    cases hid
  · next id hlast =>
    split at h
    · next hdone =>
      cases h
      refine Or.inl ⟨?_, rfl, rfl, rfl⟩
      intro id' hid
      rw [hlast] at hid
      rw [hdone, hid]
    · next hnew =>
      refine Or.inr ⟨id, hlast, hnew, ?_⟩
      split at h
      · next x w₁ hcommit =>
        cases h
        exact Or.inl ⟨x, hcommit, rfl, rfl⟩
      · next w₁ hcommit =>
        cases h
        exact Or.inr ⟨hcommit, rfl, rfl⟩

/-- **What relaying an element can do**: nothing is committed before all is published. -/
theorem relay_cases (h : relay env subscriber p e i w = (r, i', w')) :
    (∃ x, publishAll env p.localTopic e.messages w = (.error x, w') ∧ r = .error x ∧ i' = i)
    ∨ ∃ i₁ w₁, publishAll env p.localTopic e.messages w = (.ok (), w₁)
      ∧ commitLast env subscriber p e i w₁ = (r, i₁, w') ∧ i'.resolved = i₁.resolved
      ∧ (i'.received = i₁.received
        ∨ i'.received = (i₁.count e.topic e.messages.length).received) := by
  rw [relay] at h
  split at h
  · next x w₁ hpublish =>
    cases h
    exact Or.inl ⟨x, hpublish, rfl, rfl⟩
  · next w₁ hpublish =>
    refine Or.inr ?_
    split at h
    · next hcommit =>
      cases h
      exact ⟨_, w₁, hpublish, hcommit, rfl, Or.inl rfl⟩
    · next i₁ w₂ hcommit =>
      cases h
      exact ⟨i₁, w₁, hpublish, hcommit, rfl, Or.inr rfl⟩

theorem resolved_note (i : Intake) (e : TopicMessages) : (i.note e).resolved = i.resolved := by
  rw [note]
  split <;> rfl

/-- **What an element can do**: end the answer, report an error, or be relayed. -/
theorem accept_cases (h : accept env subscriber e i w = (r, i', w')) :
    ((∃ x, r = .error x) ∧ i' = i ∧ w' = w)
    ∨ ∃ p, i.resolved.get? e.topic = some p
      ∧ ((e.error.isSome = true ∧ r = .ok () ∧ i' = i.note e ∧ w' = w)
        ∨ (e.error = none ∧ relay env subscriber p e i w = (r, i', w'))) := by
  rw [accept] at h
  split at h
  · cases h
    exact Or.inl ⟨⟨_, rfl⟩, rfl, rfl⟩
  · split at h
    · cases h
      exact Or.inl ⟨⟨_, rfl⟩, rfl, rfl⟩
    · next p hp =>
      refine Or.inr ⟨p, hp, ?_⟩
      split at h
      · next herror =>
        cases h
        exact Or.inl ⟨herror, rfl, rfl, rfl⟩
      · next herror => exact Or.inr ⟨Option.not_isSome_iff_eq_none.mp herror, h⟩

/-- **What every element keeps, an answer keeps.** -/
theorem acceptAll_keeps {P : Intake → σ → Prop} {es : List TopicMessages}
    (harrive : ∀ i w, P i w → P i (env.arrive w))
    (haccept : ∀ e ∈ es, ∀ i w r i' w', P i w → accept env subscriber e i w = (r, i', w') → P i' w')
    (hstart : P i w) (h : acceptAll env subscriber es i w = (r, i', w')) : P i' w' := by
  induction es generalizing i w with
  | nil =>
    rw [acceptAll] at h
    cases h
    exact hstart
  | cons e es ih =>
    have hfirst := haccept e List.mem_cons_self i (env.arrive w)
    rw [acceptAll] at h
    split at h
    · next hone =>
      cases h
      exact hfirst _ _ _ (harrive i w hstart) hone
    · next hone =>
      exact ih (fun e' he' => haccept e' (List.mem_cons_of_mem _ he'))
        (hfirst _ _ _ (harrive i w hstart) hone) h

theorem publishAll_keeps {P : σ → Prop}
    (hpublish : ∀ {topic payload w x w'}, P w → env.publish topic payload w = (x, w') → P w')
    {topic : TopicName} {ms : List Message} (hstart : P w)
    (h : publishAll env topic ms w = (r, w')) : P w' := by
  induction ms generalizing w with
  | nil =>
    rw [publishAll] at h
    cases h
    exact hstart
  | cons m ms ih =>
    rw [publishAll] at h
    split at h
    · next heq =>
      cases h
      exact hpublish hstart heq
    · next heq => exact ih (hpublish hstart heq) h

/-- **What every publication and every commit keeps, an element keeps.** -/
theorem accept_keeps {P : σ → Prop}
    (hpublish : ∀ {topic payload w x w'}, P w → env.publish topic payload w = (x, w') → P w')
    (hcommit : ∀ {topic id w x w'}, P w → env.commit topic subscriber id w = (x, w') → P w')
    (hstart : P w) (h : accept env subscriber e i w = (r, i', w')) : P w' := by
  rcases accept_cases h with ⟨-, -, rfl⟩ | ⟨p, -, ⟨-, -, -, rfl⟩ | ⟨-, hrelay⟩⟩
  · exact hstart
  · exact hstart
  · rcases relay_cases hrelay with ⟨x, hms, -, -⟩ | ⟨i₁, w₁, hms, hlast, -, -⟩
    · exact publishAll_keeps hpublish hstart hms
    · have hpublished := publishAll_keeps hpublish hstart hms
      rcases commitLast_cases hlast with ⟨-, -, -, rfl⟩ | ⟨id, -, -, ⟨x, hput, -, -⟩ | ⟨hput, -, -⟩⟩
      · exact hpublished
      · exact hcommit hpublished hput
      · exact hcommit hpublished hput

/-! ## The keys that are resolved -/

/-- The topics on both sides. -/
def topics (resolved : SortedMap TopicProgress) (key : TopicKey) : Option (TopicName × TopicName) :=
  (resolved.get? key).map fun p => (p.remoteTopic, p.localTopic)

/-- A key that has not got anywhere yet. -/
def atStart (p : TopicProgress) : TopicProgress := { p with lastMessageId := none }

/-- The same keys are resolved, and nothing of them is different but how far they have got. -/
def OnlyAdvanced (resolved resolved' : SortedMap TopicProgress) : Prop :=
  ∀ key, (resolved'.get? key).map atStart = (resolved.get? key).map atStart

theorem OnlyAdvanced.refl (resolved : SortedMap TopicProgress) : OnlyAdvanced resolved resolved :=
  fun _ => rfl

theorem OnlyAdvanced.trans {a b c : SortedMap TopicProgress} (h : OnlyAdvanced a b)
    (h' : OnlyAdvanced b c) : OnlyAdvanced a c :=
  fun key => (h' key).trans (h key)

/-- What does not depend on how far a key has got is the same. -/
theorem OnlyAdvanced.map_get? {resolved resolved' : SortedMap TopicProgress} {α : Type}
    {f : TopicProgress → α} (h : OnlyAdvanced resolved resolved') (hf : ∀ q, f (atStart q) = f q)
    (key : TopicKey) : (resolved'.get? key).map f = (resolved.get? key).map f := by
  have hkey := congrArg (Option.map f) (h key)
  rw [Option.map_map, Option.map_map] at hkey
  have hsame : f ∘ atStart = f := funext hf
  rwa [hsame] at hkey

theorem OnlyAdvanced.topics {resolved resolved' : SortedMap TopicProgress}
    (h : OnlyAdvanced resolved resolved') : topics resolved' = topics resolved :=
  funext (h.map_get? fun _ => rfl)

theorem onlyAdvanced_advance {key : TopicKey} (hp : i.resolved.get? key = some p) (id : MessageId) :
    OnlyAdvanced i.resolved (i.advance key p id).resolved := by
  intro k
  rw [advance]
  by_cases hk : k = key
  · rw [hk, SortedMap.get?_insert_self, hp]
    rfl
  · rw [SortedMap.get?_insert_ne i.resolved hk]

theorem accept_onlyAdvanced (h : accept env subscriber e i w = (r, i', w')) :
    OnlyAdvanced i.resolved i'.resolved := by
  rcases accept_cases h with ⟨-, rfl, -⟩ | ⟨p, hp, ⟨-, -, rfl, -⟩ | ⟨-, hrelay⟩⟩
  · exact .refl _
  · rw [resolved_note]
    exact .refl _
  · rcases relay_cases hrelay with ⟨x, -, -, rfl⟩ | ⟨i₁, w₁, -, hcommit, hresolved, -⟩
    · exact .refl _
    -- past the publications, only a commit that succeeds changes anything
    · rw [hresolved]
      rcases commitLast_cases hcommit with ⟨-, -, rfl, -⟩ | ⟨id, -, -, ⟨x, -, -, rfl⟩ | ⟨-, -, rfl⟩⟩
      · exact .refl _
      · exact .refl _
      · exact onlyAdvanced_advance hp id

/-- **Whatever happens, an answer changes nothing of a key but how far it has got.** -/
theorem acceptAll_onlyAdvanced {es : List TopicMessages}
    (h : acceptAll env subscriber es i w = (r, i', w')) : OnlyAdvanced i.resolved i'.resolved :=
  acceptAll_keeps (P := fun j _ => OnlyAdvanced i.resolved j.resolved) (fun _ _ hj => hj)
    (fun _ _ _ _ _ _ _ hj haccept => hj.trans (accept_onlyAdvanced haccept)) (.refl _) h

theorem topics_advance {key : TopicKey} (hp : i.resolved.get? key = some p) (id : MessageId) :
    topics (i.advance key p id).resolved = topics i.resolved :=
  (onlyAdvanced_advance hp id).topics

theorem accept_topics (h : accept env subscriber e i w = (r, i', w')) :
    topics i'.resolved = topics i.resolved :=
  (accept_onlyAdvanced h).topics

/-- **Whatever happens, the same keys are resolved, to the same topics.** -/
theorem acceptAll_topics {es : List TopicMessages}
    (h : acceptAll env subscriber es i w = (r, i', w')) : topics i'.resolved = topics i.resolved :=
  (acceptAll_onlyAdvanced h).topics

/-- What is counted: the messages of an element of a key that was asked for, if it has no error. -/
theorem accept_received (h : accept env subscriber e i w = (r, i', w')) :
    i'.received = i.received ∨ (e.error = none ∧ (∃ p, i.resolved.get? e.topic = some p)
      ∧ i'.received = (i.count e.topic e.messages.length).received) := by
  rcases accept_cases h with ⟨-, rfl, -⟩ | ⟨p, hp, ⟨-, -, rfl, -⟩ | ⟨hsound, hrelay⟩⟩
  · exact Or.inl rfl
  · refine Or.inl ?_
    rw [note]
    split <;> rfl
  · rcases relay_cases hrelay with ⟨x, -, -, rfl⟩ | ⟨i₁, w₁, -, hcommit, -, hreceived⟩
    · exact Or.inl rfl
    · have hsame : i₁.received = i.received := by
        rcases commitLast_cases hcommit with ⟨-, -, rfl, -⟩ | ⟨id, -, -, ⟨x, -, -, rfl⟩ | ⟨-, -, rfl⟩⟩
        · rfl
        · rfl
        · rfl
      rw [count, hsame] at hreceived
      exact hreceived.imp_right fun hcounted => ⟨hsound, ⟨p, hp⟩, hcounted⟩

theorem exists_of_topics {resolved resolved' : SortedMap TopicProgress}
    (h : topics resolved' = topics resolved) {key : TopicKey} {p' : TopicProgress}
    (hp : resolved'.get? key = some p') : ∃ p, resolved.get? key = some p
      ∧ p'.remoteTopic = p.remoteTopic ∧ p'.localTopic = p.localTopic := by
  have hkey := congrFun h key
  rw [topics, topics, hp] at hkey
  obtain ⟨p, hp, hsame⟩ := Option.map_eq_some_iff.mp hkey.symm
  rw [Prod.mk.injEq] at hsame
  exact ⟨p, hp, hsame.1.symm, hsame.2.symm⟩

/-! ## The rows of offsets -/

/-- Publishing commits nothing; if all of it succeeds, the payloads are at the end of the topic. -/
theorem publishAll_spec (hf : Faithful env v topicOf) {topic : TopicName} {ms : List Message}
    (h : publishAll env topic ms w = (r, w')) :
    v.Idle w w' ∧ (r = .ok () → v.own w' topic = v.own w topic ++ ms.map (·.payload)) := by
  induction ms generalizing w with
  | nil =>
    rw [publishAll] at h
    cases h
    exact ⟨View.Idle.refl v w', fun _ => (List.append_nil _).symm⟩
  | cons m ms ih =>
    rw [publishAll] at h
    have hidle := hf.publish topic m.payload w
    split at h
    · next e w₁ heq =>
      cases h
      rw [heq] at hidle
      exact ⟨hidle, fun hc => by cases hc⟩
    · next id w₁ heq =>
      rw [heq] at hidle
      obtain ⟨hrest, hown⟩ := ih h
      refine ⟨hidle.trans hrest, fun hr => ?_⟩
      rw [hown hr, hf.published heq, List.append_assoc, List.map_cons, List.singleton_append]

variable {topic : TopicName} {id : MessageId}

theorem commitLast_row (hf : Faithful env v topicOf)
    (he : ∀ last, e.lastMessageId? = some last → last = id)
    (hrow : v.offset w topic subscriber = some id)
    (h : commitLast env subscriber p e i w = (r, i', w')) :
    v.offset w' topic subscriber = some id := by
  rcases commitLast_cases h with ⟨-, -, -, rfl⟩ | ⟨last, hlast, -, ⟨x, hput, -⟩ | ⟨hput, -⟩⟩
  · exact hrow
  · rw [(hf.refused hput).offset]
    exact hrow
  · obtain ⟨-, -, hself, hothers⟩ := hf.committed hput
    by_cases htopic : topic = p.remoteTopic
    · rw [htopic, hself, he last hlast]
    · rw [hothers topic subscriber (Or.inl htopic)]
      exact hrow

theorem accept_row (hf : Faithful env v topicOf)
    (he : ∀ last, e.lastMessageId? = some last → last = id)
    (hrow : v.offset w topic subscriber = some id)
    (h : accept env subscriber e i w = (r, i', w')) : v.offset w' topic subscriber = some id := by
  rcases accept_cases h with ⟨-, -, rfl⟩ | ⟨p, -, ⟨-, -, -, rfl⟩ | ⟨-, hrelay⟩⟩
  · exact hrow
  · exact hrow
  · rcases relay_cases hrelay with ⟨x, hpublish, -, -⟩ | ⟨i₁, w₁, hpublish, hcommit, -, -⟩
    · rw [(publishAll_spec hf hpublish).1.offset]
      exact hrow
    · refine commitLast_row hf he ?_ hcommit
      rw [(publishAll_spec hf hpublish).1.offset]
      exact hrow

/-- **A row stays where it is** while no other id is committed. -/
theorem acceptAll_row (hf : Faithful env v topicOf) {es : List TopicMessages}
    (hes : ∀ e ∈ es, ∀ last, e.lastMessageId? = some last → last = id)
    (hrow : v.offset w topic subscriber = some id)
    (h : acceptAll env subscriber es i w = (r, i', w')) : v.offset w' topic subscriber = some id := by
  refine acceptAll_keeps (P := fun _ w => v.offset w topic subscriber = some id) ?_ ?_ hrow h
  · intro i w hw
    rw [(hf.arrive w).offset]
    exact hw
  · intro e he i w r i' w' hw haccept
    exact accept_row hf (hes e he) hw haccept

/-! ## Answers in parts -/

/-- What comes after elements that could all be handled. -/
theorem acceptAll_append {es fs : List TopicMessages} {i i' : Intake} {w w' : σ}
    (h : acceptAll env subscriber es i w = (.ok (), i', w')) :
    acceptAll env subscriber (es ++ fs) i w = acceptAll env subscriber fs i' w' := by
  induction es generalizing i w with
  | nil =>
    rw [acceptAll] at h
    cases h
    rfl
  | cons e es ih =>
    rw [acceptAll] at h
    rw [List.cons_append, acceptAll]
    split at h
    · cases h
    · exact ih h

end Intake

/-! ## While all is well -/

/-- Payloads were published to a topic, and nothing else happened. -/
structure View.Published (v : View σ) (topic : TopicName) (payloads : List Bytes) (w w' : σ) :
    Prop where
  remote : v.remote w' = v.remote w
  own : v.own w' topic = v.own w topic ++ payloads
  ownOthers : ∀ t, t ≠ topic → v.own w' t = v.own w t
  offset : v.offset w' = v.offset w

/-- An id was committed, and nothing else happened. -/
structure View.Committed (v : View σ) (topic : TopicName) (subscriber : SubscriberName)
    (id : MessageId) (w w' : σ) : Prop where
  remote : v.remote w' = v.remote w
  own : v.own w' = v.own w
  offset : v.offset w' topic subscriber = some id
  offsetOthers : ∀ t s, (t ≠ topic ∨ s ≠ subscriber) → v.offset w' t s = v.offset w t s

/-- The stores of this side work, as far as it is known: `ready n` says that at least `n` publications
    will succeed if they are to topics that are `accepted`. -/
structure Works (env : Surroundings σ) (v : View σ) (accepted : TopicName → Prop)
    (ready : Nat → σ → Prop) : Prop where
  arrive : ∀ w, env.arrive w = w
  goesOn : ∀ w, env.isStopRequested w = false
  publish : ∀ {n w topic} (payload), ready (n + 1) w → accepted topic → ∃ id w',
    env.publish topic payload w = (.ok id, w') ∧ ready n w' ∧ v.Published topic [payload] w w'
  commit : ∀ {n w} (topic subscriber id), ready n w → ∃ w',
    env.commit topic subscriber id w = (.ok (), w') ∧ ready n w'
      ∧ v.Committed topic subscriber id w w'

/-- What the remote has for a key after the last id that was committed. -/
def View.backlog (v : View σ) (w : σ) (p : TopicProgress) : List Message :=
  MemoryLog.following p.lastMessageId (v.remote w p.remoteTopic)

/-- What it gives of that when it is asked for a number of messages at most. -/
def View.batch (v : View σ) (w : σ) (limit : UInt32) (p : TopicProgress) : List Message :=
  (v.backlog w p).take limit.toNat

/-- The last id of some messages, or else the one before them. -/
def lastOf (last : Option MessageId) (ms : List Message) : Option MessageId :=
  (ms.getLast?.map (·.id)).or last

@[simp] theorem lastOf_nil (last : Option MessageId) : lastOf last [] = last := rfl

theorem lastOf_concat (last : Option MessageId) (ms : List Message) (m : Message) :
    lastOf last (ms ++ [m]) = some m.id := by
  rw [lastOf, List.getLast?_concat]
  rfl

theorem lastOf_append (last : Option MessageId) (ms ms' : List Message) :
    lastOf last (ms ++ ms') = lastOf (lastOf last ms) ms' := by
  rw [lastOf, lastOf, lastOf, List.getLast?_append]
  cases ms'.getLast? <;> rfl

/-- A key that is past some messages. -/
def TopicProgress.past (p : TopicProgress) (ms : List Message) : TopicProgress :=
  { p with lastMessageId := lastOf p.lastMessageId ms }

theorem TopicProgress.past_append (p : TopicProgress) (ms ms' : List Message) :
    (p.past ms).past ms' = p.past (ms ++ ms') := by
  rw [past, past, past, lastOf_append]

/-- The messages of one key were relayed, and nothing else happened. -/
structure View.Relayed (v : View σ) (subscriber : SubscriberName) (p : TopicProgress)
    (ms : List Message) (w w' : σ) : Prop where
  remote : v.remote w' = v.remote w
  own : v.own w' p.localTopic = v.own w p.localTopic ++ ms.map (·.payload)
  ownOthers : ∀ t, t ≠ p.localTopic → v.own w' t = v.own w t
  offset : v.offset w' p.remoteTopic subscriber
    = lastOf (v.offset w p.remoteTopic subscriber) ms
  offsetOthers : ∀ t s, (t ≠ p.remoteTopic ∨ s ≠ subscriber) → v.offset w' t s = v.offset w t s

namespace Intake

/-- A key with its messages was taken in. -/
structure Took (key : TopicKey) (p : TopicProgress) (ms : List Message) (i i' : Intake) : Prop where
  self : i'.resolved.get? key = some (p.past ms)
  others : ∀ k, k ≠ key → i'.resolved.get? k = i.resolved.get? k
  received : i'.received.get? key = some ((i.received.get? key).getD 0 + ms.length)
  receivedOthers : ∀ k, k ≠ key → i'.received.get? k = i.received.get? k
  notFound : i'.notFound = i.notFound
  unreadable : i'.unreadable = i.unreadable

variable {accepted : TopicName → Prop} {ready : Nat → σ → Prop}

theorem publishAll_of_works (hworks : Works env v accepted ready) {topic : TopicName}
    (htopic : accepted topic) {n : Nat} {ms : List Message} {w : σ} (hready : ready (n + ms.length) w) :
    ∃ w', publishAll env topic ms w = (.ok (), w') ∧ ready n w'
      ∧ v.Published topic (ms.map (·.payload)) w w' := by
  induction ms generalizing w with
  | nil => exact ⟨w, rfl, hready, rfl, (List.append_nil _).symm, fun _ _ => rfl, rfl⟩
  | cons m ms ih =>
    obtain ⟨id, w₁, hone, hready₁, hpublished⟩ := hworks.publish m.payload hready htopic
    obtain ⟨w₂, hrest, hready₂, hmore⟩ := ih hready₁
    refine ⟨w₂, ?_, hready₂, hmore.remote.trans hpublished.remote, ?_, ?_,
      hmore.offset.trans hpublished.offset⟩
    · rw [publishAll, hone]
      exact hrest
    · rw [hmore.own, hpublished.own, List.append_assoc, List.map_cons, List.singleton_append]
    · intro t ht
      rw [hmore.ownOthers t ht, hpublished.ownOthers t ht]

/-- The last id is committed, or was already. -/
theorem commitLast_of_works (hworks : Works env v accepted ready) {p : TopicProgress}
    {e : TopicMessages} {i : Intake} (hp : i.resolved.get? e.topic = some p) {n : Nat} {w₀ w : σ}
    (hpublished : v.Published p.localTopic (e.messages.map (·.payload)) w₀ w) (hready : ready n w)
    (hrow : ∀ id, p.lastMessageId = some id → v.offset w₀ p.remoteTopic subscriber = some id) :
    ∃ i' w', commitLast env subscriber p e i w = (.ok (), i', w') ∧ ready n w'
      ∧ Took e.topic p e.messages i (i'.count e.topic e.messages.length)
      ∧ v.Relayed subscriber p e.messages w₀ w' := by
  have hself : (i.count e.topic e.messages.length).received.get? e.topic
      = some ((i.received.get? e.topic).getD 0 + e.messages.length) :=
    SortedMap.get?_insert_self _ _ _
  have hothers : ∀ k, k ≠ e.topic →
      (i.count e.topic e.messages.length).received.get? k = i.received.get? k :=
    fun k hk => SortedMap.get?_insert_ne _ hk _
  -- when nothing is committed, the id is the one that was committed last
  have hnothing : lastOf p.lastMessageId e.messages = p.lastMessageId →
      lastOf (v.offset w₀ p.remoteTopic subscriber) e.messages = v.offset w₀ p.remoteTopic subscriber →
      Took e.topic p e.messages i (i.count e.topic e.messages.length)
        ∧ v.Relayed subscriber p e.messages w₀ w := by
    intro hlast hoffset
    refine ⟨⟨?_, fun _ _ => rfl, hself, hothers, rfl, rfl⟩, ⟨hpublished.remote, hpublished.own,
      hpublished.ownOthers, ?_, ?_⟩⟩
    · rw [TopicProgress.past, hlast]
      exact hp
    · rw [hpublished.offset, hoffset]
    · intro t s _
      rw [hpublished.offset]
  rw [commitLast]
  cases hlast : e.lastMessageId? with
  | none =>
    rw [lastOf, lastOf, show e.messages.getLast?.map (·.id) = none from hlast] at hnothing
    exact ⟨i, w, rfl, hready, hnothing rfl rfl⟩
  | some id =>
    rw [lastOf, lastOf, show e.messages.getLast?.map (·.id) = some id from hlast] at hnothing
    by_cases hdone : p.lastMessageId = some id
    · simp only [if_pos hdone]
      exact ⟨i, w, rfl, hready, hnothing hdone.symm (hrow id hdone).symm⟩
    · obtain ⟨w', hcommit, hready', hcommitted⟩ := hworks.commit p.remoteTopic subscriber id hready
      have hof : ∀ last, lastOf last e.messages = some id := by
        intro last
        rw [lastOf, show e.messages.getLast?.map (·.id) = some id from hlast]
        rfl
      simp only [if_neg hdone, hcommit]
      refine ⟨i.advance e.topic p id, w', rfl, hready', ⟨?_, ?_, hself, hothers, rfl, rfl⟩,
        ⟨hcommitted.remote.trans hpublished.remote, ?_, ?_, ?_, ?_⟩⟩
      · rw [TopicProgress.past, hof]
        exact SortedMap.get?_insert_self _ _ _
      · intro k hk
        exact SortedMap.get?_insert_ne _ hk _
      · rw [hcommitted.own, hpublished.own]
      · intro t ht
        rw [hcommitted.own, hpublished.ownOthers t ht]
      · rw [hof]
        exact hcommitted.offset
      · intro t s hts
        rw [hcommitted.offsetOthers t s hts, hpublished.offset]

theorem accept_of_goesOn {p : TopicProgress} {e : TopicMessages} {i : Intake} {w : σ}
    (hp : i.resolved.get? e.topic = some p) (hgoes : env.isStopRequested w = false) :
    accept env subscriber e i w
      = if e.error.isSome then (.ok (), i.note e, w) else relay env subscriber p e i w := by
  rw [accept, hgoes, hp]
  rfl

/-- **An element without an error.** -/
theorem accept_of_works (hworks : Works env v accepted ready) {p : TopicProgress} {e : TopicMessages}
    {i : Intake} (hp : i.resolved.get? e.topic = some p) (herror : e.error = none)
    (htopic : accepted p.localTopic) {n : Nat} {w : σ} (hready : ready (n + e.messages.length) w)
    (hrow : ∀ id, p.lastMessageId = some id → v.offset w p.remoteTopic subscriber = some id) :
    ∃ i' w', accept env subscriber e i w = (.ok (), i', w') ∧ ready n w'
      ∧ Took e.topic p e.messages i i' ∧ v.Relayed subscriber p e.messages w w' := by
  obtain ⟨w₁, hpublish, hready₁, hpublished⟩ := publishAll_of_works hworks htopic hready
  obtain ⟨i', w', hcommit, hready', htook, hrelayed⟩ :=
    commitLast_of_works hworks hp hpublished hready₁ hrow
  refine ⟨i'.count e.topic e.messages.length, w', ?_, hready', htook, hrelayed⟩
  rw [accept_of_goesOn hp (hworks.goesOn w), herror]
  show relay env subscriber p e i w = _
  simp only [relay, hpublish, hcommit]

/-- A key that is taken in again goes on where it was. -/
theorem Took.trans {key : TopicKey} {p : TopicProgress} {ms ms' : List Message} {i i' i'' : Intake}
    (h : Took key p ms i i')
    (h' : Took key (p.past ms) ms' i' i'') :
    Took key p (ms ++ ms') i i'' := by
  refine ⟨?_, ?_, ?_, ?_, h'.notFound.trans h.notFound, h'.unreadable.trans h.unreadable⟩
  · rw [h'.self, TopicProgress.past_append]
  · intro k hk
    rw [h'.others k hk, h.others k hk]
  · rw [h'.received, h.received, Option.getD_some, List.length_append, Nat.add_assoc]
  · intro k hk
    rw [h'.receivedOthers k hk, h.receivedOthers k hk]

end Intake

theorem View.Relayed.trans {p p' : TopicProgress} {ms ms' : List Message} {w w' w'' : σ}
    (h : v.Relayed subscriber p ms w w') (h' : v.Relayed subscriber p' ms' w' w'')
    (hremote : p'.remoteTopic = p.remoteTopic) (hlocal : p'.localTopic = p.localTopic) :
    v.Relayed subscriber p (ms ++ ms') w w'' := by
  obtain ⟨hremote', hown', hothers', hoffset', hoffsets'⟩ := h'
  rw [hlocal] at hown' hothers'
  rw [hremote] at hoffset' hoffsets'
  refine ⟨hremote'.trans h.remote, ?_, ?_, ?_, ?_⟩
  · rw [hown', h.own, List.map_append, List.append_assoc]
  · intro t ht
    rw [hothers' t ht, h.ownOthers t ht]
  · rw [hoffset', h.offset, lastOf_append]
  · intro t s hts
    rw [hoffsets' t s hts, h.offsetOthers t s hts]

namespace Intake

/-- **All elements of a key.** -/
theorem acceptAll_of_works (hworks : Works env v accepted ready) (subscriber : SubscriberName)
    {key : TopicKey} {p : TopicProgress} {es : List TopicMessages} (hne : es ≠ [])
    (hes : ∀ e ∈ es, e.topic = key ∧ e.error = none)
    {i : Intake} (hp : i.resolved.get? key = some p) (htopic : accepted p.localTopic) {n : Nat} {w : σ}
    (hready : ready (n + (es.flatMap (·.messages)).length) w)
    (hrow : ∀ id, p.lastMessageId = some id → v.offset w p.remoteTopic subscriber = some id) :
    ∃ i' w', acceptAll env subscriber es i w = (.ok (), i', w') ∧ ready n w'
      ∧ Took key p (es.flatMap (·.messages)) i i'
      ∧ v.Relayed subscriber p (es.flatMap (·.messages)) w w' := by
  induction es generalizing i w p with
  | nil => exact absurd rfl hne
  | cons e es ih =>
    obtain ⟨rfl, herror⟩ := hes e List.mem_cons_self
    rw [List.flatMap_cons] at hready ⊢
    rw [List.length_append, Nat.add_comm e.messages.length, ← Nat.add_assoc] at hready
    obtain ⟨i₁, w₁, haccept, hready₁, htook, hrelayed⟩ :=
      accept_of_works hworks hp herror htopic hready hrow
    rw [acceptAll, hworks.arrive, haccept]
    show ∃ i' w', acceptAll env subscriber es i₁ w₁ = (.ok (), i', w') ∧ _
    by_cases hmore : es = []
    · rw [hmore, List.flatMap_nil, List.append_nil]
      exact ⟨i₁, w₁, rfl, by rw [hmore] at hready₁; exact hready₁, htook, hrelayed⟩
    · have hrow₁ : ∀ id, lastOf p.lastMessageId e.messages = some id →
          v.offset w₁ p.remoteTopic subscriber = some id := by
        intro id hid
        rw [hrelayed.offset]
        rw [lastOf, Option.or_eq_some_iff] at hid ⊢
        rcases hid with hlast | ⟨hnone, hlast⟩
        · exact Or.inl hlast
        · exact Or.inr ⟨hnone, hrow id hlast⟩
      obtain ⟨i', w', hall, hready', htook', hrelayed'⟩ :=
        ih hmore (fun e' he' => hes e' (List.mem_cons_of_mem _ he')) htook.self htopic hready₁ hrow₁
      exact ⟨i', w', hall, hready', htook.trans htook', hrelayed.trans hrelayed' rfl rfl⟩

/-- Elements without messages change nothing that lasts. -/
theorem acceptAll_of_nothing (hworks : Works env v accepted ready) (subscriber : SubscriberName)
    {es : List TopicMessages} {i : Intake} {w : σ}
    (hes : ∀ e ∈ es, e.messages = [] ∧ ∃ p, i.resolved.get? e.topic = some p) :
    ∃ i', acceptAll env subscriber es i w = (.ok (), i', w) ∧ i'.resolved = i.resolved := by
  induction es generalizing i with
  | nil => exact ⟨i, rfl, rfl⟩
  | cons e es ih =>
    obtain ⟨hnothing, p, hp⟩ := hes e List.mem_cons_self
    obtain ⟨i₁, haccept, hresolved₁⟩ : ∃ i₁, accept env subscriber e i w = (.ok (), i₁, w)
        ∧ i₁.resolved = i.resolved := by
      rw [accept_of_goesOn hp (hworks.goesOn w)]
      split
      · exact ⟨_, rfl, resolved_note i e⟩
      · have hlast : e.lastMessageId? = none := by
          rw [TopicMessages.lastMessageId?, hnothing]
          rfl
        rw [relay, hnothing, publishAll]
        simp only [commitLast, hlast]
        exact ⟨_, rfl, rfl⟩
    rw [acceptAll, hworks.arrive, haccept]
    obtain ⟨i', hall, hresolved⟩ := ih (i := i₁) fun e' he' => by
      rw [hresolved₁]
      exact hes e' (List.mem_cons_of_mem _ he')
    exact ⟨i', hall, hresolved.trans hresolved₁⟩

/-- An element whose first message is refused ends the answer. -/
theorem acceptAll_of_refused (hworks : Works env v accepted ready) (subscriber : SubscriberName)
    {e : TopicMessages} {p : TopicProgress} {m : Message} {ms : List Message} {i : Intake} {w w' : σ}
    (hp : i.resolved.get? e.topic = some p) (herror : e.error = none) (hms : e.messages = m :: ms)
    {x : LogError} (hpublish : env.publish p.localTopic m.payload w = (.error x, w'))
    (es : List TopicMessages) :
    acceptAll env subscriber (e :: es) i w = (.error (.store x.message), i, w') := by
  have haccept : accept env subscriber e i w = (.error (.store x.message), i, w') := by
    rw [accept_of_goesOn hp (hworks.goesOn w), herror]
    show relay env subscriber p e i w = _
    simp only [relay, hms, publishAll, hpublish]
  rw [acceptAll, hworks.arrive, haccept]

/-! ## Elements that can be handled -/

section Accepts

variable {e : TopicMessages} {i i' : Intake} {w w' : σ}

/-- What it takes to handle an element, and what comes of it. -/
inductive Accepts (env : Surroundings σ) (subscriber : SubscriberName) (e : TopicMessages)
    (i : Intake) (w : σ) : Intake → σ → Prop
  /-- It reports an error. -/
  | noted {p : TopicProgress} (goes : env.isStopRequested w = false)
      (asked : i.resolved.get? e.topic = some p) (error : e.error.isSome = true) :
      Accepts env subscriber e i w (i.note e) w
  /-- Its messages are published, and there is nothing to commit. -/
  | published {p : TopicProgress} {w' : σ} (goes : env.isStopRequested w = false)
      (asked : i.resolved.get? e.topic = some p) (sound : e.error = none)
      (publish : publishAll env p.localTopic e.messages w = (.ok (), w'))
      (done : ∀ id, e.lastMessageId? = some id → p.lastMessageId = some id) :
      Accepts env subscriber e i w (i.count e.topic e.messages.length) w'
  /-- Its messages are published, and its last id is committed. -/
  | committed {p : TopicProgress} {id : MessageId} {w₁ w' : σ} (goes : env.isStopRequested w = false)
      (asked : i.resolved.get? e.topic = some p) (sound : e.error = none)
      (publish : publishAll env p.localTopic e.messages w = (.ok (), w₁))
      (last : e.lastMessageId? = some id) (new : p.lastMessageId ≠ some id)
      (commit : env.commit p.remoteTopic subscriber id w₁ = (.ok (), w')) :
      Accepts env subscriber e i w ((i.advance e.topic p id).count e.topic e.messages.length) w'

/-- **What an element did that was handled.** -/
theorem accepts_of_ok (h : accept env subscriber e i w = (.ok (), i', w')) :
    Accepts env subscriber e i w i' w' := by
  have hgoes : env.isStopRequested w = false := by
    rw [accept] at h
    split at h
    · cases h
    · next hgoes => exact Bool.eq_false_iff.mpr hgoes
  rcases accept_cases h with ⟨⟨x, hx⟩, -, -⟩ | ⟨p, hp, ⟨herror, -, rfl, rfl⟩ | ⟨hsound, hrelay⟩⟩
  · cases hx
  · exact .noted hgoes hp herror
  · rw [relay] at hrelay
    split at hrelay
    · cases hrelay
    · next w₁ hpublish =>
      split at hrelay
      · cases hrelay
      · next i₁ w₂ hcommit =>
        cases hrelay
        rcases commitLast_cases hcommit with ⟨hdone, -, rfl, rfl⟩ | ⟨id, hlast, hnew, ⟨x, -, hx, -⟩ | h'⟩
        · exact .published hgoes hp hsound hpublish hdone
        · cases hx
        · obtain ⟨hput, -, rfl⟩ := h'
          exact .committed hgoes hp hsound hpublish hlast hnew hput

theorem Accepts.ok (h : Accepts env subscriber e i w i' w') :
    accept env subscriber e i w = (.ok (), i', w') := by
  cases h with
  | noted goes asked error => rw [accept_of_goesOn asked goes, if_pos error]
  | published goes asked sound publish done =>
    rw [accept_of_goesOn asked goes, sound]
    show relay env subscriber _ e i w = _
    simp only [relay, publish, commitLast]
    cases hlast : e.lastMessageId? with
    | none => rfl
    | some id => simp only [if_pos (done id hlast)]
  | committed goes asked sound publish last new commit =>
    rw [accept_of_goesOn asked goes, sound]
    show relay env subscriber _ e i w = _
    simp only [relay, publish, commitLast, last, if_neg new, commit]

theorem Accepts.goes (h : Accepts env subscriber e i w i' w') : env.isStopRequested w = false := by
  cases h <;> assumption

theorem Accepts.asked (h : Accepts env subscriber e i w i' w') :
    ∃ p, i.resolved.get? e.topic = some p := by
  cases h <;> exact ⟨_, ‹_›⟩

/-- The elements of an answer are handled one after the other. -/
theorem acceptAll_cons_ok_iff {es : List TopicMessages} :
    acceptAll env subscriber (e :: es) i w = (.ok (), i', w')
      ↔ ∃ i₁ w₁, Accepts env subscriber e i (env.arrive w) i₁ w₁
        ∧ acceptAll env subscriber es i₁ w₁ = (.ok (), i', w') := by
  rw [acceptAll]
  constructor
  · intro h
    split at h
    · cases h
    · next i₁ w₁ hone => exact ⟨i₁, w₁, accepts_of_ok hone, h⟩
  · rintro ⟨i₁, w₁, haccepts, hrest⟩
    simp only [haccepts.ok]
    exact hrest

/-- Every element that is handled is of a key that is resolved. -/
theorem acceptAll_asked {es : List TopicMessages}
    (h : acceptAll env subscriber es i w = (.ok (), i', w')) :
    ∀ e ∈ es, ∃ p, i.resolved.get? e.topic = some p := by
  induction es generalizing i w with
  | nil => exact fun _ he => absurd he List.not_mem_nil
  | cons e es ih =>
    obtain ⟨i₁, w₁, haccepts, hrest⟩ := acceptAll_cons_ok_iff.mp h
    intro e' he'
    rcases List.mem_cons.mp he' with rfl | he'
    · exact haccepts.asked
    · obtain ⟨p₁, hp₁⟩ := ih hrest e' he'
      obtain ⟨p, hp, -⟩ := exists_of_topics (accept_topics haccepts.ok) hp₁
      exact ⟨p, hp⟩

/-- An element is noted if it reports an error, under its key and the kind of the error. -/
theorem Accepts.noted_iff (h : Accepts env subscriber e i w i' w') (key : TopicKey) :
    (i'.notFound.contains key = true
        ↔ i.notFound.contains key = true ∨ (e.topic = key ∧ e.isNotFound = true))
      ∧ (i'.unreadable.contains key = true
        ↔ i.unreadable.contains key = true
          ∨ (e.topic = key ∧ e.error.isSome = true ∧ e.isNotFound = false)) := by
  have hsound : e.error = none → e.isNotFound = false := fun h => by rw [TopicMessages.isNotFound, h]; rfl
  cases h with
  | noted goes asked error =>
    rw [note]
    split
    · next hmissing => simp [hmissing, KeySet.contains_add_iff]
    · next hother => simp [hother, error, KeySet.contains_add_iff]
  | published goes asked sound => simp [hsound sound, sound, count]
  | committed goes asked sound => simp [hsound sound, sound, count, advance]

/-- **What is noted of an answer**: the keys of the elements that report an error. -/
theorem acceptAll_noted_iff {es : List TopicMessages}
    (h : acceptAll env subscriber es i w = (.ok (), i', w')) (key : TopicKey) :
    (i'.notFound.contains key = true
        ↔ i.notFound.contains key = true ∨ ∃ e ∈ es, e.topic = key ∧ e.isNotFound = true)
      ∧ (i'.unreadable.contains key = true
        ↔ i.unreadable.contains key = true
          ∨ ∃ e ∈ es, e.topic = key ∧ e.error.isSome = true ∧ e.isNotFound = false) := by
  induction es generalizing i w with
  | nil =>
    cases h
    simp
  | cons e es ih =>
    obtain ⟨i₁, w₁, haccepts, hrest⟩ := acceptAll_cons_ok_iff.mp h
    obtain ⟨hmissing, hunreadable⟩ := haccepts.noted_iff key
    obtain ⟨hmissing', hunreadable'⟩ := ih hrest
    rw [hmissing', hunreadable', hmissing, hunreadable, or_assoc, or_assoc]
    simp only [List.mem_cons, exists_eq_or_imp, and_self]

end Accepts

end Intake

/-! ## The policy for missing topics -/

/-- Each key is as far as it was, or not there any more. -/
def Narrower (resolved' resolved : SortedMap TopicProgress) : Prop :=
  ∀ key p', resolved'.get? key = some p' → ∃ p, resolved.get? key = some p
    ∧ p'.remoteTopic = p.remoteTopic ∧ p'.localTopic = p.localTopic
    ∧ p'.lastMessageId = p.lastMessageId

theorem Narrower.refl (resolved : SortedMap TopicProgress) : Narrower resolved resolved :=
  fun _ p hp => ⟨p, hp, rfl, rfl, rfl⟩

theorem narrower_empty (resolved : SortedMap TopicProgress) : Narrower SortedMap.empty resolved :=
  fun _ _ hp => by cases hp

theorem Narrower.trans {a b c : SortedMap TopicProgress} (hab : Narrower a b) (hbc : Narrower b c) :
    Narrower a c := by
  intro key p hp
  obtain ⟨q, hq, hr, hl, hi⟩ := hab key p hp
  obtain ⟨q', hq', hr', hl', hi'⟩ := hbc key q hq
  exact ⟨q', hq', hr.trans hr', hl.trans hl', hi.trans hi'⟩

theorem narrower_countMissing (missing : KeySet) (resolved : SortedMap TopicProgress) :
    Narrower (Tracking.countMissing missing resolved) resolved := by
  intro key p' hp'
  rw [Tracking.countMissing, SortedMap.get?_map, Option.map_eq_some_iff] at hp'
  obtain ⟨p, hp, rfl⟩ := hp'
  exact ⟨p, hp, rfl, rfl, rfl⟩

theorem narrower_erase (resolved : SortedMap TopicProgress) (key : TopicKey) :
    Narrower (resolved.erase key) resolved := by
  intro key' p hp
  by_cases hk : key' = key
  · subst hk
    rw [SortedMap.get?_erase_self] at hp
    cases hp
  · rw [SortedMap.get?_erase_ne resolved hk] at hp
    exact ⟨p, hp, rfl, rfl, rfl⟩

/-- What the policy leaves alone. -/
theorem Tracking.applyPolicy_spec {missing : List TopicKey} {t t' : Tracking}
    {r : Except RelayError Unit} (h : applyPolicy missing t = (r, t')) :
    Narrower t'.resolved t.resolved ∧ t'.settings = t.settings ∧ t'.unresolved = t.unresolved := by
  induction missing generalizing t with
  | nil =>
    rw [applyPolicy] at h
    cases h
    exact ⟨Narrower.refl _, rfl, rfl⟩
  | cons key missing ih =>
    rw [applyPolicy] at h
    split at h
    · split at h
      · exact ih h
      · obtain ⟨hn, hs, hu⟩ := ih h
        exact ⟨hn.trans (narrower_erase t.resolved key), hs, hu⟩
      · cases h
        exact ⟨Narrower.refl _, rfl, rfl⟩
    · exact ih h

/-- What the conclusions leave alone. -/
theorem Tracking.conclude_spec (t : Tracking) (i : Intake) :
    Narrower (t.conclude i).2.resolved i.resolved ∧ (t.conclude i).2.settings = t.settings
      ∧ (t.conclude i).2.unresolved = t.unresolved := by
  rw [conclude]
  split
  · next e t₁ hpolicy =>
    obtain ⟨hn, hs, hu⟩ := applyPolicy_spec hpolicy
    exact ⟨hn.trans (narrower_countMissing _ _), hs, hu⟩
  · next t₁ hpolicy =>
    obtain ⟨hn, hs, hu⟩ := applyPolicy_spec hpolicy
    split <;> exact ⟨hn.trans (narrower_countMissing _ _), hs, hu⟩

/-! ## The cycle around it -/

namespace Tracking

variable {t : Tracking} {d : Delivery} {i : Intake} {w w₁ w₂ : σ}

/-- The summary, if there is one, is that of the answer. -/
theorem conclude_ok {s : CycleSummary} (h : (t.conclude i).1 = .ok s) :
    s = .ofIntake t.settings.batchLimit.toNat i := by
  rw [conclude] at h
  split at h
  · cases h
  · next t₁ hpolicy =>
    obtain ⟨-, hsettings, -⟩ := applyPolicy_spec hpolicy
    rw [hsettings] at h
    split at h
    · cases h
      rfl
    · cases h

/-- A key that is resolved is asked for, from its last id on. -/
theorem get?_requests {key : TopicKey} {p : TopicProgress} (h : t.resolved.get? key = some p) :
    t.requests.get? key = some ⟨p.lastMessageId, t.settings.batchLimit⟩ := by
  rw [requests, SortedMap.get?_map, h]
  rfl

/-- It asks for the keys that are resolved. -/
theorem keys_requests (t : Tracking) : t.requests.keys = t.resolved.keys := by
  rw [requests, SortedMap.keys, SortedMap.map, List.map_map]
  rfl

theorem contains_requests {key : TopicKey} :
    t.requests.contains key = true ↔ ∃ p, t.resolved.get? key = some p := by
  rw [SortedMap.contains_iff, requests, SortedMap.get?_map]
  constructor
  · rintro ⟨request, hrequest⟩
    obtain ⟨p, hp, -⟩ := Option.map_eq_some_iff.mp hrequest
    exact ⟨p, hp⟩
  · rintro ⟨p, hp⟩
    exact ⟨_, congrArg (Option.map _) hp⟩

/-- **What a cycle can do**: nothing, or handle elements of an answer; and draw conclusions only if the
    answer came as a whole. -/
theorem pollCycle_cases {t' : Tracking} {w' : σ} {r : Except Halt CycleSummary}
    (h : t.pollCycle env w = (r, t', w')) :
    (t.resolved.isEmpty = true ∧ r = .ok .idle ∧ t' = t ∧ w' = w)
    ∨ ∃ d w₁ r₁ i, env.fetch t.requests w = (d, w₁)
      ∧ Intake.acceptAll env t.settings.subscriber d.elements (.start t.resolved) w₁ = (r₁, i, w')
      ∧ (((∃ halt, r = .error halt) ∧ t' = { t with resolved := i.resolved })
        ∨ (r₁ = .ok () ∧ d.ending = .ok () ∧ r = (t.conclude i).1.mapError .failure
          ∧ t' = (t.conclude i).2)) := by
  rw [pollCycle] at h
  split at h
  · next hempty =>
    cases h
    exact Or.inl ⟨hempty, rfl, rfl, rfl⟩
  · refine Or.inr ?_
    rcases hfetch : env.fetch t.requests w with ⟨d, w₁⟩
    rcases hall : Intake.acceptAll env t.settings.subscriber d.elements (.start t.resolved) w₁ with
      ⟨r₁, i, w₂⟩
    rw [hfetch] at h
    simp only [Intake.receive, hall] at h
    cases r₁ with
    | error x =>
      cases h
      exact ⟨d, w₁, _, i, rfl, hall, Or.inl ⟨⟨_, rfl⟩, rfl⟩⟩
    | ok _ =>
      cases hending : d.ending with
      | error halt =>
        simp only [hending] at h
        cases h
        exact ⟨d, w₁, _, i, rfl, hall, Or.inl ⟨⟨_, rfl⟩, rfl⟩⟩
      | ok _ =>
        simp only [hending] at h
        cases h
        exact ⟨d, w₁, _, i, rfl, hall, Or.inr ⟨rfl, hending, rfl, rfl⟩⟩

/-- A cycle resolves nothing. -/
theorem unresolved_pollCycle {t' : Tracking} {w' : σ} {r : Except Halt CycleSummary}
    (h : t.pollCycle env w = (r, t', w')) : t'.unresolved = t.unresolved := by
  rcases pollCycle_cases h with ⟨-, -, rfl, -⟩ | ⟨d, w₁, r₁, i, -, -, ⟨-, rfl⟩ | ⟨-, -, -, rfl⟩⟩
  · rfl
  · rfl
  · exact (t.conclude_spec i).2.2

/-- A cycle that is broken off keeps what was done. -/
theorem pollCycle_of_error (hne : t.resolved.isEmpty = false) (hfetch : env.fetch t.requests w = (d, w₁))
    {x : RelayError}
    (hall : Intake.acceptAll env t.settings.subscriber d.elements (.start t.resolved) w₁
      = (.error x, i, w₂)) :
    t.pollCycle env w = (.error (.failure x), { t with resolved := i.resolved }, w₂) := by
  rw [pollCycle, hne]
  simp only [Bool.false_eq_true, if_false, hfetch, Intake.receive, hall]

/-- A cycle whose answer fails from the start fails like it, and changes nothing. -/
theorem pollCycle_of_failed {halt : Halt} (hne : t.resolved.isEmpty = false)
    (hfetch : (env.fetch t.requests w).1 = ⟨[], .error halt⟩) :
    t.pollCycle env w = (.error halt, t, (env.fetch t.requests w).2) := by
  rcases hfetched : env.fetch t.requests w with ⟨d, w₁⟩
  obtain rfl : d = ⟨[], .error halt⟩ := by rw [← hfetch, hfetched]
  rw [pollCycle, hne]
  simp only [Bool.false_eq_true, if_false, hfetched, Intake.receive, Intake.acceptAll]
  rfl

/-- A cycle whose answer came as a whole draws its conclusions. -/
theorem pollCycle_of_ok (hne : t.resolved.isEmpty = false) (hfetch : env.fetch t.requests w = (d, w₁))
    (hall : Intake.acceptAll env t.settings.subscriber d.elements (.start t.resolved) w₁
      = (.ok (), i, w₂)) (hending : d.ending = .ok ()) :
    t.pollCycle env w = ((t.conclude i).1.mapError .failure, (t.conclude i).2, w₂) := by
  rw [pollCycle, hne]
  simp only [Bool.false_eq_true, if_false, hfetch, Intake.receive, hall, hending]

end Tracking
end TopicRelay.Monitor
