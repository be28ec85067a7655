/-
  The keys of an answer do not know of each other.

  A key has its progress, its count, its place among the missing and the unreadable keys, its topic in
  the log of this side, and its row of offsets.  If no two keys share a topic on either side, and the
  stores keep topics apart (`KeepsApart`), then an element

      of another key    leaves all of that alone (`Accepts.others`)
      of the key        does to it what it would do wherever the key stands the same (`Accepts.again`)

  So what an answer does to a key is what the elements of the key would do alone (`acceptAll_alone`),
  and elements that can be handled key by key can be handled in any order (`acceptAll_together`).

  The crux is that whether an element can be handled depends on its own key only; what a cycle comes
  to, its summary or its error, is then known from the keys one by one (`Alike.intake_eq`).
-/
import Mathlib.Tactic.Choose
import TopicRelay.Proofs.Monitor.Intake

namespace TopicRelay.Monitor

open Wire (TopicMessages)

variable {σ τ ρ : Type}

/-! ## Stores that keep topics apart -/

/-- How to look at the stores of this side topic by topic: at all that a topic of the log is, and at
    all that a row of offsets is. -/
structure Cells (σ τ ρ : Type) where
  log : σ → TopicName → τ
  row : σ → TopicName → SubscriberName → ρ
  payloads : τ → List Bytes
  stored : ρ → Option MessageId

/-- Nothing has become different on this side. -/
structure Cells.Untouched (c : Cells σ τ ρ) (env : Surroundings σ) (w w' : σ) : Prop where
  stop : env.isStopRequested w' = env.isStopRequested w
  log : c.log w' = c.log w
  row : c.row w' = c.row w

/-- Nothing has become different but for a topic of the log and a row. -/
structure Cells.Confined (c : Cells σ τ ρ) (env : Surroundings σ) (localTopic remoteTopic : TopicName)
    (subscriber : SubscriberName) (w w' : σ) : Prop where
  stop : env.isStopRequested w' = env.isStopRequested w
  log : ∀ t, t ≠ localTopic → c.log w' t = c.log w t
  row : ∀ t s, (t ≠ remoteTopic ∨ s ≠ subscriber) → c.row w' t s = c.row w t s

/-- A publication and a commit touch their own topic only, and whether they succeed, and what they
    leave there, depends on nothing else. -/
structure KeepsApart (env : Surroundings σ) (c : Cells σ τ ρ) : Prop where
  arrive : ∀ w, c.Untouched env w (env.arrive w)
  published : ∀ {topic payload w id w'}, env.publish topic payload w = (.ok id, w') →
    env.isStopRequested w' = env.isStopRequested w
    ∧ (∀ t, t ≠ topic → c.log w' t = c.log w t) ∧ c.row w' = c.row w
    ∧ c.payloads (c.log w' topic) = c.payloads (c.log w topic) ++ [payload]
  publishes : ∀ {topic payload w id w' u}, env.publish topic payload w = (.ok id, w') →
    c.log u topic = c.log w topic →
    ∃ id' u', env.publish topic payload u = (.ok id', u') ∧ c.log u' topic = c.log w' topic
  committed : ∀ {topic subscriber id w w'}, env.commit topic subscriber id w = (.ok (), w') →
    env.isStopRequested w' = env.isStopRequested w ∧ c.log w' = c.log w
    ∧ (∀ t s, (t ≠ topic ∨ s ≠ subscriber) → c.row w' t s = c.row w t s)
    ∧ c.stored (c.row w' topic subscriber) = some id
  commits : ∀ {topic subscriber id w w' u}, env.commit topic subscriber id w = (.ok (), w') →
    c.row u topic subscriber = c.row w topic subscriber →
    ∃ u', env.commit topic subscriber id u = (.ok (), u')
      ∧ c.row u' topic subscriber = c.row w' topic subscriber

variable {env : Surroundings σ} {c : Cells σ τ ρ} {subscriber : SubscriberName}

namespace Cells

variable {localTopic remoteTopic : TopicName} {w w' w'' : σ}

theorem Untouched.confined (h : c.Untouched env w w') (localTopic remoteTopic : TopicName)
    (subscriber : SubscriberName) : c.Confined env localTopic remoteTopic subscriber w w' :=
  ⟨h.stop, fun t _ => congrFun h.log t, fun t s _ => congrFun (congrFun h.row t) s⟩

theorem Confined.refl (c : Cells σ τ ρ) (env : Surroundings σ) (localTopic remoteTopic : TopicName)
    (subscriber : SubscriberName) (w : σ) : c.Confined env localTopic remoteTopic subscriber w w :=
  ⟨rfl, fun _ _ => rfl, fun _ _ _ => rfl⟩

theorem Confined.trans (h : c.Confined env localTopic remoteTopic subscriber w w')
    (h' : c.Confined env localTopic remoteTopic subscriber w' w'') :
    c.Confined env localTopic remoteTopic subscriber w w'' :=
  ⟨h'.stop.trans h.stop, fun t ht => (h'.log t ht).trans (h.log t ht),
    fun t s hts => (h'.row t s hts).trans (h.row t s hts)⟩

/-- The messages of a key were relayed: they are in the log, and if the key was as far as is stored, then
    it still is. -/
structure Relayed (c : Cells σ τ ρ) (subscriber : SubscriberName) (p : TopicProgress)
    (ms : List Message) (w w' : σ) : Prop where
  log : c.payloads (c.log w' p.localTopic) = c.payloads (c.log w p.localTopic) ++ ms.map (·.payload)
  row : (∀ id, p.lastMessageId = some id → c.stored (c.row w p.remoteTopic subscriber) = some id) →
    c.stored (c.row w' p.remoteTopic subscriber)
      = lastOf (c.stored (c.row w p.remoteTopic subscriber)) ms

theorem Relayed.trans {p : TopicProgress} {ms ms' : List Message}
    (h : c.Relayed subscriber p ms w w') (h' : c.Relayed subscriber (p.past ms) ms' w' w'') :
    c.Relayed subscriber p (ms ++ ms') w w'' := by
  refine ⟨?_, fun hsync => ?_⟩
  · have hlog : c.payloads (c.log w'' p.localTopic)
        = c.payloads (c.log w' p.localTopic) ++ ms'.map (·.payload) := h'.log
    rw [hlog, h.log, List.append_assoc, List.map_append]
  · have hrow := h.row hsync
    rw [lastOf_append, ← hrow]
    refine h'.row fun id hid => ?_
    show c.stored (c.row w' p.remoteTopic subscriber) = some id
    rw [hrow]
    rw [TopicProgress.past, lastOf, Option.or_eq_some_iff] at hid
    rw [lastOf, Option.or_eq_some_iff]
    exact hid.imp_right (And.imp_right (hsync id))

end Cells

namespace Intake

variable {p : TopicProgress} {e : TopicMessages} {i i' j : Intake} {w w' u : σ}

/-! ## Publishing and committing apart from other topics -/

section Stores

variable (hkeeps : KeepsApart env c)

include hkeeps

theorem publishAll_apart {topic : TopicName} {ms : List Message}
    (h : publishAll env topic ms w = (.ok (), w')) :
    env.isStopRequested w' = env.isStopRequested w ∧ (∀ t, t ≠ topic → c.log w' t = c.log w t)
      ∧ c.row w' = c.row w
      ∧ c.payloads (c.log w' topic) = c.payloads (c.log w topic) ++ ms.map (·.payload) := by
  induction ms generalizing w with
  | nil =>
    cases h
    exact ⟨rfl, fun _ _ => rfl, rfl, (List.append_nil _).symm⟩
  | cons m ms ih =>
    rw [publishAll] at h
    split at h
    · cases h
    · next id w₁ hpublish =>
      obtain ⟨hstop, hothers, hrow, hself⟩ := hkeeps.published hpublish
      obtain ⟨hstop', hothers', hrow', hself'⟩ := ih h
      refine ⟨hstop'.trans hstop, fun t ht => (hothers' t ht).trans (hothers t ht), hrow'.trans hrow, ?_⟩
      rw [hself', hself, List.append_assoc, List.map_cons, List.singleton_append]

theorem publishAll_again {topic : TopicName} {ms : List Message}
    (h : publishAll env topic ms w = (.ok (), w')) (hsame : c.log u topic = c.log w topic) :
    ∃ u', publishAll env topic ms u = (.ok (), u') ∧ c.log u' topic = c.log w' topic := by
  induction ms generalizing w u with
  | nil =>
    cases h
    exact ⟨u, rfl, hsame⟩
  | cons m ms ih =>
    rw [publishAll] at h
    split at h
    · cases h
    · next id w₁ hpublish =>
      obtain ⟨id', u₁, hagain, hsame₁⟩ := hkeeps.publishes hpublish hsame
      obtain ⟨u', hrest, hsame'⟩ := ih h hsame₁
      refine ⟨u', ?_, hsame'⟩
      rw [publishAll, hagain]
      exact hrest

/-- An element touches the topics of its key only. -/
theorem Accepts.confined (h : Accepts env subscriber e i w i' w') (hp : i.resolved.get? e.topic = some p) :
    c.Confined env p.localTopic p.remoteTopic subscriber w w' := by
  have hpublished : ∀ {w₁}, publishAll env p.localTopic e.messages w = (.ok (), w₁) →
      c.Confined env p.localTopic p.remoteTopic subscriber w w₁ := by
    intro w₁ hpublish
    obtain ⟨hstop, hothers, hrow, -⟩ := publishAll_apart hkeeps hpublish
    exact ⟨hstop, hothers, fun t s _ => congrFun (congrFun hrow t) s⟩
  cases h with
  | noted => exact .refl c env _ _ _ _
  | published goes asked sound publish done =>
    obtain rfl := Option.some.inj (asked.symm.trans hp)
    exact hpublished publish
  | committed goes asked sound publish last new commit =>
    obtain rfl := Option.some.inj (asked.symm.trans hp)
    obtain ⟨hstop, hlog, hothers, -⟩ := hkeeps.committed commit
    exact (hpublished publish).trans ⟨hstop, fun t _ => congrFun hlog t, hothers⟩

end Stores

/-! ## Keys that stand the same -/

/-- A key stands the same in two states: so do its topics, as far as this side goes. -/
structure Alike (c : Cells σ τ ρ) (subscriber : SubscriberName) (key : TopicKey) (i : Intake) (w : σ)
    (j : Intake) (u : σ) : Prop where
  progress : j.resolved.get? key = i.resolved.get? key
  received : j.received.get? key = i.received.get? key
  notFound : j.notFound.get? key = i.notFound.get? key
  unreadable : j.unreadable.get? key = i.unreadable.get? key
  log : ∀ p, i.resolved.get? key = some p → c.log u p.localTopic = c.log w p.localTopic
  row : ∀ p, i.resolved.get? key = some p →
    c.row u p.remoteTopic subscriber = c.row w p.remoteTopic subscriber

theorem Alike.refl (c : Cells σ τ ρ) (subscriber : SubscriberName) (key : TopicKey) (i : Intake) (w : σ) :
    Alike c subscriber key i w i w :=
  ⟨rfl, rfl, rfl, rfl, fun _ _ => rfl, fun _ _ => rfl⟩

theorem Alike.symm {key : TopicKey} (h : Alike c subscriber key i w j u) :
    Alike c subscriber key j u i w :=
  ⟨h.progress.symm, h.received.symm, h.notFound.symm, h.unreadable.symm,
    fun p hp => (h.log p (h.progress ▸ hp)).symm, fun p hp => (h.row p (h.progress ▸ hp)).symm⟩

theorem Alike.trans {key : TopicKey} {k : Intake} {v : σ} (h : Alike c subscriber key i w j u)
    (h' : Alike c subscriber key j u k v) : Alike c subscriber key i w k v :=
  ⟨h'.progress.trans h.progress, h'.received.trans h.received, h'.notFound.trans h.notFound,
    h'.unreadable.trans h.unreadable,
    fun p hp => (h'.log p (h.progress.trans hp)).trans (h.log p hp),
    fun p hp => (h'.row p (h.progress.trans hp)).trans (h.row p hp)⟩

theorem Alike.of_untouched {key : TopicKey} (h : c.Untouched env w u) :
    Alike c subscriber key i w i u :=
  ⟨rfl, rfl, rfl, rfl, fun p _ => congrFun h.log p.localTopic,
    fun p _ => congrFun (congrFun h.row p.remoteTopic) subscriber⟩

/-- **Nothing else is seen of an answer**: if all keys stand the same, so does all of it. -/
theorem Alike.intake_eq (h : ∀ key, Alike c subscriber key i w j u) : j = i := by
  obtain ⟨resolved, received, notFound, unreadable⟩ := i
  obtain ⟨resolved', received', notFound', unreadable'⟩ := j
  obtain rfl := SortedMap.ext_get? fun key => (h key).progress
  obtain rfl := SortedMap.ext_get? fun key => (h key).received
  obtain rfl := SortedMap.ext_get? fun key => (h key).notFound
  obtain rfl := SortedMap.ext_get? fun key => (h key).unreadable
  rfl

/-- No two keys share a topic, on either side. -/
def NoneShared (resolved : SortedMap TopicProgress) : Prop :=
  ∀ key key' p p', resolved.get? key = some p → resolved.get? key' = some p' → key ≠ key' →
    p.localTopic ≠ p'.localTopic ∧ p.remoteTopic ≠ p'.remoteTopic

/-- Only the topics count for that. -/
theorem NoneShared.of_topics {resolved resolved' : SortedMap TopicProgress} (h : NoneShared resolved)
    (htopics : topics resolved' = topics resolved) : NoneShared resolved' := by
  intro key key' p p' hp hp' hne
  obtain ⟨q, hq, hremote, hlocal⟩ := exists_of_topics htopics hp
  obtain ⟨q', hq', hremote', hlocal'⟩ := exists_of_topics htopics hp'
  rw [hremote, hlocal, hremote', hlocal']
  exact h key key' q q' hq hq' hne

theorem note_eq_of_ne {key : TopicKey} (hne : key ≠ e.topic) :
    (i.note e).resolved = i.resolved ∧ (i.note e).received = i.received
      ∧ (i.note e).notFound.get? key = i.notFound.get? key
      ∧ (i.note e).unreadable.get? key = i.unreadable.get? key := by
  rw [note]
  split
  · exact ⟨rfl, rfl, SortedMap.get?_insert_ne _ hne _, rfl⟩
  · exact ⟨rfl, rfl, rfl, SortedMap.get?_insert_ne _ hne _⟩

/-- **An element of another key.** -/
theorem Accepts.others (hkeeps : KeepsApart env c) (h : Accepts env subscriber e i w i' w')
    (hnone : NoneShared i.resolved) {key : TopicKey} (hne : key ≠ e.topic) :
    Alike c subscriber key i w i' w' := by
  obtain ⟨q, hq⟩ := h.asked
  have hconfined := h.confined hkeeps hq
  have hlog : ∀ p, i.resolved.get? key = some p → c.log w' p.localTopic = c.log w p.localTopic :=
    fun p hp => hconfined.log _ (hnone key e.topic p q hp hq hne).1
  have hrow : ∀ p, i.resolved.get? key = some p →
      c.row w' p.remoteTopic subscriber = c.row w p.remoteTopic subscriber :=
    fun p hp => hconfined.row _ _ (Or.inl (hnone key e.topic p q hp hq hne).2)
  cases h with
  | noted =>
    obtain ⟨hresolved, hreceived, hnotFound, hunreadable⟩ := note_eq_of_ne (i := i) hne
    exact ⟨by rw [hresolved], by rw [hreceived], hnotFound, hunreadable, hlog, hrow⟩
  | published =>
    exact ⟨rfl, SortedMap.get?_insert_ne _ hne _, rfl, rfl, hlog, hrow⟩
  | committed =>
    exact ⟨SortedMap.get?_insert_ne _ hne _, SortedMap.get?_insert_ne _ hne _, rfl, rfl, hlog, hrow⟩

/-- **An element of the key itself**, wherever the key stands the same. -/
theorem Accepts.again (hkeeps : KeepsApart env c) (h : Accepts env subscriber e i w i' w')
    (halike : Alike c subscriber e.topic i w j u) (hstop : env.isStopRequested u = env.isStopRequested w) :
    ∃ j' u', Accepts env subscriber e j u j' u' ∧ Alike c subscriber e.topic i' w' j' u' := by
  have hgoes : env.isStopRequested u = false := hstop.trans h.goes
  have hcount : ∀ n, (j.received.get? e.topic).getD 0 + n = (i.received.get? e.topic).getD 0 + n :=
    fun n => by rw [halike.received]
  cases h with
  | @noted p goes asked error =>
    refine ⟨j.note e, u, .noted hgoes (halike.progress.trans asked) error, ?_⟩
    rw [note, note]
    split
    · refine ⟨halike.progress, halike.received, ?_, halike.unreadable, halike.log, halike.row⟩
      exact (SortedMap.get?_insert_self _ _ _).trans (SortedMap.get?_insert_self _ _ _).symm
    · refine ⟨halike.progress, halike.received, halike.notFound, ?_, halike.log, halike.row⟩
      exact (SortedMap.get?_insert_self _ _ _).trans (SortedMap.get?_insert_self _ _ _).symm
  | @published p w' goes asked sound publish done =>
    obtain ⟨u', hpublish, hlog⟩ := publishAll_again hkeeps publish (halike.log p asked)
    obtain ⟨-, -, hrow, -⟩ := publishAll_apart hkeeps publish
    obtain ⟨-, -, hrow', -⟩ := publishAll_apart hkeeps hpublish
    refine ⟨_, u', .published hgoes (halike.progress.trans asked) sound hpublish done,
      halike.progress, ?_, halike.notFound, halike.unreadable, ?_, ?_⟩
    · rw [count, count, SortedMap.get?_insert_self, SortedMap.get?_insert_self, hcount]
    · intro q hq
      obtain rfl := Option.some.inj (asked.symm.trans hq)
      exact hlog
    · intro q hq
      rw [hrow, hrow']
      exact halike.row q hq
  | @committed p id w₁ w' goes asked sound publish last new commit =>
    obtain ⟨u₁, hpublish, hlog⟩ := publishAll_again hkeeps publish (halike.log p asked)
    obtain ⟨-, -, hrow, -⟩ := publishAll_apart hkeeps publish
    obtain ⟨-, -, hrow', -⟩ := publishAll_apart hkeeps hpublish
    obtain ⟨u', hcommit, hstored⟩ := hkeeps.commits (u := u₁) commit
      (by rw [hrow, hrow']; exact halike.row p asked)
    obtain ⟨-, hkept, -, -⟩ := hkeeps.committed commit
    obtain ⟨-, hkept', -, -⟩ := hkeeps.committed hcommit
    have hself : ∀ k : Intake, ((k.advance e.topic p id).count e.topic e.messages.length).resolved.get? e.topic
        = some { p with lastMessageId := some id } := fun k => SortedMap.get?_insert_self _ _ _
    refine ⟨_, u', .committed hgoes (halike.progress.trans asked) sound hpublish last new hcommit,
      by rw [hself, hself], ?_, halike.notFound, halike.unreadable, ?_, ?_⟩
    · show (SortedMap.insert _ _ _).get? _ = (SortedMap.insert _ _ _).get? _
      rw [SortedMap.get?_insert_self, SortedMap.get?_insert_self]
      exact congrArg some (hcount _)
    · intro q hq
      obtain rfl := Option.some.inj ((hself i).symm.trans hq)
      rw [hkept, hkept']
      exact hlog
    · intro q hq
      obtain rfl := Option.some.inj ((hself i).symm.trans hq)
      exact hstored

/-! ## Answers -/

/-- A stop that was not requested before an element is not requested after it. -/
theorem Accepts.stop (hkeeps : KeepsApart env c) (h : Accepts env subscriber e i w i' w') :
    env.isStopRequested w' = env.isStopRequested w := by
  obtain ⟨p, hp⟩ := h.asked
  exact (h.confined hkeeps hp).stop

/-- The element of a key, when it is the next one of an answer. -/
theorem Accepts.again_next (hkeeps : KeepsApart env c)
    (h : Accepts env subscriber e i (env.arrive w) i' w') (halike : Alike c subscriber e.topic i w j u)
    (hstop : env.isStopRequested u = env.isStopRequested w) :
    ∃ j' u', Accepts env subscriber e j (env.arrive u) j' u' ∧ Alike c subscriber e.topic i' w' j' u'
      ∧ env.isStopRequested u' = env.isStopRequested w' := by
  have harrived : Alike c subscriber e.topic i (env.arrive w) j (env.arrive u) :=
    ((Alike.of_untouched (hkeeps.arrive w)).symm.trans halike).trans (.of_untouched (hkeeps.arrive u))
  have hboth : env.isStopRequested (env.arrive u) = env.isStopRequested (env.arrive w) := by
    rw [(hkeeps.arrive u).stop, (hkeeps.arrive w).stop, hstop]
  obtain ⟨j', u', hagain, halike'⟩ := h.again hkeeps harrived hboth
  exact ⟨j', u', hagain, halike', by rw [hagain.stop hkeeps, hboth, h.stop hkeeps]⟩

/-- The element of another key, when it is the next one of an answer. -/
theorem Accepts.others_next (hkeeps : KeepsApart env c)
    (h : Accepts env subscriber e i (env.arrive w) i' w') (hnone : NoneShared i.resolved)
    {key : TopicKey} (hne : e.topic ≠ key) :
    Alike c subscriber key i w i' w' ∧ env.isStopRequested w' = env.isStopRequested w :=
  ⟨(Alike.of_untouched (hkeeps.arrive w)).trans (h.others hkeeps hnone (Ne.symm hne)),
    (h.stop hkeeps).trans (hkeeps.arrive w).stop⟩

/-- **A key alone.**  What an answer does to a key, the elements of the key would do alone. -/
theorem acceptAll_alone (hkeeps : KeepsApart env c) {es : List TopicMessages}
    (h : acceptAll env subscriber es i w = (.ok (), i', w')) (hnone : NoneShared i.resolved) {key : TopicKey}
    (halike : Alike c subscriber key i w j u) (hstop : env.isStopRequested u = env.isStopRequested w) :
    ∃ j' u', acceptAll env subscriber (es.filter fun e => e.topic = key) j u = (.ok (), j', u')
      ∧ Alike c subscriber key i' w' j' u' := by
  induction es generalizing i w j u with
  | nil =>
    cases h
    exact ⟨j, u, rfl, halike⟩
  | cons e es ih =>
    obtain ⟨i₁, w₁, haccepts, hrest⟩ := acceptAll_cons_ok_iff.mp h
    have hnone₁ : NoneShared i₁.resolved := hnone.of_topics (accept_topics haccepts.ok)
    by_cases hkey : e.topic = key
    · subst hkey
      obtain ⟨j₁, u₁, hagain, halike₁, hstop₁⟩ := haccepts.again_next hkeeps halike hstop
      obtain ⟨j', u', hall, halike'⟩ := ih hrest hnone₁ halike₁ hstop₁
      refine ⟨j', u', ?_, halike'⟩
      rw [List.filter_cons_of_pos (by simp)]
      exact acceptAll_cons_ok_iff.mpr ⟨j₁, u₁, hagain, hall⟩
    · obtain ⟨hothers, hstop₁⟩ := haccepts.others_next hkeeps hnone hkey
      obtain ⟨j', u', hall, halike'⟩ :=
        ih hrest hnone₁ (hothers.symm.trans halike) (hstop.trans hstop₁.symm)
      refine ⟨j', u', ?_, halike'⟩
      rw [List.filter_cons_of_neg (by simpa using hkey)]
      exact hall

/-- **All keys together.**  Elements that can be handled key by key, each key from where it stands, can
    be handled in the order in which they come, and every key gets where it got alone. -/
theorem acceptAll_together (hkeeps : KeepsApart env c) {es : List TopicMessages}
    {final : TopicKey → Intake × σ} (hnone : NoneShared j.resolved)
    (h : ∀ key, ∃ i w, Alike c subscriber key i w j u
      ∧ env.isStopRequested u = env.isStopRequested w
      ∧ acceptAll env subscriber (es.filter fun e => e.topic = key) i w = (.ok (), final key)) :
    ∃ j' u', acceptAll env subscriber es j u = (.ok (), j', u')
      ∧ ∀ key, Alike c subscriber key (final key).1 (final key).2 j' u' := by
  induction es generalizing j u with
  | nil =>
    refine ⟨j, u, rfl, fun key => ?_⟩
    obtain ⟨i, w, halike, -, hall⟩ := h key
    have hfinal : (i, w) = final key := congrArg Prod.snd hall
    rw [← hfinal]
    exact halike
  | cons e es ih =>
    obtain ⟨i, w, halike, hstop, hall⟩ := h e.topic
    rw [List.filter_cons_of_pos (by simp)] at hall
    obtain ⟨i₁, w₁, haccepts, hrest⟩ := acceptAll_cons_ok_iff.mp hall
    obtain ⟨j₁, u₁, hagain, halike₁, hstop₁⟩ := haccepts.again_next hkeeps halike hstop
    obtain ⟨j', u', hall', hfinal⟩ := ih (hnone.of_topics (accept_topics hagain.ok)) fun key => by
      by_cases hkey : e.topic = key
      · subst hkey
        exact ⟨i₁, w₁, halike₁, hstop₁, hrest⟩
      · obtain ⟨k, v, halike, hstop, hall⟩ := h key
        obtain ⟨hothers, hstop₂⟩ := hagain.others_next hkeeps hnone hkey
        rw [List.filter_cons_of_neg (by simpa using hkey)] at hall
        exact ⟨k, v, halike.trans hothers, hstop₂.trans hstop, hall⟩
    exact ⟨j', u', acceptAll_cons_ok_iff.mpr ⟨j₁, u₁, hagain, hall'⟩, hfinal⟩

/-- Topics and rows of no key stay as they are. -/
theorem acceptAll_elsewhere (hkeeps : KeepsApart env c) {es : List TopicMessages}
    (h : acceptAll env subscriber es i w = (.ok (), i', w')) :
    (∀ t, (∀ key p, i.resolved.get? key = some p → t ≠ p.localTopic) → c.log w' t = c.log w t)
      ∧ ∀ t s, (∀ key p, i.resolved.get? key = some p → t ≠ p.remoteTopic ∨ s ≠ subscriber) →
        c.row w' t s = c.row w t s := by
  induction es generalizing i w with
  | nil =>
    cases h
    exact ⟨fun _ _ => rfl, fun _ _ _ => rfl⟩
  | cons e es ih =>
    obtain ⟨i₁, w₁, haccepts, hrest⟩ := acceptAll_cons_ok_iff.mp h
    obtain ⟨q, hq⟩ := haccepts.asked
    have hconfined := ((hkeeps.arrive w).confined _ _ subscriber).trans (haccepts.confined hkeeps hq)
    obtain ⟨hlog, hrow⟩ := ih hrest
    have htopics := accept_topics haccepts.ok
    refine ⟨fun t ht => ?_, fun t s hts => ?_⟩
    · rw [hlog t fun key p hp => ?_, hconfined.log t (ht _ q hq)]
      obtain ⟨p₀, hp₀, -, hlocal⟩ := exists_of_topics htopics hp
      rw [hlocal]
      exact ht key p₀ hp₀
    · rw [hrow t s fun key p hp => ?_, hconfined.row t s (hts _ q hq)]
      obtain ⟨p₀, hp₀, hremote, -⟩ := exists_of_topics htopics hp
      rw [hremote]
      exact hts key p₀ hp₀

/-! ## What becomes of a key -/

/-- The messages of a key in an element, if that reports no error. -/
def soundIn (key : TopicKey) (e : TopicMessages) : List Message :=
  if e.topic = key ∧ e.error = none then e.messages else []

/-- The messages of a key in an answer. -/
def soundOf (key : TopicKey) (es : List TopicMessages) : List Message := es.flatMap (soundIn key)

theorem lastOf_eq_self {last : Option MessageId}
    (h : ∀ id, e.lastMessageId? = some id → last = some id) : lastOf last e.messages = last := by
  rw [lastOf]
  cases hlast : e.messages.getLast? with
  | none => rfl
  | some m =>
    refine (h m.id ?_).symm
    rw [TopicMessages.lastMessageId?, hlast]
    rfl

theorem lastOf_eq_of_lastMessageId? {id : MessageId} (h : e.lastMessageId? = some id)
    (last : Option MessageId) : lastOf last e.messages = some id := by
  rw [lastOf, show e.messages.getLast?.map (·.id) = some id from h]
  rfl

/-- An element relays its messages, and nothing of other keys. -/
theorem Accepts.relays (hkeeps : KeepsApart env c) (h : Accepts env subscriber e i w i' w')
    (hnone : NoneShared i.resolved) {key : TopicKey} (hp : i.resolved.get? key = some p) :
    i'.resolved.get? key = some (p.past (soundIn key e))
      ∧ c.Relayed subscriber p (soundIn key e) w w' := by
  by_cases hkey : e.topic = key
  · subst hkey
    cases h with
    | noted goes asked error =>
      have hreported : ¬(e.topic = e.topic ∧ e.error = none) := by
        rintro ⟨-, hsound⟩
        rw [hsound] at error
        cases error
      rw [soundIn, if_neg hreported, resolved_note]
      exact ⟨hp, (List.append_nil _).symm, fun _ => rfl⟩
    | published goes asked sound publish done =>
      obtain rfl := Option.some.inj (asked.symm.trans hp)
      obtain ⟨-, -, hrow, hlog⟩ := publishAll_apart hkeeps publish
      rw [soundIn, if_pos ⟨rfl, sound⟩]
      refine ⟨?_, hlog, fun hsync => ?_⟩
      · rw [TopicProgress.past, lastOf_eq_self done]
        exact asked
      · rw [hrow, lastOf_eq_self fun id hid => hsync id (done id hid)]
    | committed goes asked sound publish last new commit =>
      obtain rfl := Option.some.inj (asked.symm.trans hp)
      obtain ⟨-, -, -, hlog⟩ := publishAll_apart hkeeps publish
      obtain ⟨-, hkept, -, hstored⟩ := hkeeps.committed commit
      rw [soundIn, if_pos ⟨rfl, sound⟩]
      refine ⟨?_, by rw [hkept]; exact hlog, fun _ => ?_⟩
      · rw [TopicProgress.past, lastOf_eq_of_lastMessageId? last]
        exact SortedMap.get?_insert_self _ _ _
      · rw [hstored, lastOf_eq_of_lastMessageId? last]
  · have hothers := h.others hkeeps hnone (Ne.symm hkey)
    rw [soundIn, if_neg fun hc => hkey hc.1, hothers.progress]
    refine ⟨hp, ?_, fun _ => ?_⟩
    · rw [hothers.log p hp, List.map_nil, List.append_nil]
    · rw [hothers.row p hp, lastOf_nil]

/-- **What becomes of a key**: its messages are relayed, whatever is reported of the others. -/
theorem acceptAll_relays (hkeeps : KeepsApart env c) {es : List TopicMessages}
    (h : acceptAll env subscriber es i w = (.ok (), i', w')) (hnone : NoneShared i.resolved) {key : TopicKey}
    (hp : i.resolved.get? key = some p) :
    i'.resolved.get? key = some (p.past (soundOf key es))
      ∧ c.Relayed subscriber p (soundOf key es) w w' := by
  induction es generalizing i w p with
  | nil =>
    cases h
    exact ⟨hp, (List.append_nil _).symm, fun _ => rfl⟩
  | cons e es ih =>
    obtain ⟨i₁, w₁, haccepts, hrest⟩ := acceptAll_cons_ok_iff.mp h
    obtain ⟨hp₁, hrelayed₁⟩ := haccepts.relays hkeeps hnone hp
    obtain ⟨hp', hrelayed'⟩ := ih hrest (hnone.of_topics (accept_topics haccepts.ok)) hp₁
    have harrived : c.Relayed subscriber p [] w (env.arrive w) := by
      obtain ⟨-, hlog, hrow⟩ := hkeeps.arrive w
      exact ⟨by rw [hlog, List.map_nil, List.append_nil], fun _ => by rw [hrow, lastOf_nil]⟩
    rw [TopicProgress.past_append] at hp'
    exact ⟨hp', harrived.trans (hrelayed₁.trans hrelayed')⟩

/-! ## The order of keys -/

/-- The topics and rows of the keys are as the keys are, and all others are as they were. -/
theorem stores_eq_of_alike (hkeeps : KeepsApart env c) {es es' : List TopicMessages} {j' : Intake} {u' : σ}
    (h : acceptAll env subscriber es i w = (.ok (), i', w'))
    (h' : acceptAll env subscriber es' i u = (.ok (), j', u')) (hsame : c.Untouched env w u)
    (hkeys : ∀ key, Alike c subscriber key i' w' j' u') :
    c.log u' = c.log w' ∧ c.row u' = c.row w' := by
  obtain ⟨hlog, hrow⟩ := acceptAll_elsewhere hkeeps h
  obtain ⟨hlog', hrow'⟩ := acceptAll_elsewhere hkeeps h'
  have htopics := (acceptAll_topics h).symm
  constructor
  · funext t
    by_cases howned : ∃ key p, i.resolved.get? key = some p ∧ t = p.localTopic
    · obtain ⟨key, p, hp, rfl⟩ := howned
      obtain ⟨p', hp', -, hlocal⟩ := exists_of_topics htopics hp
      rw [hlocal]
      exact (hkeys key).log p' hp'
    · have hforeign : ∀ key p, i.resolved.get? key = some p → t ≠ p.localTopic :=
        fun key p hp ht => howned ⟨key, p, hp, ht⟩
      rw [hlog' t hforeign, hlog t hforeign, hsame.log]
  · funext t s
    by_cases howned : ∃ key p, i.resolved.get? key = some p ∧ t = p.remoteTopic ∧ s = subscriber
    · obtain ⟨key, p, hp, rfl, rfl⟩ := howned
      obtain ⟨p', hp', hremote, -⟩ := exists_of_topics htopics hp
      rw [hremote]
      exact (hkeys key).row p' hp'
    · have hforeign : ∀ key p, i.resolved.get? key = some p → t ≠ p.remoteTopic ∨ s ≠ subscriber := by
        intro key p hp
        by_cases ht : t = p.remoteTopic
        · exact Or.inr fun hs => howned ⟨key, p, hp, ht, hs⟩
        · exact Or.inl ht
      rw [hrow' t s hforeign, hrow t s hforeign, hsame.row]

/-- **The order of keys does not matter.**  Elements with the same part for each key leave the same
    intake, the same log and the same offsets. -/
theorem acceptAll_reordered (hkeeps : KeepsApart env c) {es es' : List TopicMessages}
    (h : acceptAll env subscriber es i w = (.ok (), i', w')) (hnone : NoneShared i.resolved)
    (hsame : c.Untouched env w u)
    (hparts : ∀ key, (es'.filter fun e => e.topic = key) = es.filter fun e => e.topic = key) :
    ∃ u', acceptAll env subscriber es' i u = (.ok (), i', u') ∧ c.log u' = c.log w'
      ∧ c.row u' = c.row w' := by
  have halone : ∀ key, ∃ x : Intake × σ,
      acceptAll env subscriber (es.filter fun e => e.topic = key) i w = (.ok (), x)
        ∧ Alike c subscriber key i' w' x.1 x.2 := by
    intro key
    obtain ⟨j', u', hall, halike⟩ := acceptAll_alone hkeeps h hnone (.refl c subscriber key i w) rfl
    exact ⟨(j', u'), hall, halike⟩
  choose final hfinal halike using halone
  have hall : ∀ key, ∃ i₀ w₀, Alike c subscriber key i₀ w₀ i u
      ∧ env.isStopRequested u = env.isStopRequested w₀
      ∧ acceptAll env subscriber (es'.filter fun e => e.topic = key) i₀ w₀ = (.ok (), final key) := by
    intro key
    rw [hparts key]
    exact ⟨i, w, .of_untouched hsame, hsame.stop, hfinal key⟩
  obtain ⟨j', u', hall, htogether⟩ := acceptAll_together hkeeps hnone hall
  have hkeys : ∀ key, Alike c subscriber key i' w' j' u' := fun key => (halike key).trans (htogether key)
  have hstores := stores_eq_of_alike hkeeps h hall hsame hkeys
  obtain rfl := Alike.intake_eq hkeys
  exact ⟨u', hall, hstores⟩

end Intake
end TopicRelay.Monitor
