/-
  A world in which the faults are laid down in advance.

  The remote is an endpoint with a log in memory; its answers break off after given numbers of
  elements.  On this side the publications, loads and commits with given numbers fail.  Whatever is
  laid down, such a world is faithful: its faults are faults, and nothing that succeeds is wrong.
-/
import TopicRelay.Log.Faulty
import TopicRelay.Monitor.Client
import TopicRelay.Offset.Faulty
import TopicRelay.Proofs.Endpoint.Elements
import TopicRelay.Proofs.Log.Memory
import TopicRelay.Proofs.Monitor.Faithful
import TopicRelay.Proofs.Offset.Memory

namespace TopicRelay

/-! ## Logs and offsets that fail -/

/-- A publication that fails changes no log; one that succeeds adds its payload to its topic. -/
theorem FaultyLog.publish_spec (l : FaultyLog) (topic : TopicName) (payload : Bytes) :
    (∀ {e l'}, l.publish topic payload = (.error e, l') → l'.log = l.log)
    ∧ ∀ {id l'}, l.publish topic payload = (.ok id, l') →
      l'.log.payloads topic = l.log.payloads topic ++ [payload]
      ∧ ∀ t, t ≠ topic → l'.log.payloads t = l.log.payloads t := by
  rw [publish]
  refine ⟨fun {e l'} h => ?_, fun {id l'} h => ?_⟩
  · simp only at h
    split at h
    · cases h; rfl
    · split at h
      · cases h; rfl
      · cases h
  · simp only at h
    split at h
    · cases h
    · split at h
      · cases h
      · next id' log' hpublish =>
        cases h
        obtain ⟨-, hself, hother, -, -⟩ := MemoryLog.publish_ok hpublish
        refine ⟨?_, fun t ht => ?_⟩
        · rw [MemoryLog.payloads, MemoryLog.payloads, hself, List.map_append]; rfl
        · rw [MemoryLog.payloads, MemoryLog.payloads, hother t ht]

/-- A commit that fails changes no offset; one that succeeds changes its own. -/
theorem FaultyOffsets.put_spec (o : FaultyOffsets) (now : UInt64) (topic : TopicName)
    (subscriber : SubscriberName) (id : MessageId) :
    (∀ {e o'}, o.put now topic subscriber id = (.error e, o') → o'.offsets = o.offsets)
    ∧ ∀ {o'}, o.put now topic subscriber id = (.ok (), o') →
      o'.offsets = o.offsets.put now topic subscriber id := by
  rw [put]
  refine ⟨fun {e o'} h => ?_, fun {o'} h => ?_⟩
  · simp only at h
    split at h <;> cases h
    rfl
  · simp only at h
    split at h <;> cases h
    rfl

/-- A load changes no offset, and gives the one that is stored or fails. -/
theorem FaultyOffsets.get_spec (o : FaultyOffsets) (topic : TopicName) (subscriber : SubscriberName) :
    (o.get topic subscriber).2.offsets = o.offsets
    ∧ ∀ {last o'}, o.get topic subscriber = (.ok last, o') → last = o.offsets.get topic subscriber := by
  rw [get]
  refine ⟨rfl, fun {last o'} h => ?_⟩
  rw [Prod.mk.injEq] at h
  obtain ⟨hresult, -⟩ := h
  split at hresult
  · cases hresult
  · cases hresult; rfl

namespace Rehearsal

open Monitor (Delivery Faithful Surroundings View)
open Wire (Answers ConsumeRequests)

/-! ## The world -/

/-- What the remote has, and the faults that are still to come. -/
structure Trial where
  remote : MemoryLog
  ascending : ∀ topic, Log.Ascending (remote.messages topic)
  /-- After how many elements each answer breaks off, from the next one on; one without a number is
      whole, and so are all that nothing is laid down for. -/
  breaks : List (Option Nat)
  own : FaultyLog
  offsets : FaultyOffsets

namespace Trial

/-- An answer, as far as it comes. -/
def fetch (resolver : Endpoint.Resolver) (maxPerRead : Nat) (requests : ConsumeRequests) (w : Trial) :
    Delivery × Trial :=
  let elements := Endpoint.answerOf resolver w.remote maxPerRead requests
  let rest := { w with breaks := w.breaks.tail }
  match w.breaks.head?.join with
  | none => (⟨elements, .ok ()⟩, rest)
  | some n => (⟨elements.take n, .error (.failure Monitor.Client.brokenOff)⟩, rest)

/-- The world as a monitor sees it, with an endpoint that knows some topics at the other side. -/
def surroundings (resolver : Endpoint.Resolver) (maxPerRead : Nat) : Surroundings Trial where
  isStopRequested _ := false
  isDeserted _ := false
  enter _ w := w
  resolve keys w := (.ok (resolver.resolveAll keys), w)
  fetch := fetch resolver maxPerRead
  arrive w := w
  shutdown _ w := w
  publish topic payload w :=
    ((w.own.publish topic payload).1, { w with own := (w.own.publish topic payload).2 })
  offset topic subscriber w :=
    ((w.offsets.get topic subscriber).1, { w with offsets := (w.offsets.get topic subscriber).2 })
  commit topic subscriber id w :=
    ((w.offsets.put 0 topic subscriber id).1,
      { w with offsets := (w.offsets.put 0 topic subscriber id).2 })
  draw _ w := (0, w)
  wait _ w := (true, w)

/-- Nothing is laid down to fail but publications. -/
structure OnlyPublicationsFail (w : Trial) : Prop where
  breaks : w.breaks = []
  loads : w.offsets.brokenLoads = []
  commits : w.offsets.brokenCommits = []

/-- How to look into it. -/
def view : View Trial where
  remote w := w.remote.messages
  own w := w.own.log.payloads
  offset w := w.offsets.offsets.get

/-- Nothing that can be seen has changed. -/
theorem idle_of_eq {w w' : Trial} (hremote : w'.remote = w.remote) (hown : w'.own.log = w.own.log)
    (hoffsets : w'.offsets.offsets = w.offsets.offsets) : view.Idle w w' := by
  refine ⟨fun t => ?_, fun t => ?_, fun t s => ?_⟩
  · show w.remote.messages t <+: w'.remote.messages t
    exact hremote ▸ List.prefix_refl _
  · show w.own.log.payloads t <+: w'.own.log.payloads t
    exact hown ▸ List.prefix_refl _
  · show w'.offsets.offsets.get t s = w.offsets.offsets.get t s
    rw [hoffsets]

theorem fetch_spec (resolver : Endpoint.Resolver) (maxPerRead : Nat) (requests : ConsumeRequests)
    (w : Trial) :
    view.Idle w (fetch resolver maxPerRead requests w).2
    ∧ Answers requests resolver.resolve? (fetch resolver maxPerRead requests w).2.remote.messages
        (fetch resolver maxPerRead requests w).1.elements := by
  have hanswers := Endpoint.answers_answerOf resolver w.remote maxPerRead requests
  rw [fetch]
  split
  · exact ⟨idle_of_eq rfl rfl rfl, hanswers⟩
  · exact ⟨idle_of_eq rfl rfl rfl, hanswers.take _⟩

/-- **Whatever is laid down, the world is faithful.** -/
theorem faithful (resolver : Endpoint.Resolver) (maxPerRead : Nat) :
    Faithful (surroundings resolver maxPerRead) view resolver.resolve? where
  ascending w topic := w.ascending topic
  resolve _ w := .refl view w
  resolved {keys w mapping w'} h {key topic} _ hkey := by
    cases h
    obtain ⟨_, -, hname⟩ := SortedMap.get?_filterMap_eq_some_iff.mp hkey
    exact hname
  fetch requests w := (fetch_spec resolver maxPerRead requests w).1
  fetched {requests w delivery w'} h := by
    have hspec := (fetch_spec resolver maxPerRead requests w).2
    rw [show fetch resolver maxPerRead requests w = (delivery, w') from h] at hspec
    exact hspec
  arrive w := .refl view w
  load topic subscriber w := idle_of_eq rfl rfl (w.offsets.get_spec topic subscriber).1
  loaded {topic subscriber w last w'} h := by
    obtain ⟨hsame, hlast⟩ := w.offsets.get_spec topic subscriber
    obtain ⟨hresult, rfl⟩ := Prod.mk.inj h
    have hget := hlast (Prod.ext hresult rfl)
    rw [hget]
    show _ = (w.offsets.get topic subscriber).2.offsets.get topic subscriber
    rw [hsame]
  publish topic payload w := by
    obtain ⟨herror, hok⟩ := w.own.publish_spec topic payload
    cases hresult : (w.own.publish topic payload).1 with
    | error e => exact idle_of_eq rfl (herror (Prod.ext hresult rfl)) rfl
    | ok id =>
      obtain ⟨hself, hother⟩ := hok (Prod.ext hresult rfl)
      refine ⟨fun t => List.prefix_refl _, fun t => ?_, fun _ _ => rfl⟩
      show w.own.log.payloads t <+: (w.own.publish topic payload).2.log.payloads t
      -- the topic that was published to grows, the others stay
      by_cases ht : t = topic
      · subst ht
        rw [hself]
        exact List.prefix_append _ _
      · exact hother t ht ▸ List.prefix_refl _
  published {topic payload w id w'} h := by
    obtain ⟨hresult, rfl⟩ := Prod.mk.inj h
    exact ((w.own.publish_spec topic payload).2 (Prod.ext hresult rfl)).1
  refused {topic subscriber id w e w'} h := by
    obtain ⟨hresult, rfl⟩ := Prod.mk.inj h
    exact idle_of_eq rfl rfl ((w.offsets.put_spec 0 topic subscriber id).1 (Prod.ext hresult rfl))
  committed {topic subscriber id w w'} h := by
    obtain ⟨hresult, rfl⟩ := Prod.mk.inj h
    have hput := (w.offsets.put_spec 0 topic subscriber id).2 (Prod.ext hresult rfl)
    refine ⟨fun _ => List.prefix_refl _, fun _ => List.prefix_refl _, ?_, fun t s hne => ?_⟩
    · show (w.offsets.put 0 topic subscriber id).2.offsets.get topic subscriber = some id
      rw [hput, MemoryOffsets.get_put_self]
    · show (w.offsets.put 0 topic subscriber id).2.offsets.get t s = w.offsets.offsets.get t s
      rw [hput, MemoryOffsets.get_put_ne _ _ hne]

end Trial
end Rehearsal
end TopicRelay
