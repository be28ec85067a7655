/-
  Two keys that stand for one topic.

      row of the topic     one for both
      cached ids           one for each

  crux   the key that comes second is behind when only its publications fail (`Rivals.ahead`), and
         when they succeed again it commits where it is, below the row (`Rivals.behind`)

  All of this is about worlds in which nothing fails but publications, and those by their numbers.
-/
import TopicRelay.Proofs.Monitor.Intake
import TopicRelay.Proofs.Rehearsal.Trial

namespace TopicRelay

/-! ## Publications by number -/

/-- A publication that is not laid down to fail. -/
theorem FaultyLog.publish_of_clear {l : FaultyLog}
    (hclear : l.brokenPublications.contains (l.published + 1) = false) {topic : TopicName}
    (haccepts : l.log.Accepts topic) (payload : Bytes) : ∃ id log',
      l.publish topic payload = (.ok id, { l with log := log', published := l.published + 1 })
      ∧ l.log.publish topic payload = .ok (id, log') := by
  obtain ⟨log', hpublish⟩ := MemoryLog.publish_of_accepts haccepts payload
  refine ⟨_, log', ?_, hpublish⟩
  rw [publish]
  simp only [hclear, hpublish]
  rfl

/-- A publication that is. -/
theorem FaultyLog.publish_of_broken {l : FaultyLog}
    (hbroken : l.brokenPublications.contains (l.published + 1) = true) (topic : TopicName)
    (payload : Bytes) : ∃ e,
      l.publish topic payload = (.error e, { l with published := l.published + 1 }) := by
  rw [publish]
  simp only [hbroken]
  exact ⟨_, rfl⟩

namespace Rehearsal

open Endpoint (answerOf elementsOf elementsWith)
open Monitor
open Wire (ConsumeRequest TopicMessages)

namespace Trial

/-- Publications have the numbers in `faults` to fear, but not before the number `upTo` is behind, and
    until then there are `n` left. -/
structure Ready (faults : List Nat) (upTo n : Nat) (w : Trial) : Prop where
  whole : w.breaks = []
  commits : w.offsets.brokenCommits = []
  accepts : ∀ topic, w.own.log.Accepts topic
  laid : w.own.brokenPublications = faults
  count : w.own.published + n = upTo
  clear : ∀ k ∈ faults, k ≤ w.own.published ∨ upTo < k

variable {resolver : Endpoint.Resolver} {maxPerRead : Nat} {faults : List Nat} {upTo n : Nat}
  {w : Trial}

/-- An answer that does not break off. -/
theorem fetch_of_whole (resolver : Endpoint.Resolver) (maxPerRead : Nat) (h : w.breaks = [])
    (requests : Wire.ConsumeRequests) :
    (surroundings resolver maxPerRead).fetch requests w
      = (⟨answerOf resolver w.remote maxPerRead requests, .ok ()⟩, w) := by
  obtain ⟨remote, ascending, breaks, own, offsets⟩ := w
  cases h
  rfl

/-- A load that is not laid down to fail. -/
theorem load_of_whole (h : w.offsets.brokenLoads = []) (topic : TopicName)
    (subscriber : SubscriberName) :
    (surroundings resolver maxPerRead).offset topic subscriber w
      = (.ok (w.offsets.offsets.get topic subscriber),
        { w with offsets := { w.offsets with loads := w.offsets.loads + 1 } }) := by
  show ((w.offsets.get topic subscriber).1, { w with offsets := (w.offsets.get topic subscriber).2 })
    = _
  rw [FaultyOffsets.get]
  simp only [h]
  rfl

theorem Ready.publish (h : w.Ready faults upTo (n + 1)) (topic : TopicName) (payload : Bytes) :
    ∃ id w', (surroundings resolver maxPerRead).publish topic payload w = (.ok id, w')
      ∧ w'.Ready faults upTo n ∧ view.Published topic [payload] w w' := by
  have hcount := h.count
  have hclear : w.own.brokenPublications.contains (w.own.published + 1) = false := by
    rw [h.laid, ← Bool.not_eq_true, List.contains_iff_mem]
    intro hmem
    have := h.clear _ hmem
    omega
  obtain ⟨id, log', hpublish, hlog⟩ := FaultyLog.publish_of_clear hclear (h.accepts topic) payload
  obtain ⟨-, hself, hothers, haccepts, -⟩ := MemoryLog.publish_ok hlog
  refine ⟨id, { w with own := (w.own.publish topic payload).2 }, ?_, ?_, rfl, ?_, ?_, rfl⟩
  · show ((w.own.publish topic payload).1, _) = _
    rw [hpublish]
  · rw [hpublish]
    refine ⟨h.whole, h.commits, fun t => haccepts t (h.accepts t), h.laid, ?_, ?_⟩
    · show w.own.published + 1 + n = upTo
      omega
    · intro k hk
      show k ≤ w.own.published + 1 ∨ upTo < k
      have := h.clear k hk
      omega
  · rw [hpublish]
    show log'.payloads topic = w.own.log.payloads topic ++ [payload]
    rw [MemoryLog.payloads, MemoryLog.payloads, hself, List.map_append]
    rfl
  · intro t ht
    rw [hpublish]
    show log'.payloads t = w.own.log.payloads t
    rw [MemoryLog.payloads, MemoryLog.payloads, hothers t ht]

theorem Ready.commit (h : w.Ready faults upTo n) (topic : TopicName) (subscriber : SubscriberName)
    (id : MessageId) :
    ∃ w', (surroundings resolver maxPerRead).commit topic subscriber id w = (.ok (), w')
      ∧ w'.Ready faults upTo n ∧ view.Committed topic subscriber id w w' := by
  have hput : w.offsets.put 0 topic subscriber id = (.ok (),
      { w.offsets with commits := w.offsets.commits + 1,
                       offsets := w.offsets.offsets.put 0 topic subscriber id }) := by
    rw [FaultyOffsets.put]
    simp only [h.commits]
    rfl
  refine ⟨{ w with offsets := (w.offsets.put 0 topic subscriber id).2 }, ?_, ?_, rfl, rfl, ?_, ?_⟩
  · show ((w.offsets.put 0 topic subscriber id).1, _) = _
    rw [hput]
  · rw [hput]
    exact ⟨h.whole, h.commits, h.accepts, h.laid, h.count, h.clear⟩
  · rw [hput]
    exact MemoryOffsets.get_put_self _ _ _ _ _
  · intro t s hts
    rw [hput]
    exact MemoryOffsets.get_put_ne _ _ hts _

/-- **The stores work as long as they are ready.** -/
theorem works (resolver : Endpoint.Resolver) (maxPerRead : Nat) (faults : List Nat) (upTo : Nat) :
    Works (surroundings resolver maxPerRead) view (fun _ => True)
      (fun n w => w.Ready faults upTo n) where
  arrive _ := rfl
  goesOn _ := rfl
  publish payload h _ := h.publish _ payload
  commit topic subscriber id h := h.commit topic subscriber id

/-- Where nothing is left, the next publication may be one that fails; then others may follow. -/
theorem Ready.publish_fails (resolver : Endpoint.Resolver) (maxPerRead : Nat)
    (h : w.Ready faults upTo 0) (hfault : upTo + 1 ∈ faults) (topic : TopicName) (payload : Bytes) :
    ∃ e w',
      (surroundings resolver maxPerRead).publish topic payload w = (.error e, w')
      ∧ w'.remote = w.remote ∧ w'.offsets = w.offsets
      ∧ ∀ upTo' n', upTo + 1 + n' = upTo' → (∀ k ∈ faults, k ≤ upTo + 1 ∨ upTo' < k) →
        w'.Ready faults upTo' n' := by
  have hcount : w.own.published = upTo := h.count
  have hbroken : w.own.brokenPublications.contains (w.own.published + 1) = true := by
    rw [h.laid, List.contains_iff_mem, hcount]
    exact hfault
  obtain ⟨e, hpublish⟩ := FaultyLog.publish_of_broken hbroken topic payload
  refine ⟨e, { w with own := (w.own.publish topic payload).2 }, ?_, rfl, rfl, ?_⟩
  · show ((w.own.publish topic payload).1, _) = _
    rw [hpublish]
  · intro upTo' n' hupTo hclear
    rw [hpublish]
    refine ⟨h.whole, h.commits, h.accepts, h.laid, ?_, ?_⟩
    · show w.own.published + 1 + n' = upTo'
      omega
    · intro k hk
      show k ≤ w.own.published + 1 ∨ upTo' < k
      rw [hcount]
      exact hclear k hk

end Trial

/-! ## Two keys, one topic -/

/-- Two keys that are resolved to one topic; before the second there is no other such key. -/
structure Rivals (resolver : Endpoint.Resolver) (topic : TopicName) (a b : TopicKey)
    (resolved : SortedMap TopicProgress) (p q : TopicProgress) : Prop where
  order : a < b
  first : resolved.get? a = some p
  second : resolved.get? b = some q
  firstTopic : p.remoteTopic = topic
  secondTopic : q.remoteTopic = topic
  alone : ∀ k r, resolved.get? k = some r → k < b → k ≠ a → r.remoteTopic ≠ topic
  named : ∀ k r, resolved.get? k = some r → resolver.resolve? k = some r.remoteTopic

namespace Rivals

variable {resolver : Endpoint.Resolver} {topic : TopicName} {a b : TopicKey}
  {resolved resolved' : SortedMap TopicProgress} {p q : TopicProgress}

/-- They stay rivals while the first goes on. -/
theorem goOn (h : Rivals resolver topic a b resolved p q) {ms : List Message}
    (hself : resolved'.get? a = some (p.past ms))
    (hothers : ∀ k, k ≠ a → resolved'.get? k = resolved.get? k) :
    Rivals resolver topic a b resolved' (p.past ms) q := by
  refine ⟨h.order, hself, ?_, h.firstTopic, h.secondTopic, ?_, ?_⟩
  · rw [hothers b (String.ne_of_lt h.order).symm]
    exact h.second
  · intro k r hr hlt hne
    rw [hothers k hne] at hr
    exact h.alone k r hr hlt hne
  · intro k r hr
    by_cases hk : k = a
    · rw [hk, hself] at hr
      cases hr
      rw [hk]
      exact h.named a p h.first
    · rw [hothers k hk] at hr
      exact h.named k r hr

/-- The entries around the two. -/
theorem entries (h : Rivals resolver topic a b resolved p q) : ∃ before between after,
    resolved.entries = before ++ (a, p) :: between ++ (b, q) :: after
    ∧ (∀ e ∈ before, resolved.get? e.1 = some e.2 ∧ e.2.remoteTopic ≠ topic)
    ∧ (∀ e ∈ between, resolved.get? e.1 = some e.2 ∧ e.2.remoteTopic ≠ topic)
    ∧ ∀ e ∈ after, resolved.get? e.1 = some e.2 ∧ e.1 ≠ a := by
  obtain ⟨front, after, hsplit, hfront, hafter⟩ := SortedMap.exists_split h.second
  have hget : ∀ e ∈ resolved.entries, resolved.get? e.1 = some e.2 :=
    fun e he => SortedMap.get?_eq_some_iff.mpr he
  have hmem : (a, p) ∈ front := by
    have hin := SortedMap.get?_eq_some_iff.mp h.first
    rw [hsplit, List.mem_append, List.mem_cons] at hin
    rcases hin with hin | heq | hin
    · exact hin
    · rw [(Prod.mk.inj heq).1] at h
      exact absurd h.order (String.lt_irrefl b)
    · exact absurd (String.lt_trans h.order (hafter _ hin)) (String.lt_irrefl a)
  obtain ⟨before, between, hfrontSplit⟩ := List.append_of_mem hmem
  -- no other entry in front has the first key
  have hsorted : (front.map Prod.fst).Pairwise (· < ·) := by
    have hasc := resolved.ascending
    rw [hsplit, List.map_append] at hasc
    exact (List.pairwise_append.mp hasc).1
  rw [hfrontSplit, List.pairwise_map, List.pairwise_append, List.pairwise_cons] at hsorted
  obtain ⟨-, ⟨hbetween, -⟩, hbefore⟩ := hsorted
  rw [hfrontSplit] at hsplit hfront
  refine ⟨before, between, after, hsplit, ?_, ?_, ?_⟩
  · intro e he
    have hin := hget e (by rw [hsplit]; exact List.mem_append_left _ (List.mem_append_left _ he))
    refine ⟨hin, h.alone e.1 e.2 hin (hfront e (List.mem_append_left _ he)) ?_⟩
    exact String.ne_of_lt (hbefore e he _ List.mem_cons_self)
  · intro e he
    have htail : e ∈ before ++ (a, p) :: between :=
      List.mem_append_right _ (List.mem_cons_of_mem _ he)
    have hin := hget e (by rw [hsplit]; exact List.mem_append_left _ htail)
    refine ⟨hin, h.alone e.1 e.2 hin (hfront e htail) ?_⟩
    exact (String.ne_of_lt (hbetween e he)).symm
  · intro e he
    refine ⟨hget e (by rw [hsplit]; exact List.mem_append_right _ (List.mem_cons_of_mem _ he)), ?_⟩
    exact (String.ne_of_lt (String.lt_trans h.order (hafter e he))).symm

/-! ### One cycle -/

variable {maxPerRead upTo n : Nat} {faults : List Nat} {settings : RelaySettings} {t : Tracking}
  {w : Trial}

/-- A world in which one topic has all messages. -/
def Single (w : Trial) (topic : TopicName) : Prop :=
  w.remote.messages topic ≠ [] ∧ ∀ t, t ≠ topic → w.remote.messages t = []

theorem Single.of_remote_eq {w' : Trial} (h : Single w topic)
    (hremote : Trial.view.remote w' = Trial.view.remote w) : Single w' topic := by
  constructor
  · show Trial.view.remote w' topic ≠ []
    rw [hremote]
    exact h.1
  · intro t ht
    show Trial.view.remote w' t = []
    rw [hremote]
    exact h.2 t ht

/-- What an answer has for a key. -/
def reply (resolver : Endpoint.Resolver) (maxPerRead : Nat) (w : Trial) (limit : UInt32)
    (e : TopicKey × TopicProgress) : List TopicMessages :=
  elementsOf resolver w.remote maxPerRead e.1 ⟨e.2.lastMessageId, limit⟩

theorem answerOf_requests (t : Tracking) : answerOf resolver w.remote maxPerRead t.requests
    = t.resolved.entries.flatMap (reply resolver maxPerRead w t.settings.batchLimit) := by
  show (t.resolved.entries.map _).flatMap _ = _
  rw [List.flatMap_map]
  rfl

/-- For a key of another topic there is nothing. -/
theorem reply_of_other (hsingle : Single w topic) {e : TopicKey × TopicProgress}
    (hname : resolver.resolve? e.1 = some e.2.remoteTopic) (hother : e.2.remoteTopic ≠ topic)
    {limit : UInt32} {x : TopicMessages} (hx : x ∈ reply resolver maxPerRead w limit e) :
    x.messages = [] := by
  have hall : (reply resolver maxPerRead w limit e).flatMap (·.messages) = [] := by
    rw [reply, Endpoint.flatMap_elementsOf hname, hsingle.2 _ hother]
    show (MemoryLog.following e.2.lastMessageId []).take limit.toNat = []
    cases e.2.lastMessageId <;> exact List.take_nil
  exact List.flatMap_eq_nil_iff.mp hall x hx

/-- For a key of the topic there is its batch. -/
theorem reply_of_topic (maxPerRead : Nat) (hsingle : Single w topic) {e : TopicKey × TopicProgress}
    (hname : resolver.resolve? e.1 = some e.2.remoteTopic) (htopic : e.2.remoteTopic = topic)
    (limit : UInt32) : reply resolver maxPerRead w limit e
      = elementsWith maxPerRead e.1 (Trial.view.batch w limit e.2) := by
  have hexists := MemoryLog.contains_of_messages_ne_nil (htopic ▸ hsingle.1)
  rw [reply, Endpoint.elementsOf_of_contains maxPerRead _ hname hexists]
  rfl

/-- **Up to the second key.**  The first has relayed its batch, and nothing else has happened. -/
theorem toSecond (h : Rivals resolver topic a b t.resolved p q) (maxPerRead : Nat)
    (hsingle : Single w topic)
    (hready : w.Ready faults upTo (n + (Trial.view.batch w t.settings.batchLimit p).length))
    (hrow : ∀ id, p.lastMessageId = some id →
      Trial.view.offset w topic t.settings.subscriber = some id) :
    ∃ (after : List (TopicKey × TopicProgress)) (i : Intake) (w' : Trial),
      (∀ e ∈ after, t.resolved.get? e.1 = some e.2 ∧ e.1 ≠ a)
      ∧ Intake.acceptAll (Trial.surroundings resolver maxPerRead) t.settings.subscriber
          (answerOf resolver w.remote maxPerRead t.requests) (.start t.resolved) w
        = Intake.acceptAll (Trial.surroundings resolver maxPerRead) t.settings.subscriber
          (elementsWith maxPerRead b (Trial.view.batch w t.settings.batchLimit q)
            ++ after.flatMap (reply resolver maxPerRead w t.settings.batchLimit)) i w'
      ∧ w'.Ready faults upTo n
      ∧ Rivals resolver topic a b i.resolved
          (p.past (Trial.view.batch w t.settings.batchLimit p)) q
      ∧ (∀ k, k ≠ a → i.resolved.get? k = t.resolved.get? k)
      ∧ Trial.view.Relayed t.settings.subscriber p (Trial.view.batch w t.settings.batchLimit p)
          w w' := by
  obtain ⟨before, between, after, hentries, hbefore, hbetween, hafter⟩ := h.entries
  have hworks := Trial.works resolver maxPerRead faults upTo
  -- the keys before and between are of other topics
  have hnothing : ∀ {es : List (TopicKey × TopicProgress)} {resolved : SortedMap TopicProgress},
      (∀ e ∈ es, t.resolved.get? e.1 = some e.2 ∧ e.2.remoteTopic ≠ topic) →
      (∀ e ∈ es, ∃ r, resolved.get? e.1 = some r) →
      ∀ x ∈ es.flatMap (reply resolver maxPerRead w t.settings.batchLimit),
        x.messages = [] ∧ ∃ r, resolved.get? x.topic = some r := by
    intro es resolved hes hthere x hx
    obtain ⟨e, he, hxe⟩ := List.mem_flatMap.mp hx
    obtain ⟨hget, hother⟩ := hes e he
    refine ⟨reply_of_other hsingle (h.named _ _ hget) hother hxe, ?_⟩
    rw [(Endpoint.of_mem_elementsOf hxe).1]
    exact hthere e he
  obtain ⟨i₁, hall₁, hresolved₁⟩ := Intake.acceptAll_of_nothing hworks
    t.settings.subscriber (i := .start t.resolved) (w := w)
    (hnothing hbefore fun e he => ⟨e.2, (hbefore e he).1⟩)
  have hfirst : i₁.resolved.get? a = some p := by
    rw [hresolved₁]
    exact h.first
  have hreply := reply_of_topic (e := (a, p)) maxPerRead hsingle
    (h.named a p h.first) h.firstTopic t.settings.batchLimit
  have hmessages : (elementsWith maxPerRead a (Trial.view.batch w t.settings.batchLimit p)).flatMap
      (·.messages) = Trial.view.batch w t.settings.batchLimit p :=
    Endpoint.flatMap_elementsWith _ _ _
  obtain ⟨i₂, w₂, hall₂, hready₂, htook, hrelayed⟩ := Intake.acceptAll_of_works hworks
    t.settings.subscriber
    (Endpoint.elementsWith_ne_nil maxPerRead a (Trial.view.batch w t.settings.batchLimit p))
    (fun e he => Endpoint.of_mem_elementsWith he) hfirst trivial (by rw [hmessages]; exact hready)
    (by rw [h.firstTopic]; exact hrow)
  rw [hmessages] at htook hrelayed
  have hothers : ∀ k, k ≠ a → i₂.resolved.get? k = t.resolved.get? k := by
    intro k hk
    rw [htook.others k hk, hresolved₁]
    rfl
  obtain ⟨i₃, hall₃, hresolved₃⟩ := Intake.acceptAll_of_nothing hworks
    t.settings.subscriber (i := i₂) (w := w₂)
    (hnothing hbetween fun e he => by
      by_cases hk : e.1 = a
      · rw [hk]
        exact ⟨_, htook.self⟩
      · rw [hothers e.1 hk]
        exact ⟨e.2, (hbetween e he).1⟩)
  refine ⟨after, i₃, w₂, hafter, ?_, hready₂, ?_, ?_, hrelayed⟩
  · rw [answerOf_requests, hentries, List.flatMap_append, List.flatMap_append, List.flatMap_cons,
      List.flatMap_cons, hreply, reply_of_topic (e := (b, q)) maxPerRead hsingle (h.named b q h.second)
      h.secondTopic, List.append_assoc, List.append_assoc, Intake.acceptAll_append hall₁,
      Intake.acceptAll_append hall₂, Intake.acceptAll_append hall₃]
  · rw [hresolved₃]
    exact h.goOn htook.self hothers
  · intro k hk
    rw [hresolved₃]
    exact hothers k hk

/-- **The first gets ahead.**  It relays its batch, and the second not even a message of its own. -/
theorem ahead (h : Rivals resolver topic a b t.resolved p q) (maxPerRead : Nat)
    (hsettings : t.settings = settings) (hsingle : Single w topic)
    (hready : w.Ready faults upTo (Trial.view.batch w settings.batchLimit p).length)
    (hrow : ∀ id, p.lastMessageId = some id →
      Trial.view.offset w topic settings.subscriber = some id)
    (hsecond : Trial.view.batch w settings.batchLimit q ≠ []) (hfault : upTo + 1 ∈ faults) :
    ∃ r t' w', t.pollCycle (Trial.surroundings resolver maxPerRead) w = (r, t', w')
      ∧ t'.settings = settings
      ∧ Rivals resolver topic a b t'.resolved
          (p.past (Trial.view.batch w settings.batchLimit p)) q
      ∧ (∀ k, k ≠ a → t'.resolved.get? k = t.resolved.get? k)
      ∧ Trial.view.remote w' = Trial.view.remote w
      ∧ Trial.view.offset w' topic settings.subscriber
        = lastOf (Trial.view.offset w topic settings.subscriber)
            (Trial.view.batch w settings.batchLimit p)
      ∧ ∀ upTo' n', upTo + 1 + n' = upTo' → (∀ k ∈ faults, k ≤ upTo + 1 ∨ upTo' < k) →
        w'.Ready faults upTo' n' := by
  subst hsettings
  obtain ⟨after, i, w₁, -, hall, hready₁, hrivals, hothers, hrelayed⟩ :=
    h.toSecond maxPerRead (n := 0) hsingle (by rw [Nat.zero_add]; exact hready) hrow
  -- the first message of the second key is refused
  obtain ⟨m, ms, hbatch⟩ := List.exists_cons_of_ne_nil hsecond
  obtain ⟨more, rest, helements⟩ := Endpoint.elementsWith_cons maxPerRead b m ms
  obtain ⟨e, w₂, hpublish, hremote, hoffsets, hready₂⟩ :=
    hready₁.publish_fails resolver maxPerRead hfault q.localTopic m.payload
  rw [hbatch, helements, List.cons_append, Intake.acceptAll_of_refused
    (Trial.works resolver maxPerRead faults upTo) t.settings.subscriber hrivals.second rfl rfl
    hpublish] at hall
  refine ⟨_, _, w₂, Tracking.pollCycle_of_error (t.resolved.isEmpty_of_get? h.first)
    (Trial.fetch_of_whole resolver maxPerRead hready.whole t.requests) hall, rfl, hrivals, hothers,
    ?_, ?_, hready₂⟩
  · rw [← hrelayed.remote]
    show w₂.remote.messages = w₁.remote.messages
    rw [hremote]
  · rw [← h.firstTopic, ← hrelayed.offset]
    show w₂.offsets.offsets.get _ _ = w₁.offsets.offsets.get _ _
    rw [hoffsets]

/-- **The second comes after.**  When it relays its batch again, the row is where that ends, for all
    keys that come later can only commit the same. -/
theorem behind (h : Rivals resolver topic a b t.resolved p q) (maxPerRead : Nat)
    (hsettings : t.settings = settings) (hsingle : Single w topic)
    (hfirst : Trial.view.batch w settings.batchLimit p = [])
    (hready : w.Ready faults upTo (Trial.view.batch w settings.batchLimit q).length)
    (hrow : ∀ id, p.lastMessageId = some id →
      Trial.view.offset w topic settings.subscriber = some id)
    (hlate : ∀ k r, t.resolved.get? k = some r → k ≠ a → r.lastMessageId = none)
    (hlimit : settings.batchLimit.toNat ≤ maxPerRead) {m : Message}
    (hlast : (Trial.view.batch w settings.batchLimit q).getLast? = some m) :
    Trial.view.offset (t.pollCycle (Trial.surroundings resolver maxPerRead) w).2.2 topic
      settings.subscriber = some m.id := by
  subst hsettings
  obtain ⟨after, i, w₁, hafter, hall, hready₁, hrivals, hothers, hrelayed⟩ :=
    h.toSecond maxPerRead (n := (Trial.view.batch w t.settings.batchLimit q).length) hsingle
      (by rw [hfirst]; exact hready) hrow
  have hworks := Trial.works resolver maxPerRead faults upTo
  have hnone : q.lastMessageId = none :=
    hlate b q h.second (String.ne_of_lt h.order).symm
  have hmessages : (elementsWith maxPerRead b (Trial.view.batch w t.settings.batchLimit q)).flatMap
      (·.messages) = Trial.view.batch w t.settings.batchLimit q :=
    Endpoint.flatMap_elementsWith _ _ _
  obtain ⟨i₂, w₂, hall₂, hready₂, -, hrelayed₂⟩ := Intake.acceptAll_of_works hworks
    t.settings.subscriber
    (Endpoint.elementsWith_ne_nil maxPerRead b (Trial.view.batch w t.settings.batchLimit q))
    (fun e he => Endpoint.of_mem_elementsWith he) hrivals.second trivial (n := 0)
    (by rw [hmessages, Nat.zero_add]; exact hready₁)
    (by rw [hnone]; intro id hid; cases hid)
  have hrow₂ : Trial.view.offset w₂ topic t.settings.subscriber = some m.id := by
    rw [← h.secondTopic, hrelayed₂.offset, hmessages, lastOf, hlast]
    rfl
  rw [Intake.acceptAll_append hall₂] at hall
  generalize hrest : Intake.acceptAll (Trial.surroundings resolver maxPerRead) t.settings.subscriber
    (after.flatMap (reply resolver maxPerRead w t.settings.batchLimit)) i₂ w₂ = outcome at hall
  obtain ⟨r, i₃, w₃⟩ := outcome
  have hrow₃ : Trial.view.offset w₃ topic t.settings.subscriber = some m.id := by
    refine Intake.acceptAll_row (Trial.faithful resolver maxPerRead) ?_ hrow₂ hrest
    intro x hx last hxlast
    obtain ⟨e, he, hxe⟩ := List.mem_flatMap.mp hx
    obtain ⟨hget, hne⟩ := hafter e he
    by_cases htopic : e.2.remoteTopic = topic
    · -- a later key of the topic has the same batch, and in one element
      have hsame : Trial.view.batch w t.settings.batchLimit e.2
          = Trial.view.batch w t.settings.batchLimit q := by
        rw [View.batch, View.batch, View.backlog, View.backlog, hlate _ _ hget hne, hnone, htopic,
          h.secondTopic]
      have hfits : (Trial.view.batch w t.settings.batchLimit q).length ≤ maxPerRead :=
        Nat.le_trans (List.length_take_le _ _) hlimit
      rw [reply_of_topic maxPerRead hsingle (h.named _ _ hget) htopic, hsame,
        Endpoint.elementsWith_of_le e.1 hfits, List.mem_singleton] at hxe
      rw [hxe] at hxlast
      show last = m.id
      rw [TopicMessages.lastMessageId?, TopicMessages.ofMessages, hlast] at hxlast
      exact (Option.some.inj hxlast).symm
    · have hnothing := reply_of_other hsingle (h.named _ _ hget) htopic hxe
      rw [TopicMessages.lastMessageId?, hnothing] at hxlast
      cases hxlast
  have hcycle : (t.pollCycle (Trial.surroundings resolver maxPerRead) w).2.2 = w₃ := by
    have hne := t.resolved.isEmpty_of_get? h.first
    have hfetch := Trial.fetch_of_whole resolver maxPerRead hready.whole t.requests
    cases r with
    | error x => rw [Tracking.pollCycle_of_error hne hfetch hall]
    | ok _ => rw [Tracking.pollCycle_of_ok hne hfetch hall rfl]
  rw [hcycle]
  exact hrow₃

end Rivals
end Rehearsal
end TopicRelay
