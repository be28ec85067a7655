/-
  When offsets are safe to go by.

  specification   an offset never goes back, and a key that has nothing more to come has all of its
                  messages in its own log (`CheckpointsHold`)
  answer          so it is, whatever fails, just when no two keys stand for one topic of the remote
                  (`checkpointsHold_iff_unshared`)

  An offset belongs to a topic of the remote, and what a monitor remembers belongs to a key.  Where two
  keys stand for one topic, the one that is behind takes the offset back to where it is; and a new
  monitor takes both to be where the offset is, so what the one had not relayed is left out.
-/
import TopicRelay.Proofs.Monitor.AtLeastOnce
import TopicRelay.Proofs.Monitor.Resolution
import TopicRelay.Proofs.Rehearsal.Contest

namespace TopicRelay.Monitor

open Rehearsal (Rivals Trial)

variable {σ : Type} {env : Surroundings σ} {v : View σ} {topicOf : TopicKey → Option TopicName}

/-! ## What is asked of offsets -/

/-- What is asked of the offsets in all runs of a new monitor. -/
structure CheckpointsHold (env : Surroundings σ) (v : View σ) (topicOf : TopicKey → Option TopicName)
    (settings : RelaySettings) (w₀ : σ) : Prop where
  /-- None goes back, from any time to any later time. -/
  forward : ∀ x y, Run env v (.new settings, w₀) x → Run env v x y → ∀ topic,
    v.offset x.2 topic settings.subscriber ≤ v.offset y.2 topic settings.subscriber
  /-- A key that has nothing more to come has all messages after the first offset in its own log. -/
  complete : ∀ x, Run env v (.new settings, w₀) x → ∀ key topic,
    settings.keys.contains key = true → topicOf key = some topic →
    (∃ p, x.1.resolved.get? key = some p
      ∧ MemoryLog.following p.lastMessageId (v.remote x.2 topic) = []) →
    ∃ new, v.own x.2 (settings.localTopic key) = v.own w₀ (settings.localTopic key) ++ new
      ∧ ((MemoryLog.following (v.offset w₀ topic settings.subscriber)
          (v.remote x.2 topic)).map (·.payload)).Sublist new

/-- No two keys that are to be relayed stand for one topic. -/
def Unshared (topicOf : TopicKey → Option TopicName) (settings : RelaySettings) : Prop :=
  ∀ key other topic, settings.keys.contains key = true → settings.keys.contains other = true →
    topicOf key = some topic → topicOf other = some topic → key = other

/-! ## Topics of their own -/

/-- A key that is never relayed. -/
theorem RelaySettings.not_contains_empty (settings : RelaySettings) :
    settings.keys.contains "" = false := by
  rw [← Bool.not_eq_true, contains_keys_iff]
  rintro ⟨-, hblank⟩
  exact absurd hblank (by decide)

/-- **Keys with topics of their own are safe**, whatever fails. -/
theorem CheckpointsHold.of_unshared (hf : Faithful env v topicOf) {settings : RelaySettings}
    (hunshared : Unshared topicOf settings) (w₀ : σ) :
    CheckpointsHold env v topicOf settings w₀ := by
  have halone : ∀ {key topic}, settings.keys.contains key = true → topicOf key = some topic →
      (Line.ofKey v settings key topic w₀).Alone topicOf settings := by
    intro key topic hcontains hkey
    refine ⟨?_, rfl, rfl, ?_⟩
    · intro t _ ht
      exact Option.some.inj (ht.symm.trans hkey)
    · intro other hother hne hshared
      exact hne (hunshared other key topic hother hcontains hshared hkey)
  constructor
  · intro x y hx hxy topic
    by_cases howner : ∃ key, settings.keys.contains key = true ∧ topicOf key = some topic
    · obtain ⟨key, hcontains, hkey⟩ := howner
      have hl := halone hcontains hkey
      exact (Line.Kept.ofKey hf hl hx).offset_le hf hl hxy
    · -- a topic that no key stands for is on a line that belongs to nobody
      have hl : (Line.ofKey v settings "" topic w₀).Alone topicOf settings := by
        refine ⟨?_, rfl, rfl, ?_⟩
        · intro t hcontains _
          exact absurd hcontains (by rw [Line.ofKey, settings.not_contains_empty]; decide)
        · intro other hother _ hshared
          exact howner ⟨other, hother, hshared⟩
      exact (Line.Kept.ofKey hf hl hx).offset_le hf hl hxy
  · intro x hx key topic hcontains hkey hdrained
    obtain ⟨p, hp, hnothing⟩ := hdrained
    have hkept := Line.Kept.ofKey hf (halone hcontains hkey) hx
    obtain ⟨new, hown, hpassed⟩ := hkept.sound.relayed
    refine ⟨new, hown, ?_⟩
    rw [(hkept.sound.progress p hp).2.2] at hnothing
    rw [← Log.passed_of_following_eq_nil (hf.ascending x.2 topic) hnothing]
    exact hpassed

/-! ## A topic that is shared -/

/-- The first two keys of a topic that more than one stands for. -/
theorem exists_first_two {resolver : Endpoint.Resolver} {settings : RelaySettings} {topic : TopicName}
    {key other : TopicKey} (hkey : settings.keys.contains key = true)
    (hother : settings.keys.contains other = true) (hne : key ≠ other)
    (htopic : resolver.resolve? key = some topic) (htopic' : resolver.resolve? other = some topic) :
    ∃ a b, a < b ∧ settings.keys.contains a = true ∧ settings.keys.contains b = true
      ∧ resolver.resolve? a = some topic ∧ resolver.resolve? b = some topic
      ∧ ∀ k, settings.keys.contains k = true → k < b → k ≠ a → resolver.resolve? k ≠ some topic := by
  let sharing := (settings.keys.entries.map Prod.fst).filter fun k => resolver.resolve? k == some topic
  have hmem : ∀ k, k ∈ sharing ↔ settings.keys.contains k = true ∧ resolver.resolve? k = some topic := by
    intro k
    rw [List.mem_filter, beq_iff_eq, SortedMap.contains_iff_mem_keys]
    exact Iff.rfl
  have hsorted : sharing.Pairwise (· < ·) := settings.keys.ascending.sublist List.filter_sublist
  have hkey' := (hmem key).mpr ⟨hkey, htopic⟩
  have hother' := (hmem other).mpr ⟨hother, htopic'⟩
  generalize sharing = ks at hmem hsorted hkey' hother'
  match ks with
  | [] => cases hkey'
  | [a] =>
    rw [List.mem_singleton] at hkey' hother'
    exact absurd (hkey'.trans hother'.symm) hne
  | a :: b :: rest =>
    obtain ⟨hfirst, hrest⟩ := List.pairwise_cons.mp hsorted
    obtain ⟨hsecond, -⟩ := List.pairwise_cons.mp hrest
    obtain ⟨ha, hatopic⟩ := (hmem a).mp List.mem_cons_self
    obtain ⟨hb, hbtopic⟩ := (hmem b).mp (List.mem_cons_of_mem _ List.mem_cons_self)
    refine ⟨a, b, hfirst b List.mem_cons_self, ha, hb, hatopic, hbtopic, ?_⟩
    intro k hk hlt hka hktopic
    rcases List.mem_cons.mp ((hmem k).mpr ⟨hk, hktopic⟩) with hfirst | hin
    · exact hka hfirst
    · rcases List.mem_cons.mp hin with hsame | hin
      · rw [hsame] at hlt
        exact String.lt_irrefl b hlt
      · exact String.lt_irrefl b (String.lt_trans (hsecond k hin) hlt)

/-- The remote has one message more than is asked for at once, and the publications of the second key
    fail twice, when it is its turn. -/
def contested (topic : TopicName) (limit : UInt32) : Trial where
  remote := (MemoryLog.publishAll topic none (List.replicate (limit.toNat + 1) [])
    ((MemoryLog.new false).create topic)).2
  ascending := by
    have hroom : (MemoryLog.new false).next.toNat + (limit.toNat + 1) < UInt64.size := by
      have := limit.toNat_lt
      show 1 + (limit.toNat + 1) < 2 ^ 64
      omega
    refine (((MemoryLog.Filled.new false).create topic).publishAll topic none ?_).ordered.ascending
    rw [MemoryLog.next_create, List.length_replicate]
    exact hroom
  breaks := []
  own := { FaultyLog.sound (.new true) with
    brokenPublications := [limit.toNat + 1, limit.toNat + 3] }
  offsets := .sound SortedMap.empty

section Contested

variable (topic : TopicName) {limit : UInt32}

/-- All that is asked for at once, and one message more. -/
theorem messages_contested (hlimit : 0 < limit) : ∃ front y z,
    Trial.view.remote (contested topic limit) topic = (front ++ [y]) ++ [z]
    ∧ (front ++ [y]).length = limit.toNat := by
  have haccepts : ((MemoryLog.new false).create topic).Accepts topic :=
    Or.inr (MemoryLog.contains_create_self _ topic)
  have hpayloads := (MemoryLog.publishAll_of_accepts haccepts none
    (List.replicate (limit.toNat + 1) [])).1
  have hlength : (Trial.view.remote (contested topic limit) topic).length = limit.toNat + 1 := by
    have hnone : ((MemoryLog.new false).create topic).payloads topic = [] := by
      rw [MemoryLog.payloads, MemoryLog.messages_create]
      rfl
    have hcount := congrArg List.length hpayloads
    rw [hnone, List.nil_append, MemoryLog.payloads, List.length_map, List.length_replicate] at hcount
    exact hcount
  have hpos : 0 < limit.toNat := hlimit
  generalize Trial.view.remote (contested topic limit) topic = ms at hlength
  rcases ms.eq_nil_or_concat with rfl | ⟨init, z, rfl⟩
  · cases hlength
  · rw [List.length_concat, Nat.add_right_cancel_iff] at hlength
    rcases init.eq_nil_or_concat with rfl | ⟨front, y, rfl⟩
    · rw [List.length_nil] at hlength
      omega
    · rw [List.concat_eq_append, List.concat_eq_append]
      exact ⟨front, y, z, rfl, List.concat_eq_append ▸ hlength⟩

theorem single_contested (hlimit : 0 < limit) : Rivals.Single (contested topic limit) topic := by
  constructor
  · obtain ⟨front, y, z, hms, -⟩ := messages_contested topic hlimit
    rw [show (contested topic limit).remote.messages topic = _ from hms]
    exact List.append_ne_nil_of_right_ne_nil _ (List.cons_ne_nil _ _)
  · intro t ht
    have haccepts : ((MemoryLog.new false).create topic).Accepts topic :=
      Or.inr (MemoryLog.contains_create_self _ topic)
    have hothers := (MemoryLog.publishAll_of_accepts haccepts none
      (List.replicate (limit.toNat + 1) [])).2 t ht
    exact hothers.trans (MemoryLog.messages_create _ topic t)

/-- The first faults come after a whole batch. -/
theorem ready_contested : (contested topic limit).Ready [limit.toNat + 1, limit.toNat + 3]
    limit.toNat limit.toNat := by
  refine ⟨rfl, rfl, fun _ => Or.inl rfl, rfl, Nat.zero_add _, ?_⟩
  intro k hk
  simp only [List.mem_cons, List.not_mem_nil, or_false] at hk
  omega

/-- The first resolution makes the two keys rivals. -/
theorem rivals_of_resolve (limit : UInt32) {resolver : Endpoint.Resolver} {settings : RelaySettings}
    {a b : TopicKey} (maxPerRead : Nat) (hab : a < b) (ha : settings.keys.contains a = true)
    (hb : settings.keys.contains b = true) (hatopic : resolver.resolve? a = some topic)
    (hbtopic : resolver.resolve? b = some topic)
    (halone : ∀ k, settings.keys.contains k = true → k < b → k ≠ a →
      resolver.resolve? k ≠ some topic) :
    ∃ r t w, (Tracking.new settings).resolveTopics (Trial.surroundings resolver maxPerRead)
        (contested topic limit) = (r, t, w)
      ∧ w.Ready [limit.toNat + 1, limit.toNat + 3] limit.toNat limit.toNat
      ∧ w.remote = (contested topic limit).remote ∧ w.offsets.offsets = SortedMap.empty
      ∧ t.settings = settings
      ∧ Rivals resolver topic a b t.resolved
          (Tracking.freshProgress settings (fun _ => none) a topic)
          (Tracking.freshProgress settings (fun _ => none) b topic)
      ∧ ∀ k p, t.resolved.get? k = some p → p.lastMessageId = none := by
  let works (w : Trial) : Prop :=
    w.Ready [limit.toNat + 1, limit.toNat + 3] limit.toNat limit.toNat
      ∧ w.remote = (contested topic limit).remote ∧ w.offsets.offsets = SortedMap.empty
      ∧ w.offsets.brokenLoads = []
  have hload : ∀ t w, works w → ∃ w', (Trial.surroundings resolver maxPerRead).offset t
      settings.subscriber w = (.ok none, w') ∧ works w' := by
    rintro t w ⟨hready, hremote, hoffsets, hloads⟩
    have hnone : w.offsets.offsets.get t settings.subscriber = none := by
      rw [hoffsets]
      rfl
    rw [Trial.load_of_whole hloads, hnone]
    exact ⟨_, rfl, ⟨hready.whole, hready.commits, hready.accepts, hready.laid, hready.count,
      hready.clear⟩, hremote, hoffsets, hloads⟩
  have hbegin : works (contested topic limit) := ⟨ready_contested topic, rfl, rfl, rfl⟩
  have hanswer : (Trial.surroundings resolver maxPerRead).resolve settings.keys (contested topic limit)
      = (.ok (resolver.resolveAll settings.keys), contested topic limit) := rfl
  obtain ⟨n, t, w, hresolve, ⟨hready, hremote, hoffsets, -⟩, hsettings, hresolved⟩ :=
    Tracking.resolveTopics_of_loads (fun _ => none) settings hload hbegin fun _ => ⟨_, hanswer, hbegin⟩
  refine ⟨.ok n, t, w, hresolve, hready, hremote, hoffsets, hsettings,
    ⟨hab, (hresolved _ _).mpr ⟨topic, ha, hatopic, rfl⟩, (hresolved _ _).mpr ⟨topic, hb, hbtopic, rfl⟩,
      rfl, rfl, ?_, ?_⟩, ?_⟩
  · intro k p hp hlt hne htopic
    obtain ⟨name, hcontains, hk, rfl⟩ := (hresolved k p).mp hp
    exact halone k hcontains hlt hne (hk.trans (congrArg some htopic))
  · intro k p hp
    obtain ⟨name, -, hk, rfl⟩ := (hresolved k p).mp hp
    exact hk
  · intro k p hp
    obtain ⟨name, -, -, rfl⟩ := (hresolved k p).mp hp
    rfl

section Cycles

variable {resolver : Endpoint.Resolver} {settings : RelaySettings} {topic : TopicName}
  {front : List Message} {y z : Message}

/-- What comes for a key of the topic, at each of the three places where it can be. -/
theorem batch_contested (hms : Trial.view.remote (contested topic limit) topic = (front ++ [y]) ++ [z])
    (hlength : (front ++ [y]).length = limit.toNat) {w : Trial} {p : TopicProgress}
    (hremote : Trial.view.remote w = Trial.view.remote (contested topic limit))
    (htopic : p.remoteTopic = topic) :
    (p.lastMessageId = none → Trial.view.batch w limit p = front ++ [y])
    ∧ (p.lastMessageId = some y.id → Trial.view.batch w limit p = [z])
    ∧ (p.lastMessageId = some z.id → Trial.view.batch w limit p = []) := by
  have hasc : Log.Ascending ((front ++ [y]) ++ [z]) := by
    rw [← hms]
    exact (contested topic limit).ascending topic
  have hpos : 1 ≤ limit.toNat := by
    rw [← hlength, List.length_append]
    exact Nat.le_add_left 1 _
  rw [View.batch, View.backlog, hremote, htopic, hms]
  refine ⟨?_, ?_, ?_⟩
  · intro hlast
    rw [hlast]
    exact List.take_left' hlength
  · intro hlast
    have hall : MemoryLog.following none ((front ++ [y]) ++ [z]) = (front ++ [y]) ++ [z] := rfl
    rw [hlast, Log.following_last hasc hall]
    exact List.take_of_length_le hpos
  · intro hlast
    have hall : MemoryLog.following none ((front ++ [y]) ++ [z]) = ((front ++ [y]) ++ [z]) ++ [] :=
      (List.append_nil _).symm
    rw [hlast, Log.following_last hasc hall]
    exact List.take_nil

/-- After two cycles the first key is at the end, and the second where it began. -/
theorem exists_ahead
    (hms : Trial.view.remote (contested topic settings.batchLimit) topic = (front ++ [y]) ++ [z])
    (hlength : (front ++ [y]).length = settings.batchLimit.toNat) (maxPerRead : Nat) {a b : TopicKey}
    (hab : a < b) (ha : settings.keys.contains a = true) (hb : settings.keys.contains b = true)
    (hatopic : resolver.resolve? a = some topic) (hbtopic : resolver.resolve? b = some topic)
    (halone : ∀ k, settings.keys.contains k = true → k < b → k ≠ a →
      resolver.resolve? k ≠ some topic) :
    ∃ t w p, Run (Trial.surroundings resolver maxPerRead) Trial.view
        (.new settings, contested topic settings.batchLimit) (t, w)
      ∧ t.settings = settings
      ∧ Rivals resolver topic a b t.resolved p
        (Tracking.freshProgress settings (fun _ => none) b topic)
      ∧ p.lastMessageId = some z.id
      ∧ Trial.view.offset w topic settings.subscriber = some z.id
      ∧ Trial.view.remote w = Trial.view.remote (contested topic settings.batchLimit)
      ∧ (∀ k p, t.resolved.get? k = some p → k ≠ a → p.lastMessageId = none)
      ∧ ∃ upTo, w.Ready [settings.batchLimit.toNat + 1, settings.batchLimit.toNat + 3] upTo
          settings.batchLimit.toNat := by
  obtain ⟨r₀, t₀, w₀, hresolve, hready₀, hremote₀, -, hsettings₀, hrivals₀, hfresh⟩ :=
    rivals_of_resolve topic settings.batchLimit maxPerRead hab ha hb hatopic hbtopic halone
  have hview₀ := congrArg MemoryLog.messages hremote₀
  have hlimit : 0 < settings.batchLimit := by
    show 0 < settings.batchLimit.toNat
    rw [← hlength, List.length_append]
    exact Nat.lt_of_lt_of_le Nat.one_pos (Nat.le_add_left 1 _)
  have hsingle := single_contested topic hlimit
  have hsecond : ∀ {w : Trial}, Trial.view.remote w
      = Trial.view.remote (contested topic settings.batchLimit) →
      Trial.view.batch w settings.batchLimit
        (Tracking.freshProgress settings (fun _ => none) b topic) ≠ [] := by
    intro w hremote
    rw [(batch_contested hms hlength hremote rfl).1 rfl]
    exact List.append_ne_nil_of_right_ne_nil _ (List.cons_ne_nil _ _)
  -- the first cycle: a whole batch
  have hfirst₀ := (batch_contested hms hlength hview₀ hrivals₀.firstTopic).1 rfl
  obtain ⟨r₁, t₁, w₁, hcycle₁, hsettings₁, hrivals₁, hothers₁, hview₁, hrow₁, hnext₁⟩ :=
    hrivals₀.ahead maxPerRead hsettings₀ (hsingle.of_remote_eq hview₀)
      (by rw [hfirst₀, hlength]; exact hready₀) (fun id hid => by cases hid) (hsecond hview₀)
      List.mem_cons_self
  replace hview₁ := hview₁.trans hview₀
  rw [hfirst₀] at hrivals₁ hrow₁
  rw [lastOf_concat] at hrow₁
  generalize hp₁ : (Tracking.freshProgress settings (fun _ => none) a topic).past (front ++ [y]) = p₁
    at hrivals₁
  have hlast₁ : p₁.lastMessageId = some y.id := by
    rw [← hp₁]
    exact lastOf_concat _ _ _
  have hready₁ : w₁.Ready [settings.batchLimit.toNat + 1, settings.batchLimit.toNat + 3]
      (settings.batchLimit.toNat + 2) 1 := by
    refine hnext₁ _ _ rfl fun k hk => ?_
    simp only [List.mem_cons, List.not_mem_nil, or_false] at hk
    omega
  -- the second cycle: what is left
  have hfirst₁ := (batch_contested hms hlength hview₁ hrivals₁.firstTopic).2.1 hlast₁
  obtain ⟨r₂, t₂, w₂, hcycle₂, hsettings₂, hrivals₂, hothers₂, hview₂, hrow₂, hnext₂⟩ :=
    hrivals₁.ahead maxPerRead hsettings₁ (hsingle.of_remote_eq hview₁)
      (by rw [hfirst₁]; exact hready₁) (fun id hid => by rw [hrow₁, ← hid, hlast₁]) (hsecond hview₁)
      (List.mem_cons_of_mem _ List.mem_cons_self)
  rw [hfirst₁] at hrivals₂ hrow₂
  refine ⟨t₂, w₂, p₁.past [z], ?_, hsettings₂, hrivals₂, lastOf_concat p₁.lastMessageId [] z,
    hrow₂.trans (lastOf_concat _ [] z), hview₂.trans hview₁, ?_, _, hnext₂ _ _ rfl fun k hk => ?_⟩
  · exact ((Relation.ReflTransGen.single (.of_resolveTopics hresolve)).tail
      (.of_pollCycle hcycle₁)).tail (.of_pollCycle hcycle₂)
  · intro k p hp hne
    rw [hothers₂ k hne, hothers₁ k hne] at hp
    exact hfresh k p hp
  · simp only [List.mem_cons, List.not_mem_nil, or_false] at hk
    omega

/-- **The row goes back.**  In a third cycle the second key relays its first batch. -/
theorem not_checkpointsHold_contested (hlimit : 0 < settings.batchLimit) {a b : TopicKey}
    (hab : a < b) (ha : settings.keys.contains a = true) (hb : settings.keys.contains b = true)
    (hatopic : resolver.resolve? a = some topic) (hbtopic : resolver.resolve? b = some topic)
    (halone : ∀ k, settings.keys.contains k = true → k < b → k ≠ a →
      resolver.resolve? k ≠ some topic) :
    ¬ CheckpointsHold (Trial.surroundings resolver settings.batchLimit.toNat) Trial.view
      resolver.resolve? settings (contested topic settings.batchLimit) := by
  intro hhold
  obtain ⟨front, y, z, hms, hlength⟩ := messages_contested topic hlimit
  obtain ⟨t, w, p, hrun, hsettings, hrivals, hlast, hrow, hview, hfresh, upTo, hready⟩ :=
    exists_ahead hms hlength settings.batchLimit.toNat hab ha hb hatopic hbtopic halone
  have hfirst := (batch_contested hms hlength hview hrivals.firstTopic).2.2 hlast
  have hsecond := (batch_contested hms hlength hview hrivals.secondTopic).1 rfl
  have hback := hrivals.behind settings.batchLimit.toNat hsettings
    ((single_contested topic hlimit).of_remote_eq hview) hfirst (by rw [hsecond, hlength]; exact hready)
    (fun id hid => by rw [hrow, ← hid, hlast]) hfresh (Nat.le_refl _) (m := y)
    (by rw [hsecond, List.getLast?_concat])
  have hle := hhold.forward _ _ hrun (.single (.cycle t w)) topic
  rw [hrow, hback] at hle
  -- but the one id is below the other
  have hasc := (contested topic settings.batchLimit).ascending topic
  rw [show (contested topic settings.batchLimit).remote.messages topic = _ from hms] at hasc
  have hyz : y.id < z.id :=
    (List.pairwise_append.mp hasc).2.2 y (List.mem_append_right _ (List.mem_singleton_self y)) z
      (List.mem_singleton_self z)
  exact absurd hyz (String.not_lt.mpr hle)

end Cycles

end Contested

/-! ## The condition -/

/-- **When offsets are safe to go by.**  In all worlds where nothing is laid down to fail but
    publications, however an endpoint cuts its answers: just when no two keys share a topic. -/
theorem checkpointsHold_iff_unshared (resolver : Endpoint.Resolver) (settings : RelaySettings)
    (hlimit : 0 < settings.batchLimit) :
    (∀ maxPerRead w, Trial.OnlyPublicationsFail w →
      CheckpointsHold (Trial.surroundings resolver maxPerRead) Trial.view resolver.resolve?
        settings w)
    ↔ Unshared resolver.resolve? settings := by
  constructor
  · intro hhold key other topic hkey hother htopic htopic'
    apply Decidable.byContradiction
    intro hne
    obtain ⟨a, b, hab, ha, hb, hatopic, hbtopic, halone⟩ :=
      exists_first_two hkey hother hne htopic htopic'
    exact not_checkpointsHold_contested hlimit hab ha hb hatopic hbtopic halone
      (hhold _ (contested topic settings.batchLimit) ⟨rfl, rfl, rfl⟩)
  · intro hunshared maxPerRead w _
    exact .of_unshared (Trial.faithful resolver maxPerRead) hunshared w

/-! ### Two keys -/

namespace TwoKeys

/-- Two keys, two messages at a time. -/
def settings : RelaySettings := { RelaySettings.default with topics := ["a", "b"], batchLimit := 2 }

/-- An endpoint where they stand for two topics. -/
def apart : Endpoint.Resolver := ⟨(SortedMap.empty.insert "a" "s").insert "b" "t"⟩

/-- An endpoint where they stand for one. -/
def together : Endpoint.Resolver := ⟨(SortedMap.empty.insert "a" "t").insert "b" "t"⟩

theorem unshared_apart : Unshared apart.resolve? settings := by
  have hkeys : settings.keys.entries = [("a", ()), ("b", ())] := by decide +kernel
  have hcases : ∀ key, settings.keys.contains key = true → key = "a" ∨ key = "b" := by
    intro key hcontains
    obtain ⟨u, hu⟩ := SortedMap.contains_iff.mp hcontains
    have hmem := SortedMap.get?_eq_some_iff.mp hu
    simp only [hkeys, List.mem_cons, Prod.mk.injEq, List.not_mem_nil, or_false, and_true] at hmem
    exact hmem
  have hne : apart.resolve? "a" ≠ apart.resolve? "b" := by decide +kernel
  intro key other topic hkey hother htopic htopic'
  rcases hcases key hkey with rfl | rfl <;> rcases hcases other hother with rfl | rfl
  · rfl
  · exact absurd (htopic.trans htopic'.symm) hne
  · exact absurd (htopic'.trans htopic.symm) hne
  · rfl

/-- Apart they are safe, where publications fail and where they do not. -/
theorem checkpointsHold_apart : (0 : UInt32) < settings.batchLimit
    ∧ CheckpointsHold (Trial.surroundings apart 2) Trial.view apart.resolve? settings
        (contested "t" 2) := by
  have hlimit : (0 : UInt32) < settings.batchLimit := by decide
  exact ⟨hlimit, (checkpointsHold_iff_unshared apart settings hlimit).mpr unshared_apart 2 _
    ⟨rfl, rfl, rfl⟩⟩

/-- What becomes of them when they are together. -/
def after (deeds : List Deed) : Tracking × Trial :=
  Deed.performAll (Trial.surroundings together 2) (.new settings, contested "t" 2) deeds

/-- Together they are not: the third cycle takes the offset back; and when a new monitor begins after
    each of the first two cycles, nothing is left to come and one of them has got nothing. -/
theorem not_checkpointsHold_together :
    (contested "t" 2).OnlyPublicationsFail
    ∧ ¬ CheckpointsHold (Trial.surroundings together 2) Trial.view together.resolve? settings
      (contested "t" 2)
    ∧ (Trial.view.offset (after [.resolve, .cycle, .cycle]).2 "t" settings.subscriber
        = some "00000000000000000003"
      ∧ Trial.view.offset (after [.resolve, .cycle, .cycle, .cycle]).2 "t" settings.subscriber
        = some "00000000000000000002")
    ∧ (Trial.view.offset (after [.resolve, .cycle, .restart, .resolve, .cycle, .restart]).2 "t"
        settings.subscriber = some "00000000000000000003"
      ∧ Trial.view.own (after [.resolve, .cycle, .restart, .resolve, .cycle, .restart]).2 "b"
        = []) := by
  have hbefore : Trial.view.offset (after [.resolve, .cycle, .cycle]).2 "t" settings.subscriber
      = some "00000000000000000003" := by decide +kernel
  have hafter : Trial.view.offset (after [.resolve, .cycle, .cycle, .cycle]).2 "t"
      settings.subscriber = some "00000000000000000002" := by decide +kernel
  refine ⟨⟨rfl, rfl, rfl⟩, ?_, ⟨hbefore, hafter⟩, by decide +kernel, by decide +kernel⟩
  intro hhold
  have hlater : after [.resolve, .cycle, .cycle, .cycle]
      = Deed.performAll (Trial.surroundings together 2) (after [.resolve, .cycle, .cycle]) [.cycle] :=
    List.foldl_append (l := [Deed.resolve, .cycle, .cycle])
  have hle := hhold.forward (after [.resolve, .cycle, .cycle])
    (after [.resolve, .cycle, .cycle, .cycle]) (Deed.run_performAll _ _ _ _)
    (hlater ▸ Deed.run_performAll _ _ _ _) "t"
  rw [hbefore, hafter] at hle
  have hlt : "00000000000000000002" < "00000000000000000003" := by decide +kernel
  exact absurd hlt (String.not_lt.mpr hle)

end TwoKeys
end TopicRelay.Monitor
