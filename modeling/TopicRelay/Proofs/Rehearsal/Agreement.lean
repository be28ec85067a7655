/-
  What a monitor asks, and what an endpoint accepts.

  A monitor checks its settings before it starts, so that an endpoint will not refuse what it asks for.
  An endpoint checks the keys, the limits and the ids of each request, and its length before that.

    limits   are those of the settings, which are checked
    ids      are those that a log has issued, wherever they were stored or remembered (`IssuedOnly`)
    keys     are those of the settings as well, but they are not checked
    length   the longest request is a fetch for all keys, each after some message

  specification   nothing that a monitor asks is refused, whatever topics the remote names and whatever
                  was relayed before (`NeverRefused`)
  what is so      this, if and only if all its keys are valid and its longest request is not too long
                  (`neverRefused_iff`)
  crux            the longest request is asked (`OneEach.asked_largest`), and each other one is as long
                  at most (`length_request_le`)

  After it stands a key that is not valid.
-/
import TopicRelay.Proofs.Endpoint.Exchange
import TopicRelay.Proofs.Monitor.Whereabouts
import TopicRelay.Proofs.Monitor.WholeAnswer
import TopicRelay.Proofs.Wire.RequestLength

namespace TopicRelay

open Monitor
open Wire (ConsumeRequest ConsumeRequests TopicMessages)

/-! ## What an endpoint accepts -/

namespace Monitor.Question

/-- The request for a question. -/
def request : Question → Http.Request
  | .topics keys => Client.topicsRequest "" keys
  | .messages requests => Client.fetchRequest "" requests

/-- Whether a question passes the checks of an endpoint with the default limit. -/
def IsValid : Question → Prop
  | .topics keys => ∀ key ∈ keys.keys, Wire.TopicKey.isValid key = true
  | .messages requests => ConsumeRequests.problem? ConsumeRequests.maxLimit requests = none

end Monitor.Question

namespace Endpoint.Api

theorem status_of_readBody_error {τ α : Type} {api : Api τ} {item : Json.Reader α} {r : Http.Request}
    {refusal : Refusal} (h : api.readBody item r = .error refusal) (answer : α → Http.Response × Api τ) :
    (api.withBody item r answer).1.status ≠ 200 := by
  rw [withBody, h]
  show refusal.status ≠ 200
  cases refusal <;> rw [Refusal.status] <;> decide

variable {τ : Type}

/-- Of the questions for topics those with valid keys are answered, unless they are too long. -/
theorem status_topics_iff (read : LogReader τ) (api : Api τ) (keys : TopicKeys) :
    (api.handle read (Client.topicsRequest "" keys)).1.status = 200
      ↔ (∀ key ∈ keys.keys, Wire.TopicKey.isValid key = true)
        ∧ (Wire.printKeys keys).length ≤ api.settings.server.maxRequestBytes.toNat := by
  rw [handle_topicsRequest]
  rcases Nat.lt_or_ge api.settings.server.maxRequestBytes.toNat (Wire.printKeys keys).length
    with hlong | hfits
  · have hbody := readBody_of_long Wire.keysReader Wire.Path.topics hlong
    exact iff_of_false (status_of_readBody_error hbody _) fun h => Nat.not_le.mpr hlong h.2
  · have hbody : api.readBody Wire.keysReader (Client.topicsRequest "" keys) = .ok keys :=
      readBody_request Wire.Path.topics (Wire.document_keys keys) hfits
    rw [and_iff_left hfits, withBody, hbody]
    simp only [answerTopics]
    split
    · next key hkey =>
      have hinvalid := List.find?_some hkey
      refine iff_of_false (by decide : (400 : Nat) ≠ 200) fun hvalid => ?_
      rw [hvalid key (List.mem_of_find?_eq_some hkey)] at hinvalid
      cases hinvalid
    · next hnone =>
      refine iff_of_true rfl fun key hkey => ?_
      simpa using List.find?_eq_none.mp hnone key hkey

/-- Of the fetches those without a problem. -/
theorem status_fetch_iff (read : LogReader τ) (api : Api τ) (requests : ConsumeRequests) :
    (api.handle read (Client.fetchRequest "" requests)).1.status = 200
      ↔ ConsumeRequests.problem? api.settings.relay.maxLimit requests = none
        ∧ requests.print.length ≤ api.settings.server.maxRequestBytes.toNat := by
  rw [handle_fetchRequest]
  rcases Nat.lt_or_ge api.settings.server.maxRequestBytes.toNat requests.print.length
    with hlong | hfits
  · have hbody := readBody_of_long ConsumeRequests.reader Wire.Path.metadata hlong
    exact iff_of_false (status_of_readBody_error hbody _) fun h => Nat.not_le.mpr hlong h.2
  · have hbody : api.readBody ConsumeRequests.reader (Client.fetchRequest "" requests) = .ok requests :=
      readBody_request Wire.Path.metadata (Wire.document_requests requests) hfits
    rw [and_iff_left hfits, withBody, hbody]
    simp only [answerMetadata, increment]
    split
    · next problem hproblem =>
      rw [hproblem]
      exact iff_of_false (by decide : (400 : Nat) ≠ 200) fun h => by cases h
    · next hnone => exact iff_of_true rfl hnone

/-- **What is answered** is what is valid and not too long. -/
theorem status_handle_iff (read : LogReader τ) {api : Api τ}
    (hlimit : api.settings.relay.maxLimit = ConsumeRequests.maxLimit) (q : Question) :
    (api.handle read q.request).1.status = 200
      ↔ q.IsValid ∧ q.request.body.length ≤ api.settings.server.maxRequestBytes.toNat := by
  cases q with
  | topics keys => exact api.status_topics_iff read keys
  | messages requests =>
    have hstatus := api.status_fetch_iff read requests
    rw [hlimit] at hstatus
    exact hstatus

end Endpoint.Api

/-! ## Ids that were issued -/

/-- A log in memory has given this id to a message. -/
def Issued (id : MessageId) : Prop :=
  ∃ (log : MemoryLog) (topic : TopicName) (m : Message),
    log.Filled ∧ m ∈ log.messages topic ∧ m.id = id

theorem Issued.exists_formatId {id : MessageId} (h : Issued id) : ∃ n, id = MemoryLog.formatId n := by
  obtain ⟨log, topic, m, hfilled, hm, rfl⟩ := h
  exact hfilled.formatted hm

/-- A world whose messages come from logs in memory, and whose offsets change by commits only.  How its
    answers are cut and what errors are in them does not matter, nor what topics are named for keys. -/
structure RelaysFromMemory {σ : Type} (env : Surroundings σ) (row : Rows σ) : Prop where
  rows : KeepsRows env row
  fetched : ∀ requests w, ∀ e ∈ (env.fetch requests w).1.elements, ∀ m ∈ e.messages, Issued m.id

/-- The offsets have come about by relaying. -/
inductive Reached {σ : Type} (env : Surroundings σ) (row : Rows σ) : σ → Prop where
  | fresh {w : σ} (h : ∀ topic subscriber, row w topic subscriber = none) : Reached env row w
  | relayed {w : σ} (h : Reached env row w) (settings : RelaySettings) (deeds : List Deed) :
      Reached env row (Deed.performAll env (.new settings, w) deeds).2

/-- All ids that are stored or remembered were issued. -/
structure IssuedOnly {σ : Type} (row : Rows σ) (resolved : SortedMap TopicProgress) (w : σ) : Prop where
  stored : ∀ topic subscriber id, row w topic subscriber = some id → Issued id
  remembered : ∀ key p id, resolved.get? key = some p → p.lastMessageId = some id → Issued id

namespace IssuedOnly

variable {σ : Type} {env : Surroundings σ} {row : Rows σ} {resolved resolved' : SortedMap TopicProgress}
  {i i' : Intake} {t t' : Tracking} {w w' : σ}

theorem of_row (h : IssuedOnly row resolved w) (hrow : row w' = row w) : IssuedOnly row resolved w' := by
  refine ⟨fun topic subscriber id hid => ?_, h.remembered⟩
  rw [hrow] at hid
  exact h.stored topic subscriber id hid

theorem narrow (h : IssuedOnly row resolved w) (hn : Narrower resolved' resolved) :
    IssuedOnly row resolved' w := by
  refine ⟨h.stored, fun key p' id hp' hid => ?_⟩
  obtain ⟨p, hp, -, -, hlast⟩ := hn key p' hp'
  exact h.remembered key p id hp (hlast ▸ hid)

/-- **A commit** stores and remembers the id of a message that has come. -/
theorem commitLast (hrows : KeepsRows env row) (h : IssuedOnly row i.resolved w) {e : TopicMessages}
    (hissued : ∀ m ∈ e.messages, Issued m.id) {p : TopicProgress} {subscriber : SubscriberName}
    {x : Except RelayError Unit} (hcommit : Intake.commitLast env subscriber p e i w = (x, i', w')) :
    IssuedOnly row i'.resolved w' := by
  rcases Intake.commitLast_cases hcommit with
    ⟨-, -, rfl, rfl⟩ | ⟨id, hlast, -, ⟨y, hput, -, rfl⟩ | ⟨hput, -, rfl⟩⟩
  · exact h
  · exact h.of_row (hrows.refused hput)
  · have hnew : Issued id := by
      obtain ⟨m, hm, rfl⟩ := Option.map_eq_some_iff.mp hlast
      exact hissued m (List.mem_of_getLast? hm)
    obtain ⟨hself, hothers⟩ := hrows.committed hput
    refine ⟨fun topic s id' hid' => ?_, fun key q id' hq hid' => ?_⟩
    · by_cases hrow : topic = p.remoteTopic ∧ s = subscriber
      · rw [hrow.1, hrow.2, hself] at hid'
        cases hid'
        exact hnew
      · rw [hothers topic s (by rwa [← not_and_or])] at hid'
        exact h.stored topic s id' hid'
    · by_cases hkey : key = e.topic
      · rw [hkey, Intake.advance, SortedMap.get?_insert_self] at hq
        cases hq
        cases hid'
        exact hnew
      · rw [Intake.advance, SortedMap.get?_insert_ne i.resolved hkey] at hq
        exact h.remembered key q id' hq hid'

theorem accept (hrows : KeepsRows env row) (h : IssuedOnly row i.resolved w) {e : TopicMessages}
    (hissued : ∀ m ∈ e.messages, Issued m.id) {subscriber : SubscriberName} {x : Except RelayError Unit}
    (haccept : Intake.accept env subscriber e i w = (x, i', w')) : IssuedOnly row i'.resolved w' := by
  rcases Intake.accept_cases haccept with ⟨-, rfl, rfl⟩ | ⟨p, hp, ⟨-, -, rfl, rfl⟩ | ⟨-, hrelay⟩⟩
  · exact h
  · rw [Intake.resolved_note]
    exact h
  · rcases Intake.relay_cases hrelay with
      ⟨y, hpublish, -, rfl⟩ | ⟨i₁, w₁, hpublish, hcommit, hresolved, -⟩
    · exact h.of_row (hrows.publishAll hpublish)
    · rw [hresolved]
      exact (h.of_row (hrows.publishAll hpublish)).commitLast hrows hissued hcommit

/-- **A cycle**, however it ends. -/
theorem pollCycle (hmemory : RelaysFromMemory env row) (h : IssuedOnly row t.resolved w)
    {x : Except Halt CycleSummary} (hcycle : t.pollCycle env w = (x, t', w')) :
    IssuedOnly row t'.resolved w' := by
  rcases Tracking.pollCycle_cases hcycle with
    ⟨-, -, rfl, rfl⟩ | ⟨d, w₁, x₁, i, hfetch, hall, hend⟩
  · exact h
  · have hfetched : row w₁ = row w := by
      have hsame := hmemory.rows.fetch t.requests w
      rwa [hfetch] at hsame
    have hissued : ∀ e ∈ d.elements, ∀ m ∈ e.messages, Issued m.id := by
      have hcome := hmemory.fetched t.requests w
      rwa [hfetch] at hcome
    have hdone : IssuedOnly row i.resolved w' := by
      refine Intake.acceptAll_keeps (P := fun j v => IssuedOnly row j.resolved v)
        (fun j v hj => hj.of_row (hmemory.rows.arrive v)) ?_ (h.of_row hfetched) hall
      intro e he j v y j' v' hj haccept
      exact hj.accept hmemory.rows (hissued e he) haccept
    rcases hend with ⟨-, rfl⟩ | ⟨-, -, -, rfl⟩
    · exact hdone
    · exact hdone.narrow (t.conclude_spec i).1

/-- **A resolution**, however it ends. -/
theorem resolveTopics (hrows : KeepsRows env row) (h : IssuedOnly row t.resolved w)
    {x : Except Halt Nat} (hresolve : t.resolveTopics env w = (x, t', w')) :
    IssuedOnly row t'.resolved w' := by
  rcases Tracking.resolveTopics_cases hresolve with ⟨rfl, rfl⟩ | ⟨answer, w₁, hanswer, hend⟩
  · exact h
  · obtain ⟨rfl, rfl⟩ := Prod.mk.inj hanswer
    have hnext := h.of_row (hrows.resolve t.unresolved w)
    rcases hend with ⟨rfl, rfl⟩ | ⟨mapping, x₁, -, hall⟩
    · exact hnext
    · have hload : ∀ {topic subscriber v y v'}, env.offset topic subscriber v = (y, v') →
          row v' = row v := by
        intro topic subscriber v y v' heq
        have hsame := hrows.load topic subscriber v
        rwa [heq] at hsame
      refine Tracking.adoptAll_keeps (P := fun t v => IssuedOnly row t.resolved v)
        (fun e _ t v y v' hkept heq => hkept.of_row (hload heq)) ?_ hnext hall
      intro e _ t v last v' hkept _ heq
      refine ⟨(hkept.of_row (hload heq)).stored, fun key p id hp hid => ?_⟩
      by_cases hkey : key = e.1
      · rw [hkey, Tracking.adopt, SortedMap.get?_insert_self] at hp
        cases hp
        exact hkept.stored _ _ id ((hrows.loaded heq).symm.trans hid)
      · rw [Tracking.adopt, SortedMap.get?_insert_ne t.resolved hkey] at hp
        exact hkept.remembered key p id hp hid

theorem performAll (hmemory : RelaysFromMemory env row) (deeds : List Deed) {x : Tracking × σ}
    (h : IssuedOnly row x.1.resolved x.2) :
    IssuedOnly row (Deed.performAll env x deeds).1.resolved (Deed.performAll env x deeds).2 := by
  induction deeds generalizing x with
  | nil => exact h
  | cons deed deeds ih =>
    refine ih (x := deed.perform env x) ?_
    cases deed with
    | resolve => exact h.resolveTopics hmemory.rows rfl
    | cycle => exact h.pollCycle hmemory rfl
    | restart => exact ⟨h.stored, fun key p id hp => by cases hp⟩

/-- Wherever relaying has led, a new monitor begins with ids that were issued. -/
theorem of_reached (hmemory : RelaysFromMemory env row) (h : Reached env row w)
    (settings : RelaySettings) : IssuedOnly row (Tracking.new settings).resolved w := by
  have hstored : ∀ topic subscriber id, row w topic subscriber = some id → Issued id := by
    induction h with
    | fresh hnone =>
      intro topic subscriber id hid
      rw [hnone] at hid
      cases hid
    | @relayed w _ earlier deeds ih =>
      exact (performAll hmemory deeds (x := (.new earlier, w))
        ⟨ih, fun key p id hp => by cases hp⟩).stored
  exact ⟨hstored, fun key p id hp => by cases hp⟩

end IssuedOnly

/-! ## What a monitor asks -/

namespace Monitor

/-- What is asked for a key after a message.  All ids are as long as this one. -/
def RelaySettings.resumed (settings : RelaySettings) : ConsumeRequest :=
  ⟨some (MemoryLog.formatId 1), settings.batchLimit⟩

/-- A fetch for all keys, each after a message. -/
def RelaySettings.largest (settings : RelaySettings) : ConsumeRequests :=
  settings.keys.map fun _ _ => settings.resumed

theorem RelaySettings.keys_largest (settings : RelaySettings) :
    settings.largest.keys = settings.keys.keys := by
  rw [largest, SortedMap.keys, SortedMap.map, List.map_map]
  rfl

/-- Checked settings have a limit that is accepted. -/
theorem RelaySettings.batchLimit_of_problem? {settings : RelaySettings} (h : settings.problem? = none) :
    settings.batchLimit ≠ 0 ∧ settings.batchLimit ≤ ConsumeRequests.maxLimit := by
  rw [problem?] at h
  split at h
  · cases h
  · next hlimit =>
    rw [not_or, UInt32.not_lt] at hlimit
    exact hlimit

variable {σ : Type} {settings : RelaySettings} {t : Tracking} {row : Rows σ} {w : σ}

/-! ### Only keys that are to be relayed -/

theorem EachInOnePlace.contains_keys (h : EachInOnePlace settings t) {key : TopicKey} (place : Place)
    (hat : t.IsAt key place) : settings.keys.contains key = true :=
  RelaySettings.contains_keys_iff.mpr ((h.somewhere key).mpr ⟨place, hat⟩)

theorem EachInOnePlace.mem_keys_of_unresolved (h : EachInOnePlace settings t) {key : TopicKey}
    (hkey : key ∈ t.unresolved.keys) : key ∈ settings.keys.keys :=
  SortedMap.contains_iff_mem_keys.mp
    (h.contains_keys .unresolved (SortedMap.contains_iff_mem_keys.mpr hkey))

theorem EachInOnePlace.mem_keys_of_requested (h : EachInOnePlace settings t) {key : TopicKey}
    (hkey : key ∈ t.requests.keys) : key ∈ settings.keys.keys := by
  rw [t.keys_requests] at hkey
  exact SortedMap.contains_iff_mem_keys.mp
    (h.contains_keys .resolved (SortedMap.contains_iff_mem_keys.mpr hkey))

/-! ### Each question -/

/-- **What is asked is valid**, if the keys are. -/
theorem isValid_of_mem_questions (hplaced : EachInOnePlace settings t)
    (hissued : IssuedOnly row t.resolved w) (h : settings.problem? = none)
    (hkeys : ∀ key ∈ settings.keys.keys, Wire.TopicKey.isValid key = true)
    {deed : Deed} {q : Question} (hq : q ∈ deed.questions t) : q.IsValid := by
  rcases mem_questions hq with ⟨-, rfl⟩ | ⟨-, rfl⟩
  · exact fun key hkey => hkeys key (hplaced.mem_keys_of_unresolved hkey)
  · refine Endpoint.problem?_eq_none_iff.mpr fun e he => Endpoint.entryProblem?_eq_none_iff.mpr ?_
    have hvalid := hkeys e.1 (hplaced.mem_keys_of_requested (List.mem_map_of_mem he))
    obtain ⟨⟨key, p⟩, hp, rfl⟩ := List.mem_map.mp he
    have hresolved : t.resolved.get? key = some p := SortedMap.get?_eq_some_iff.mpr hp
    obtain ⟨hzero, hmax⟩ := RelaySettings.batchLimit_of_problem? (hplaced.configured ▸ h)
    refine ⟨hvalid, hzero, hmax, fun hempty => ?_⟩
    obtain ⟨n, hn⟩ := (hissued.remembered key p "" hresolved hempty).exists_formatId
    exact MemoryLog.formatId_ne_empty n hn.symm

/-- What is asked for a key takes no more bytes than it can. -/
theorem length_print_request_le (hissued : IssuedOnly row t.resolved w) {key : TopicKey}
    {p : TopicProgress} (hp : t.resolved.get? key = some p) :
    (ConsumeRequest.mk p.lastMessageId settings.batchLimit).print.length
      ≤ settings.resumed.print.length := by
  have hid : (Json.Printer.optionalText p.lastMessageId).length ≤ 22 := by
    cases hlast : p.lastMessageId with
    | none => decide
    | some id =>
      obtain ⟨n, rfl⟩ := (hissued.remembered key p id hp hlast).exists_formatId
      exact Nat.le_of_eq (MemoryLog.length_text_formatId n)
  have hresumed : (Json.Printer.optionalText settings.resumed.lastMessageId).length = 22 :=
    MemoryLog.length_text_formatId 1
  rw [ConsumeRequest.length_print, ConsumeRequest.length_print, hresumed]
  exact Nat.add_le_add_right (Nat.add_le_add_left hid 27) _

/-- **What is asked is no longer than the longest.** -/
theorem length_request_le (hplaced : EachInOnePlace settings t) (hissued : IssuedOnly row t.resolved w)
    {deed : Deed} {q : Question} (hq : q ∈ deed.questions t) :
    settings.keys.isEmpty = false ∧ q.request.body.length ≤ settings.largest.print.length := by
  rcases mem_questions hq with ⟨hne, rfl⟩ | ⟨hsome, rfl⟩
  · have hkeys : ∀ key ∈ t.unresolved.keys, key ∈ settings.keys.keys :=
      fun _ => hplaced.mem_keys_of_unresolved
    exact ⟨SortedMap.isEmpty_of_keys_subset hne hkeys,
      Wire.length_printKeys_le hne (settings.keys_largest ▸ hkeys)⟩
  · have hne : t.requests.isEmpty = false := (SortedMap.isEmpty_map _ _).trans hsome
    have hkeys : ∀ key ∈ t.requests.keys, key ∈ settings.keys.keys :=
      fun _ => hplaced.mem_keys_of_requested
    have hle : ∀ e ∈ t.requests.entries, e.2.print.length ≤ settings.resumed.print.length := by
      intro e he
      obtain ⟨⟨key, p⟩, hp, rfl⟩ := List.mem_map.mp he
      rw [hplaced.configured]
      exact length_print_request_le hissued (SortedMap.get?_eq_some_iff.mpr hp)
    have hfull : ∀ e ∈ settings.largest.entries, e.2.print.length = settings.resumed.print.length := by
      intro e he
      obtain ⟨d, -, rfl⟩ := List.mem_map.mp he
      rfl
    exact ⟨SortedMap.isEmpty_of_keys_subset hne hkeys,
      ConsumeRequests.length_print_le hne (settings.keys_largest ▸ hkeys) hle hfull⟩

end Monitor

/-! ## Each topic with one message -/

namespace OneEach

variable {settings : RelaySettings}

/-- The offsets that are stored. -/
abbrev World := TopicName → SubscriberName → Option MessageId

/-- The first message of a log. -/
def first : Message := ⟨MemoryLog.formatId 1, [1]⟩

theorem issued_first : Issued first.id :=
  ⟨MemoryLog.threeMessages "t", "t", first, MemoryLog.filled_threeMessages "t", by decide +kernel, rfl⟩

/-- They are changed by a commit. -/
def World.commit (w : World) (topic : TopicName) (subscriber : SubscriberName) (id : MessageId) :
    World := fun t s => if t = topic ∧ s = subscriber then some id else w t s

/-- A remote that names each key after itself and has one message for each, and stores that work. -/
def surroundings (settings : RelaySettings) : Surroundings World where
  isStopRequested _ := false
  isDeserted _ := false
  enter _ w := w
  resolve keys w := (.ok (Endpoint.Resolver.resolveAll ⟨settings.keys.map fun key _ => key⟩ keys), w)
  fetch requests w :=
    (⟨requests.keys.map fun key => TopicMessages.ofMessages key [first], .ok ()⟩, w)
  arrive w := w
  shutdown _ w := w
  publish _ _ w := (.ok first.id, w)
  offset topic subscriber w := (.ok (w topic subscriber), w)
  commit topic subscriber id w := (.ok (), w.commit topic subscriber id)
  draw _ w := (0, w)
  wait _ w := (true, w)

/-- Nothing is stored. -/
def begin : World := fun _ _ => none

theorem relaysFromMemory (settings : RelaySettings) :
    RelaysFromMemory (surroundings settings) (fun w => w) where
  rows :=
    { resolve := fun _ _ => rfl
      fetch := fun _ _ => rfl
      arrive := fun _ => rfl
      publish := fun _ _ _ => rfl
      load := fun _ _ _ => rfl
      loaded := by
        rintro topic subscriber w last w' ⟨⟩
        rfl
      refused := by
        rintro topic subscriber id w e w' ⟨⟩
      committed := by
        rintro topic subscriber id w w' ⟨⟩
        refine ⟨if_pos ⟨rfl, rfl⟩, fun t s hts => if_neg ?_⟩
        rwa [not_and_or] }
  fetched requests w e he m hm := by
    obtain ⟨key, -, rfl⟩ := List.mem_map.mp he
    rw [List.mem_singleton.mp hm]
    exact issued_first

theorem reached_begin (settings : RelaySettings) :
    Reached (surroundings settings) (fun w => w) begin :=
  .fresh fun _ _ => rfl

/-- The first message of a key is relayed and committed. -/
theorem accept_first (settings : RelaySettings) (subscriber : SubscriberName) (w : World)
    {key : TopicKey} {p : TopicProgress} {i : Intake} (hp : i.resolved.get? key = some p)
    (hlast : p.lastMessageId = none) :
    ∃ i' w', Intake.accept (surroundings settings) subscriber (.ofMessages key [first]) i w
        = (.ok (), i', w')
      ∧ Intake.Took key p [first] i i' := by
  have hrelay : Intake.accept (surroundings settings) subscriber (.ofMessages key [first]) i w
      = Intake.relay (surroundings settings) subscriber p (.ofMessages key [first]) i w :=
    Intake.accept_of_goesOn hp rfl
  have hnew : ¬ p.lastMessageId = some first.id := fun h => by
    rw [hlast] at h
    cases h
  have hpublish : Intake.publishAll (surroundings settings) p.localTopic
      (TopicMessages.ofMessages key [first]).messages w = (.ok (), w) := rfl
  have hcommit : Intake.commitLast (surroundings settings) subscriber p (.ofMessages key [first]) i w
      = (.ok (), i.advance key p first.id, w.commit p.remoteTopic subscriber first.id) := if_neg hnew
  refine ⟨(i.advance key p first.id).count key 1, w.commit p.remoteTopic subscriber first.id, ?_, ?_⟩
  · rw [hrelay]
    simp only [Intake.relay, hpublish, hcommit]
    rfl
  · exact ⟨SortedMap.get?_insert_self _ _ _, fun k hk => SortedMap.get?_insert_ne _ hk _,
      SortedMap.get?_insert_self _ _ _, fun k hk => SortedMap.get?_insert_ne _ hk _, rfl, rfl⟩

/-- All of them. -/
theorem acceptAll_first (settings : RelaySettings) (subscriber : SubscriberName) (w : World)
    {entries : List (TopicKey × TopicProgress)} (hnodup : (entries.map Prod.fst).Nodup) {i : Intake}
    (hresolved : ∀ e ∈ entries, i.resolved.get? e.1 = some e.2)
    (hlast : ∀ e ∈ entries, e.2.lastMessageId = none) :
    ∃ i' w', Intake.acceptAll (surroundings settings) subscriber
        (entries.map fun e => .ofMessages e.1 [first]) i w = (.ok (), i', w')
      ∧ Intake.TookAll entries (fun _ => [first]) i i' := by
  induction entries generalizing i w with
  | nil => exact ⟨i, w, rfl, .nil _ i⟩
  | cons e entries ih =>
    obtain ⟨hhead, htail⟩ := List.nodup_cons.mp hnodup
    have hne : ∀ d ∈ entries, e.1 ≠ d.1 := fun d hd heq => hhead (heq ▸ List.mem_map_of_mem hd)
    obtain ⟨i₁, w₁, haccept, htook⟩ := accept_first settings subscriber w
      (hresolved e List.mem_cons_self) (hlast e List.mem_cons_self)
    obtain ⟨i', w', hrest, htookAll⟩ := ih htail
      (fun d hd => (htook.others d.1 (hne d hd).symm).trans (hresolved d (List.mem_cons_of_mem _ hd)))
      (w := w₁) fun d hd => hlast d (List.mem_cons_of_mem _ hd)
    refine ⟨i', w', ?_, .cons hne htook htookAll⟩
    rw [List.map_cons, Intake.acceptAll, show (surroundings settings).arrive w = w from rfl, haccept]
    exact hrest

/-- After a resolution, each key is its own topic and has got nowhere. -/
theorem resolveTopics_begin (hne : settings.keys.isEmpty = false) :
    ∃ n t w, (Tracking.new settings).resolveTopics (surroundings settings) begin = (.ok n, t, w)
      ∧ t.settings = settings ∧ t.resolved.isEmpty = false
      ∧ ∀ key, t.resolved.get? key = (settings.keys.get? key).map fun _ =>
          Tracking.freshProgress settings (fun _ => none) key key := by
  have hnamed : ∀ {key u}, settings.keys.get? key = some u →
      (Endpoint.Resolver.mk (settings.keys.map fun key _ => key)).resolve? key = some key := by
    intro key u hu
    have hname := (RelaySettings.contains_keys_iff.mp (SortedMap.contains_iff.mpr ⟨u, hu⟩)).2
    rw [Endpoint.Resolver.resolve?, SortedMap.get?_map, hu, Option.map_some,
      Option.filter_some_pos (by rw [hname]; rfl)]
  have hload : ∀ topic w, w = begin → ∃ w', (surroundings settings).offset topic settings.subscriber w
      = (.ok none, w') ∧ w' = begin := by
    rintro topic w rfl
    exact ⟨begin, rfl, rfl⟩
  obtain ⟨n, t, w, hresolve, -, hsettings, hiff⟩ := Tracking.resolveTopics_of_loads (fun _ => none)
    settings hload rfl fun _ => ⟨begin, rfl, rfl⟩
  have hresolved : ∀ key, t.resolved.get? key = (settings.keys.get? key).map fun _ =>
      Tracking.freshProgress settings (fun _ => none) key key := by
    intro key
    refine Option.ext fun p => ?_
    rw [hiff, SortedMap.contains_iff, Option.map_eq_some_iff]
    constructor
    · rintro ⟨topic, ⟨u, hu⟩, htopic, rfl⟩
      rw [hnamed hu] at htopic
      cases htopic
      exact ⟨u, hu, rfl⟩
    · rintro ⟨u, hu, rfl⟩
      exact ⟨key, ⟨u, hu⟩, hnamed hu, rfl⟩
  refine ⟨n, t, w, hresolve, hsettings, ?_, hresolved⟩
  obtain ⟨key, hkey⟩ := SortedMap.exists_mem_keys hne
  obtain ⟨u, hu⟩ := SortedMap.mem_keys_iff.mp hkey
  have hp := hresolved key
  rw [hu, Option.map_some] at hp
  exact SortedMap.isEmpty_of_get? _ hp

/-- After a cycle, each key is past the first message. -/
theorem pollCycle_first (settings : RelaySettings) {t : Tracking} (hsome : t.resolved.isEmpty = false)
    (hlast : ∀ e ∈ t.resolved.entries, e.2.lastMessageId = none) (w : World) :
    ∃ x w', t.pollCycle (surroundings settings) w = (x, t.pastAll fun _ => [first], w') := by
  obtain ⟨i, w', hall, htook⟩ := acceptAll_first settings t.settings.subscriber w
    t.resolved.nodup_keys (i := .start t.resolved)
    (fun e he => SortedMap.get?_eq_some_iff.mpr he) hlast
  have hfetch : (surroundings settings).fetch t.requests w
      = (⟨t.resolved.entries.map fun e => .ofMessages e.1 [first], .ok ()⟩, w) := by
    show (Delivery.mk (t.requests.keys.map fun key => TopicMessages.ofMessages key [first]) _, w) = _
    rw [t.keys_requests, SortedMap.keys, List.map_map]
    rfl
  refine ⟨.ok (t.summaryOf fun _ => [first]), w', ?_⟩
  rw [Tracking.pollCycle_of_ok hsome hfetch hall rfl, Tracking.conclude_of_tookAll htook]
  rfl

/-- **The longest question is asked**, in the second cycle. -/
theorem asked_largest (hne : settings.keys.isEmpty = false) :
    .messages settings.largest ∈ asked (Deed.performAll (surroundings settings).recorded
      (.new settings, .begin begin) [.resolve, .cycle, .cycle]).2.events := by
  obtain ⟨n, t, w, hresolve, hsettings, hsome, hresolved⟩ := resolveTopics_begin hne
  have hlast : ∀ e ∈ t.resolved.entries, e.2.lastMessageId = none := by
    intro e he
    have hp := SortedMap.get?_eq_some_iff.mpr he
    rw [hresolved, Option.map_eq_some_iff] at hp
    obtain ⟨-, -, hp⟩ := hp
    rw [← hp]
    rfl
  obtain ⟨x, w', hcycle⟩ := pollCycle_first settings hsome hlast w
  have hlargest : (t.pastAll fun _ => [first]).requests = settings.largest := by
    refine SortedMap.ext_get? fun key => ?_
    rw [Tracking.requests, Tracking.pastAll, RelaySettings.largest]
    simp only [SortedMap.get?_map, hresolved, Option.map_map, hsettings]
    rfl
  have hstill : (t.pastAll fun _ => [first]).resolved.isEmpty = false :=
    (SortedMap.isEmpty_map _ _).trans hsome
  have hthird : Deed.cycle.perform (surroundings settings)
      (Deed.resolve.perform (surroundings settings) (.new settings, begin))
      = (t.pastAll fun _ => [first], w') := by
    rw [Deed.perform, Deed.perform, hresolve, hcycle]
  rw [asked_performAll, Deed.allQuestions, Deed.allQuestions, Deed.allQuestions]
  refine List.mem_append_right _ (List.mem_append_right _ (List.mem_append_right _
    (List.mem_append_left _ ?_)))
  show _ ∈ Deed.questions (Deed.cycle.perform (surroundings settings)
    (Deed.resolve.perform (surroundings settings) (.new settings, begin))).1 .cycle
  rw [hthird, Deed.questions, hstill, hlargest]
  exact List.mem_singleton_self _

/-- All keys are asked for, first of all. -/
theorem asked_keys (hne : settings.keys.isEmpty = false) :
    .topics settings.keys ∈ asked (Deed.performAll (surroundings settings).recorded
      (.new settings, .begin begin) [.resolve]).2.events := by
  rw [asked_performAll, Deed.allQuestions]
  refine List.mem_append_right _ (List.mem_append_left _ ?_)
  rw [Deed.questions, show (Tracking.new settings).unresolved = settings.keys from rfl, hne]
  exact List.mem_singleton_self _

end OneEach

/-! ## Both sides -/

/-- **Nothing is refused** of what a monitor with these settings asks, wherever relaying has led before:
    it passes all checks of an endpoint that has the default limit, and one that takes requests of so many
    bytes answers it. -/
def NeverRefused (settings : RelaySettings) (maxBytes : UInt64) : Prop :=
  ∀ {σ : Type} (env : Surroundings σ) (row : Rows σ), RelaysFromMemory env row →
    ∀ w, Reached env row w → ∀ deeds,
      ∀ q ∈ asked (Deed.performAll env.recorded (.new settings, .begin w) deeds).2.events,
        q.IsValid ∧ ∀ {τ : Type} (read : LogReader τ) (api : Endpoint.Api τ),
          api.settings.relay.maxLimit = ConsumeRequests.maxLimit →
          api.settings.server.maxRequestBytes = maxBytes →
          (api.handle read q.request).1.status = 200

/-- An endpoint with defaults, but for how many bytes it takes. -/
def taking (maxBytes : UInt64) : Endpoint.Api MemoryLog :=
  .new { Endpoint.Settings.default with
    server := { Endpoint.ServerSettings.default with maxRequestBytes := maxBytes } } (.new false)

/-- **Checked settings are not refused** if and only if their keys are valid too, and a fetch for all of
    them is not too long. -/
theorem neverRefused_iff {settings : RelaySettings} (h : settings.problem? = none) (maxBytes : UInt64) :
    NeverRefused settings maxBytes
      ↔ (∀ key ∈ settings.keys.keys, Wire.TopicKey.isValid key = true)
        ∧ (settings.keys.isEmpty = false → settings.largest.print.length ≤ maxBytes.toNat) := by
  constructor
  · intro hnever
    have hasked := hnever (OneEach.surroundings settings) (fun w => w)
      (OneEach.relaysFromMemory settings) OneEach.begin (OneEach.reached_begin settings)
    refine ⟨fun key hkey => ?_, fun hne => ?_⟩
    · obtain ⟨u, hu⟩ := SortedMap.mem_keys_iff.mp hkey
      exact (hasked _ _ (OneEach.asked_keys (SortedMap.isEmpty_of_get? _ hu))).1 key hkey
    · have hanswered := (hasked _ _ (OneEach.asked_largest hne)).2 Endpoint.memoryReader
        (taking maxBytes) rfl rfl
      exact ((taking maxBytes).status_handle_iff Endpoint.memoryReader rfl _).mp hanswered |>.2
  · rintro ⟨hkeys, hlength⟩ σ env row hmemory w hreached deeds q hq
    rw [asked_performAll] at hq
    obtain ⟨earlier, deed, -, hq⟩ := exists_of_mem_allQuestions hq
    have hplaced := (EachInOnePlace.performAll env earlier (x := (.new settings, w)) (.new settings)).1
    have hissued := IssuedOnly.performAll hmemory earlier (x := (.new settings, w))
      (.of_reached hmemory hreached settings)
    have hvalid := isValid_of_mem_questions hplaced hissued h hkeys hq
    obtain ⟨hne, hle⟩ := length_request_le hplaced hissued hq
    refine ⟨hvalid, fun read api hlimit hmax => (api.status_handle_iff read hlimit q).mpr ⟨hvalid, ?_⟩⟩
    rw [hmax]
    exact hle.trans (hlength hne)

/-- Defaults, and one key. -/
def oneKey (key : TopicKey) : RelaySettings := { RelaySettings.default with topics := [key] }

/-- A key of one letter is asked for as long as there is room for 65536 bytes. -/
theorem neverRefused_letter : (oneKey "a").problem? = none ∧ NeverRefused (oneKey "a") 65536 := by
  have hchecked : (oneKey "a").problem? = none := by decide +kernel
  exact ⟨hchecked, (neverRefused_iff hchecked 65536).mpr ⟨by decide +kernel, fun _ => by decide +kernel⟩⟩

/-- A key of two words passes the check, and is refused. -/
theorem not_neverRefused_words :
    (oneKey "program status").problem? = none ∧ ¬ NeverRefused (oneKey "program status") 65536 := by
  refine ⟨by decide +kernel, fun hnever => ?_⟩
  have hvalid := (hnever (OneEach.surroundings (oneKey "program status")) (fun w => w)
    (OneEach.relaysFromMemory _) OneEach.begin (OneEach.reached_begin _) _ _
    (OneEach.asked_keys (by decide +kernel))).1 "program status" (by decide +kernel)
  exact absurd hvalid (by decide +kernel)

end TopicRelay
