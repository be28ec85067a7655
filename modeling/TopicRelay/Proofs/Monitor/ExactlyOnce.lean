/-
  Nothing is lost and nothing is doubled, when nothing fails.

  specification   a cycle relays the next messages of each key, as many as may be asked for at once,
                  and says truly how many there were and whether more may be waiting (`WholeCycle`)
  the beginning   `Suited.placed`: the first resolution, if it succeeds, puts each key where its
                  offset is
  one cycle       `Prepared.cycle`: it does that, and leaves the monitor prepared for the next
  a run           after `k` cycles each key has relayed `k` times as many, up to the end
                  (`Advanced.cycles`); so it is at the end when there were cycles enough

  What can be refused is refused by the endpoint: an offset must not be the empty text, which a log in
  memory never gives out but a store of offsets may hold.
-/
import TopicRelay.Proofs.Monitor.Resolution
import TopicRelay.Proofs.Rehearsal.Joint

namespace TopicRelay.Monitor

open Endpoint (answerOf elementsOf elementsWith)
open Rehearsal (Joint)
open Wire (ConsumeRequest ConsumeRequests)

/-! ## What is asked of a cycle -/

/-- A cycle that comes to all it could. -/
structure WholeCycle {σ : Type} (env : Surroundings σ) (v : View σ) (x : Tracking × σ)
    (summary : CycleSummary) (y : Tracking × σ) : Prop where
  succeeds : x.1.pollCycle env x.2 = (.ok summary, y)
  relayed : ∀ key p, x.1.resolved.get? key = some p → v.own y.2 p.localTopic
    = v.own x.2 p.localTopic ++ (v.batch x.2 x.1.settings.batchLimit p).map (·.payload)
  others : ∀ topic, (∀ key p, x.1.resolved.get? key = some p → p.localTopic ≠ topic) →
    v.own y.2 topic = v.own x.2 topic
  committed : ∀ key p, x.1.resolved.get? key = some p →
    v.offset y.2 p.remoteTopic x.1.settings.subscriber
      = lastOf (v.offset x.2 p.remoteTopic x.1.settings.subscriber)
          (v.batch x.2 x.1.settings.batchLimit p)
  count : summary.messageCount
    = (x.1.resolved.values.flatMap (v.batch x.2 x.1.settings.batchLimit)).length
  drain : summary.drain = true ↔ ∃ key p, x.1.resolved.get? key = some p
    ∧ (v.batch x.2 x.1.settings.batchLimit p).length = x.1.settings.batchLimit.toNat
  found : summary.topicsNotFound = []

/-- A monitor whose keys are resolved, at an endpoint that has their topics. -/
structure Placed (t : Tracking) (w : Joint) : Prop where
  valid : ∀ key p, t.resolved.get? key = some p → Wire.TopicKey.isValid key = true
  named : ∀ key p, t.resolved.get? key = some p → w.api.resolver.resolve? key = some p.remoteTopic
  exist : ∀ key p, t.resolved.get? key = some p →
    w.api.log.topics.contains p.remoteTopic = true
  row : ∀ key p, t.resolved.get? key = some p →
    Joint.view.offset w p.remoteTopic t.settings.subscriber = p.lastMessageId
  accepts : ∀ key p, t.resolved.get? key = some p → w.own.Accepts p.localTopic
  /-- No two keys have a topic in common, on either side. -/
  apart : ∀ key p other q, t.resolved.get? key = some p → t.resolved.get? other = some q →
    key ≠ other → p.localTopic ≠ q.localTopic ∧ p.remoteTopic ≠ q.remoteTopic
  limit : 0 < t.settings.batchLimit ∧ t.settings.batchLimit ≤ w.api.settings.relay.maxLimit
  filled : w.api.log.Filled

/-- One whose offsets are such that the endpoint does not refuse them. -/
structure Prepared (t : Tracking) (w : Joint) : Prop extends Placed t w where
  start : ∀ key p, t.resolved.get? key = some p → p.lastMessageId ≠ some ""

/-! ## The beginning -/

/-- A configured key stands for a topic of the endpoint. -/
def StandsFor (settings : RelaySettings) (w : Joint) (key : TopicKey) (topic : TopicName) : Prop :=
  settings.keys.contains key = true ∧ w.api.resolver.resolve? key = some topic

/-- What a monitor is told, at an endpoint that has the topics. -/
structure Suited (settings : RelaySettings) (w : Joint) : Prop where
  valid : ∀ key, settings.keys.contains key = true → Wire.TopicKey.isValid key = true
  exist : ∀ key topic, StandsFor settings w key topic → w.api.log.topics.contains topic = true
  accepts : ∀ key, settings.keys.contains key = true → w.own.Accepts (settings.localTopic key)
  apart : ∀ key topic other topic', StandsFor settings w key topic →
    StandsFor settings w other topic' → key ≠ other →
    settings.localTopic key ≠ settings.localTopic other ∧ topic ≠ topic'
  limit : 0 < settings.batchLimit ∧ settings.batchLimit ≤ w.api.settings.relay.maxLimit
  filled : w.api.log.Filled

theorem Suited.valid_keys {settings : RelaySettings} {w : Joint} (h : Suited settings w) :
    ∀ key ∈ settings.keys.keys, Wire.TopicKey.isValid key = true :=
  fun key hkey => h.valid key (SortedMap.contains_iff_mem_keys.mpr hkey)

/-- A first resolution that succeeds is one that fits, unless there was nothing to ask. -/
theorem Suited.fits_of_ok {cut : Nat → Bytes → List Bytes}
    (hcut : ∀ n body, (cut n body).flatten = body) {settings : RelaySettings} {w : Joint}
    (h : Suited settings w) {n : Nat} {x : Tracking × Joint}
    (hresolve : (Tracking.new settings).resolveTopics (Joint.surroundings cut) w = (.ok n, x))
    (hempty : settings.keys.isEmpty = false) : Joint.ResolutionFits settings.keys w := by
  rw [Tracking.resolveTopics, show (Tracking.new settings).unresolved = settings.keys from rfl, hempty,
    if_neg Bool.false_ne_true] at hresolve
  split at hresolve
  · cases hresolve
  · next hanswer => exact Joint.fits_of_resolve hcut h.valid_keys hanswer

/-- **A monitor is placed after its first resolution**, each key that the endpoint knows at the offset
    of its topic. -/
theorem Suited.placed {cut : Nat → Bytes → List Bytes}
    (hcut : ∀ n body, (cut n body).flatten = body) {settings : RelaySettings} {w : Joint}
    (h : Suited settings w)
    (hfits : settings.keys.isEmpty = false → Joint.ResolutionFits settings.keys w) :
    ∃ n t w', (Tracking.new settings).resolveTopics (Joint.surroundings cut) w = (.ok n, t, w')
      ∧ Placed t w' ∧ t.settings = settings
      ∧ (∀ key p, t.resolved.get? key = some p ↔ ∃ topic, StandsFor settings w key topic
        ∧ p = Tracking.freshProgress settings (w.offsets.get · settings.subscriber) key topic)
      ∧ Joint.view.remote w' = Joint.view.remote w ∧ Joint.view.own w' = Joint.view.own w
      ∧ Joint.view.offset w' = Joint.view.offset w := by
  -- a resolution may count something at the endpoint, and that is all
  let same (w' : Joint) : Prop :=
    ∃ api', w' = { w with api := api' } ∧ api'.settings = w.api.settings ∧ api'.log = w.api.log
  have hload : ∀ topic w₁, same w₁ → ∃ w₂, (Joint.surroundings cut).offset topic
      settings.subscriber w₁ = (.ok (w.offsets.get topic settings.subscriber), w₂) ∧ same w₂ := by
    rintro topic w₁ ⟨api', rfl, hsame⟩
    exact ⟨_, rfl, api', rfl, hsame⟩
  have hanswer : settings.keys.isEmpty = false → ∃ w₁, (Joint.surroundings cut).resolve settings.keys w
      = (.ok (w.api.resolver.resolveAll settings.keys), w₁) ∧ same w₁ := by
    intro hempty
    obtain ⟨api₁, hresolve, hsettings₁, hlog₁⟩ := Joint.resolve_of_fits hcut h.valid_keys (hfits hempty)
    exact ⟨_, hresolve, api₁, rfl, hsettings₁, hlog₁⟩
  obtain ⟨n, t, w', hall, ⟨api', rfl, hsettings, hlog⟩, htold, hget⟩ :=
    Tracking.resolveTopics_of_loads (w.offsets.get · settings.subscriber) settings hload
      ⟨w.api, rfl, rfl, rfl⟩ hanswer
  have hresolved : ∀ key p, t.resolved.get? key = some p ↔ ∃ topic, StandsFor settings w key topic
      ∧ p = Tracking.freshProgress settings (w.offsets.get · settings.subscriber) key topic := by
    intro key p
    rw [hget]
    refine exists_congr fun topic => ?_
    rw [StandsFor, and_assoc]
  refine ⟨n, t, _, hall, ⟨?_, ?_, ?_, ?_, ?_, ?_, ?_, ?_⟩, htold, hresolved,
    congrArg MemoryLog.messages hlog, rfl, rfl⟩
  · intro key p hp
    obtain ⟨_, hstands, -⟩ := (hresolved key p).mp hp
    exact h.valid key hstands.1
  · intro key p hp
    obtain ⟨topic, hstands, rfl⟩ := (hresolved key p).mp hp
    show api'.resolver.resolve? key = some topic
    rw [Endpoint.Api.resolver, hsettings]
    exact hstands.2
  · intro key p hp
    obtain ⟨topic, hstands, rfl⟩ := (hresolved key p).mp hp
    show api'.log.topics.contains topic = true
    rw [hlog]
    exact h.exist key topic hstands
  · intro key p hp
    obtain ⟨topic, -, rfl⟩ := (hresolved key p).mp hp
    rw [htold]
    rfl
  · intro key p hp
    obtain ⟨topic, hstands, rfl⟩ := (hresolved key p).mp hp
    exact h.accepts key hstands.1
  · intro key p other q hp hq hne
    obtain ⟨topic, hstands, rfl⟩ := (hresolved key p).mp hp
    obtain ⟨topic', hstands', rfl⟩ := (hresolved other q).mp hq
    exact h.apart key topic other topic' hstands hstands' hne
  · show 0 < t.settings.batchLimit ∧ t.settings.batchLimit ≤ api'.settings.relay.maxLimit
    rw [htold, hsettings]
    exact h.limit
  · show api'.log.Filled
    rw [hlog]
    exact h.filled

/-! ## One cycle -/

/-- Past a batch there is what the batch left. -/
theorem following_lastOf {log : List Message} (hasc : Log.Ascending log) (last : Option MessageId)
    (n : Nat) : MemoryLog.following (lastOf last ((MemoryLog.following last log).take n)) log
      = (MemoryLog.following last log).drop n := by
  have hsplit := List.take_append_drop n (MemoryLog.following last log)
  rcases ((MemoryLog.following last log).take n).eq_nil_or_concat with hnil | ⟨batch, m, hconcat⟩
  · rw [hnil, List.nil_append] at hsplit
    rw [hnil, lastOf_nil]
    exact hsplit.symm
  · rw [List.concat_eq_append] at hconcat
    rw [hconcat] at hsplit
    rw [hconcat, lastOf_concat]
    exact Log.following_last hasc hsplit.symm

namespace Prepared

variable {cut : Nat → Bytes → List Bytes} {t : Tracking} {w : Joint}

theorem problem? (h : Prepared t w) :
    ConsumeRequests.problem? w.api.settings.relay.maxLimit t.requests = none := by
  refine Endpoint.problem?_eq_none_iff.mpr fun e he => ?_
  obtain ⟨⟨key, p⟩, hmem, rfl⟩ := List.mem_map.mp he
  have hp := SortedMap.get?_eq_some_iff.mpr hmem
  refine Endpoint.entryProblem?_eq_none_iff.mpr ⟨h.valid key p hp, ?_, h.limit.2, h.start key p hp⟩
  intro hzero
  have hpos := h.limit.1
  rw [show t.settings.batchLimit = 0 from hzero] at hpos
  exact absurd hpos (UInt32.lt_irrefl 0)

theorem entries_apart (h : Prepared t w) : t.resolved.entries.Pairwise Apart := by
  refine (List.pairwise_map.mp t.resolved.ascending).imp_of_mem fun {d e} hd he hlt => ?_
  have hne := String.ne_of_lt hlt
  obtain ⟨hlocal, hremote⟩ := h.apart d.1 d.2 e.1 e.2 (SortedMap.get?_eq_some_iff.mpr hd)
    (SortedMap.get?_eq_some_iff.mpr he) hne
  exact ⟨hne, hlocal, hremote⟩

/-- The answer of the endpoint, key by key. -/
theorem answerOf_requests (h : Prepared t w) :
    answerOf w.api.resolver w.api.log w.api.settings.relay.maxMessagesPerRead t.requests
      = t.resolved.entries.flatMap fun e => elementsWith w.api.settings.relay.maxMessagesPerRead e.1
          (Joint.view.batch w t.settings.batchLimit e.2) := by
  show (t.resolved.entries.map _).flatMap _ = _
  rw [List.flatMap_map]
  refine congrArg List.flatten (List.map_congr_left fun e he => ?_)
  have hp := SortedMap.get?_eq_some_iff.mpr he
  exact Endpoint.elementsOf_of_contains _ _ (h.named _ _ hp) (h.exist _ _ hp)

/-- What comes next for a key is in the log of the remote. -/
theorem mem_remote_of_mem_batch {p : TopicProgress} {m : Message}
    (hasc : Log.Ascending (Joint.view.remote w p.remoteTopic))
    (hm : m ∈ Joint.view.batch w t.settings.batchLimit p) : m ∈ Joint.view.remote w p.remoteTopic := by
  have hfollowing := List.mem_of_mem_take hm
  rw [View.backlog, Log.following_eq_filter hasc] at hfollowing
  exact (List.mem_filter.mp hfollowing).1

/-- **A cycle.**  Each key is past its batch, and all is as before otherwise. -/
theorem cycle_spec (hcut : ∀ n body, (cut n body).flatten = body) (h : Prepared t w)
    (hfits : Joint.Fits t w) :
    ∃ w', t.pollCycle (Joint.surroundings cut) w
        = (.ok (t.summaryOf (Joint.view.batch w t.settings.batchLimit)),
          t.pastAll (Joint.view.batch w t.settings.batchLimit), w')
      ∧ w'.api.settings = w.api.settings ∧ w'.api.log = w.api.log
      ∧ (∀ topic, w.own.Accepts topic → w'.own.Accepts topic)
      ∧ Joint.view.RelayedAll t.settings.subscriber t.resolved.entries
          (Joint.view.batch w t.settings.batchLimit) w w' := by
  by_cases hempty : t.resolved.isEmpty = true
  · refine ⟨w, Tracking.pollCycle_of_isEmpty _ hempty _ w, rfl, rfl, fun _ ht => ht, ?_⟩
    rw [SortedMap.isEmpty, List.isEmpty_iff] at hempty
    rw [hempty]
    refine ⟨rfl, ?_, fun _ _ => rfl, ?_, fun _ _ => rfl⟩ <;> intro e he <;> cases he
  · have hasc := h.filled.ordered.ascending
    obtain ⟨api', hfetch, hsettings, hlog⟩ := Joint.fetch_of_fits hcut hasc h.problem? hfits
    rw [h.answerOf_requests] at hfetch
    let w₁ : Joint := { w with api := api', fetches := w.fetches + 1 }
    have hget : ∀ e ∈ t.resolved.entries, t.resolved.get? e.1 = some e.2 :=
      fun e he => SortedMap.get?_eq_some_iff.mpr he
    obtain ⟨w', hcycle, hready, hrelayed⟩ := Tracking.pollCycle_of_whole (Joint.works cut w₁)
      h.entries_apart (Joint.view.batch w t.settings.batchLimit)
      (fun e _ => ⟨Endpoint.elementsWith_ne_nil _ _ _, fun x hx => Endpoint.of_mem_elementsWith hx,
        Endpoint.flatMap_elementsWith _ _ _⟩)
      (fun e he => h.accepts _ _ (hget e he)) (fun e he => h.row _ _ (hget e he)) (n := 0)
      ⟨rfl, fun _ ht => ht⟩ hfetch (congrArg MemoryLog.messages hlog) rfl rfl
      (Bool.not_eq_true _ ▸ hempty)
    refine ⟨w', hcycle, ?_, ?_, hready.accepts, hrelayed⟩
    · rw [hready.api]
      exact hsettings
    · rw [hready.api]
      exact hlog

/-- **It is prepared for the next.** -/
theorem cycle (hcut : ∀ n body, (cut n body).flatten = body) (h : Prepared t w)
    (hfits : Joint.Fits t w) :
    ∃ w', WholeCycle (Joint.surroundings cut) Joint.view (t, w)
        (t.summaryOf (Joint.view.batch w t.settings.batchLimit))
        (t.pastAll (Joint.view.batch w t.settings.batchLimit), w')
      ∧ Prepared (t.pastAll (Joint.view.batch w t.settings.batchLimit)) w'
      ∧ Joint.view.remote w' = Joint.view.remote w := by
  obtain ⟨w', hcycle, hsettings, hlog, haccepts, hrelayed⟩ := h.cycle_spec hcut hfits
  have hmem : ∀ key p, t.resolved.get? key = some p → (key, p) ∈ t.resolved.entries :=
    fun key p hp => SortedMap.get?_eq_some_iff.mp hp
  -- a key that is resolved afterwards was resolved before
  have hbefore : ∀ key p', (t.pastAll (Joint.view.batch w t.settings.batchLimit)).resolved.get? key
      = some p' → ∃ p, t.resolved.get? key = some p
        ∧ p' = { p.past (Joint.view.batch w t.settings.batchLimit p) with notFoundCount := 0 } := by
    intro key p' hp'
    rw [Tracking.pastAll, SortedMap.get?_map, Option.map_eq_some_iff] at hp'
    obtain ⟨p, hp, rfl⟩ := hp'
    exact ⟨p, hp, rfl⟩
  refine ⟨w', ⟨hcycle, ?_, ?_, ?_, rfl, ?_, rfl⟩, ⟨⟨?_, ?_, ?_, ?_, ?_, ?_, ?_, ?_⟩, ?_⟩,
    hrelayed.remote⟩
  · intro key p hp
    exact hrelayed.own _ (hmem key p hp)
  · intro topic hothers
    exact hrelayed.ownOthers topic fun e he => hothers e.1 e.2 (SortedMap.get?_eq_some_iff.mpr he)
  · intro key p hp
    exact hrelayed.offset _ (hmem key p hp)
  · rw [Tracking.summaryOf, List.any_eq_true]
    constructor
    · rintro ⟨p, hp, hlimit⟩
      obtain ⟨⟨key, p⟩, hin, rfl⟩ := List.mem_map.mp hp
      refine ⟨key, p, SortedMap.get?_eq_some_iff.mpr hin, ?_⟩
      exact Nat.le_antisymm (List.length_take_le _ _) (of_decide_eq_true hlimit)
    · rintro ⟨key, p, hp, hlimit⟩
      refine ⟨p, List.mem_map.mpr ⟨(key, p), hmem key p hp, rfl⟩, ?_⟩
      exact decide_eq_true (Nat.le_of_eq hlimit.symm)
  · intro key p' hp'
    obtain ⟨p, hp, rfl⟩ := hbefore key p' hp'
    exact h.valid key p hp
  · intro key p' hp'
    obtain ⟨p, hp, rfl⟩ := hbefore key p' hp'
    rw [Endpoint.Api.resolver, hsettings]
    exact h.named key p hp
  · intro key p' hp'
    obtain ⟨p, hp, rfl⟩ := hbefore key p' hp'
    rw [hlog]
    exact h.exist key p hp
  · intro key p' hp'
    obtain ⟨p, hp, rfl⟩ := hbefore key p' hp'
    refine (hrelayed.offset _ (hmem key p hp)).trans ?_
    rw [show Joint.view.offset w p.remoteTopic t.settings.subscriber = p.lastMessageId from
      h.row key p hp]
    rfl
  · intro key p' hp'
    obtain ⟨p, hp, rfl⟩ := hbefore key p' hp'
    exact haccepts _ (h.accepts key p hp)
  · intro key p' other q' hp' hq' hne
    obtain ⟨p, hp, rfl⟩ := hbefore key p' hp'
    obtain ⟨q, hq, rfl⟩ := hbefore other q' hq'
    exact h.apart key p other q hp hq hne
  · rw [hsettings]
    exact h.limit
  · rw [hlog]
    exact h.filled
  -- a message of the log never has the empty id
  · intro key p' hp' hempty
    obtain ⟨p, hp, rfl⟩ := hbefore key p' hp'
    rw [TopicProgress.past, lastOf, Option.or_eq_some_iff] at hempty
    rcases hempty with hlast | ⟨-, hlast⟩
    · obtain ⟨m, hm, hid⟩ := Option.map_eq_some_iff.mp hlast
      have hin := mem_remote_of_mem_batch (t := t) (h.filled.ordered.ascending p.remoteTopic)
        (List.mem_of_getLast? hm)
      exact h.filled.ordered.nonempty _ m hin hid
    · exact h.start key p hp hlast

end Prepared

/-! ## Any number of cycles -/

/-- The state after some cycles. -/
def Tracking.cycles {σ : Type} (env : Surroundings σ) (x : Tracking × σ) : Nat → Tracking × σ
  | 0 => x
  | k + 1 => ((cycles env x k).1.pollCycle env (cycles env x k).2).2

/-- What the remote has of a topic after its stored offset. -/
def View.ahead {σ : Type} (v : View σ) (w : σ) (subscriber : SubscriberName) (topic : TopicName) :
    List Message :=
  MemoryLog.following (v.offset w topic subscriber) (v.remote w topic)

/-- A state in which each key has relayed as much as `k` cycles can. -/
structure Advanced (t : Tracking) (w : Joint) (k : Nat) (x : Tracking × Joint) : Prop where
  prepared : Prepared x.1 x.2
  remote : Joint.view.remote x.2 = Joint.view.remote w
  settings : x.1.settings = t.settings
  each : ∀ key p, t.resolved.get? key = some p → ∃ q, x.1.resolved.get? key = some q
    ∧ q.localTopic = p.localTopic ∧ q.remoteTopic = p.remoteTopic
    ∧ Joint.view.backlog x.2 q = (Joint.view.backlog w p).drop (k * t.settings.batchLimit.toNat)
    ∧ Joint.view.own x.2 p.localTopic = Joint.view.own w p.localTopic
        ++ ((Joint.view.backlog w p).take (k * t.settings.batchLimit.toNat)).map (·.payload)

namespace Advanced

variable {cut : Nat → Bytes → List Bytes} {t : Tracking} {w : Joint} {k : Nat} {x : Tracking × Joint}

theorem zero (h : Prepared t w) : Advanced t w 0 (t, w) := by
  refine ⟨h, rfl, rfl, fun key p hp => ⟨p, hp, rfl, rfl, ?_, ?_⟩⟩
  · rw [Nat.zero_mul, List.drop_zero]
  · rw [Nat.zero_mul, List.take_zero, List.map_nil, List.append_nil]

/-- **One cycle more.** -/
theorem cycle (hcut : ∀ n body, (cut n body).flatten = body) (h : Advanced t w k x)
    (hfits : Joint.Fits x.1 x.2) :
    (∃ summary, WholeCycle (Joint.surroundings cut) Joint.view x summary
      (x.1.pollCycle (Joint.surroundings cut) x.2).2)
    ∧ Advanced t w (k + 1) (x.1.pollCycle (Joint.surroundings cut) x.2).2 := by
  obtain ⟨w', hwhole, hprepared, hremote⟩ := h.prepared.cycle hcut hfits
  rw [hwhole.succeeds]
  refine ⟨⟨_, hwhole⟩, hprepared, hremote.trans h.remote, h.settings, fun key p hp => ?_⟩
  obtain ⟨q, hq, hlocal, htopic, hbacklog, hown⟩ := h.each key p hp
  have hasc : Log.Ascending (Joint.view.remote x.2 q.remoteTopic) :=
    h.prepared.filled.ordered.ascending q.remoteTopic
  have hbatch : Joint.view.batch x.2 x.1.settings.batchLimit q
      = (Joint.view.backlog x.2 q).take t.settings.batchLimit.toNat := by
    rw [h.settings]
    rfl
  refine ⟨{ q.past (Joint.view.batch x.2 x.1.settings.batchLimit q) with notFoundCount := 0 }, ?_,
    hlocal, htopic, ?_, ?_⟩
  · rw [Tracking.pastAll, SortedMap.get?_map, hq]
    rfl
  · show MemoryLog.following (lastOf q.lastMessageId _) (Joint.view.remote w' q.remoteTopic) = _
    rw [hremote, hbatch, View.backlog, following_lastOf hasc, Nat.succ_mul, ← List.drop_drop,
      ← hbacklog]
    rfl
  · rw [← hlocal, hwhole.relayed key q hq, hlocal, hown, hbatch, hbacklog, List.append_assoc,
      ← List.map_append, Nat.succ_mul, ← List.take_add]

/-- **Any number.** -/
theorem cycles (hcut : ∀ n body, (cut n body).flatten = body) (h : Prepared t w)
    (hfits : ∀ j < k, Joint.Fits (Tracking.cycles (Joint.surroundings cut) (t, w) j).1
      (Tracking.cycles (Joint.surroundings cut) (t, w) j).2) :
    Advanced t w k (Tracking.cycles (Joint.surroundings cut) (t, w) k) := by
  induction k with
  | zero => exact zero h
  | succ k ih =>
    have hbefore := ih fun j hj => hfits j (Nat.lt_succ_of_lt hj)
    exact (hbefore.cycle hcut (hfits k (Nat.lt_succ_self k))).2

end Advanced

/-- **Exactly once.**  Take a new monitor that has resolved its keys, at an endpoint that has its topics,
    with a network that cuts responses in any way, and as many cycles as there are requests and
    elements that fit.  Each of these cycles relays for each key the next messages, as many as may
    be asked for at once, and commits the last of them; it says how many there were, and that more
    may be waiting just when some key got as many as were asked for.  Altogether each key has
    relayed its messages from the beginning on, in order and once each; and all of them, after as
    many cycles as the longest backlog takes. -/
theorem relay_exactly_once {cut : Nat → Bytes → List Bytes}
    (hcut : ∀ n body, (cut n body).flatten = body) {settings : RelaySettings} {w : Joint}
    (h : Suited settings w) (hstart : ∀ key topic, StandsFor settings w key topic →
      Joint.view.offset w topic settings.subscriber ≠ some "")
    {resolved : Nat} {x : Tracking × Joint}
    (hresolve : (Tracking.new settings).resolveTopics (Joint.surroundings cut) w = (.ok resolved, x))
    (count : Nat) (hfits : ∀ k < count, Joint.Fits (Tracking.cycles (Joint.surroundings cut) x k).1
      (Tracking.cycles (Joint.surroundings cut) x k).2) :
    (∀ k ≤ count, ∀ key topic, StandsFor settings w key topic → ∃ p,
      (Tracking.cycles (Joint.surroundings cut) x k).1.resolved.get? key = some p
        ∧ p.remoteTopic = topic ∧ p.localTopic = settings.localTopic key)
    ∧ (∀ k < count, ∃ summary, WholeCycle (Joint.surroundings cut) Joint.view
      (Tracking.cycles (Joint.surroundings cut) x k) summary
      (Tracking.cycles (Joint.surroundings cut) x (k + 1)))
    ∧ (∀ key topic, StandsFor settings w key topic →
      Joint.view.own (Tracking.cycles (Joint.surroundings cut) x count).2 (settings.localTopic key)
        = Joint.view.own w (settings.localTopic key)
          ++ ((Joint.view.ahead w settings.subscriber topic).take
            (count * settings.batchLimit.toNat)).map (·.payload))
    ∧ ∀ longest, (∀ key topic, StandsFor settings w key topic →
        (Joint.view.ahead w settings.subscriber topic).length ≤ longest) →
      (longest + settings.batchLimit.toNat - 1) / settings.batchLimit.toNat ≤ count →
      ∀ key topic, StandsFor settings w key topic →
        Joint.view.own (Tracking.cycles (Joint.surroundings cut) x count).2 (settings.localTopic key)
          = Joint.view.own w (settings.localTopic key)
            ++ (Joint.view.ahead w settings.subscriber topic).map (·.payload) := by
  obtain ⟨n, t, w', hplace, hplaced, htold, hresolved, hremote, hown, -⟩ :=
    h.placed hcut (h.fits_of_ok hcut hresolve)
  obtain rfl : x = (t, w') := congrArg Prod.snd (hresolve.symm.trans hplace)
  have hprepared : Prepared t w' := by
    refine ⟨hplaced, ?_⟩
    intro key p hp
    obtain ⟨topic, hstands, rfl⟩ := (hresolved key p).mp hp
    exact hstart key topic hstands
  have hadvanced : ∀ k ≤ count,
      Advanced t w' k (Tracking.cycles (Joint.surroundings cut) (t, w') k) :=
    fun k hk => Advanced.cycles hcut hprepared fun j hj => hfits j (Nat.lt_of_lt_of_le hj hk)
  have hkey : ∀ key topic, StandsFor settings w key topic → t.resolved.get? key
      = some (Tracking.freshProgress settings (w.offsets.get · settings.subscriber) key topic) :=
    fun key topic hstands => (hresolved key _).mpr ⟨topic, hstands, rfl⟩
  have hrelayed : ∀ key topic, StandsFor settings w key topic →
      Joint.view.own (Tracking.cycles (Joint.surroundings cut) (t, w') count).2
          (settings.localTopic key)
        = Joint.view.own w (settings.localTopic key)
          ++ ((Joint.view.ahead w settings.subscriber topic).take
            (count * settings.batchLimit.toNat)).map (·.payload) := by
    intro key topic hstands
    obtain ⟨q, -, -, -, -, hq⟩ := (hadvanced count (Nat.le_refl _)).each key _ (hkey key topic hstands)
    rw [htold, hown, View.backlog, hremote] at hq
    exact hq
  refine ⟨?_, ?_, hrelayed, ?_⟩
  · intro k hk key topic hstands
    obtain ⟨q, hq, hlocal, htopic, -, -⟩ := (hadvanced k hk).each key _ (hkey key topic hstands)
    exact ⟨q, hq, htopic, hlocal⟩
  · intro k hk
    exact ((hadvanced k (Nat.le_of_lt hk)).cycle hcut (hfits k hk)).1
  · intro longest hlongest hcount key topic hstands
    have hpos : 0 < settings.batchLimit.toNat := h.limit.1
    have henough : longest ≤ count * settings.batchLimit.toNat := by
      have hle := (Nat.div_le_iff_le_mul_add_pred hpos).mp hcount
      rw [Nat.mul_comm] at hle
      omega
    rw [hrelayed key topic hstands,
      List.take_of_length_le (Nat.le_trans (hlongest key topic hstands) henough)]

/-! ### One key -/

namespace OneKey

/-- One key, one message at a time. -/
def settings : RelaySettings := { RelaySettings.default with topics := ["a"], batchLimit := 1 }

/-- An endpoint with three messages for it, and where the monitor was before. -/
def joint (last : Option MessageId) : Joint where
  api := .new { Endpoint.Settings.default with topics := SortedMap.empty.insert "a" "t" }
    (MemoryLog.threeMessages "t")
  own := .new true
  offsets := match last with
    | none => SortedMap.empty
    | some id => MemoryOffsets.put SortedMap.empty 0 "t" settings.subscriber id
  fetches := 0

/-- A network that delivers byte by byte. -/
def cut (_ : Nat) (body : Bytes) : List Bytes := body.map fun x => [x]

theorem flatten_cut (n : Nat) (body : Bytes) : (cut n body).flatten = body := by
  induction body with
  | nil => rfl
  | cons x body ih => exact congrArg (x :: ·) ih

/-- The offset after the first message. -/
def first : Option MessageId := some "00000000000000000001"

theorem eq_of_contains {key : TopicKey} (h : settings.keys.contains key = true) : key = "a" := by
  obtain ⟨u, hu⟩ := SortedMap.contains_iff.mp h
  have hmem := SortedMap.get?_eq_some_iff.mp hu
  rw [show settings.keys.entries = [("a", ())] by decide +kernel, List.mem_singleton] at hmem
  exact congrArg Prod.fst hmem

theorem eq_of_standsFor {last : Option MessageId} {key : TopicKey} {topic : TopicName}
    (h : StandsFor settings (joint last) key topic) : key = "a" ∧ topic = "t" := by
  obtain ⟨hcontains, htopic⟩ := h
  obtain rfl := eq_of_contains hcontains
  exact ⟨rfl, (Option.some.inj htopic).symm⟩

theorem suited (last : Option MessageId) : Suited settings (joint last) := by
  refine ⟨?_, ?_, ?_, ?_, ⟨?_, ?_⟩, MemoryLog.filled_threeMessages "t"⟩
  · intro key hcontains
    rw [eq_of_contains hcontains]
    decide +kernel
  · intro key topic hstands
    rw [(eq_of_standsFor hstands).2]
    rfl
  · intro key _
    exact Or.inl rfl
  · intro key topic other topic' hstands hstands' hne
    exact absurd ((eq_of_standsFor hstands).1.trans (eq_of_standsFor hstands').1.symm) hne
  · show (0 : UInt32) < 1
    decide
  · show (1 : UInt32) ≤ Wire.ConsumeRequests.maxLimit
    decide

/-- The monitor after its first resolution. -/
def resolved (last : Option MessageId) : Tracking × Joint :=
  ((Tracking.new settings).resolveTopics (Joint.surroundings cut) (joint last)).2

theorem resolves (last : Option MessageId) : ∃ n,
    (Tracking.new settings).resolveTopics (Joint.surroundings cut) (joint last)
      = (.ok n, resolved last) := by
  have hnone : Joint.ResolutionFits settings.keys (joint none) := ⟨by decide +kernel, by decide +kernel⟩
  obtain ⟨n, t, w, hresolve, -⟩ :=
    (suited last).placed flatten_cut fun _ => ⟨hnone.request, hnone.reply⟩
  have hresolved : resolved last = (t, w) := congrArg Prod.snd hresolve
  rw [hresolved]
  exact ⟨n, hresolve⟩

theorem fits_first (k : Nat) (hk : k < 2) :
    Joint.Fits (Tracking.cycles (Joint.surroundings cut) (resolved first) k).1
      (Tracking.cycles (Joint.surroundings cut) (resolved first) k).2 := by
  rcases Nat.lt_succ_iff_lt_or_eq.mp hk with hk | rfl
  · rw [Nat.lt_one_iff.mp hk]
    exact ⟨by decide +kernel, by decide +kernel⟩
  · exact ⟨by decide +kernel, by decide +kernel⟩

/-- After the first message there are two more, which takes two cycles. -/
theorem relay_rest :
    Joint.view.own (Tracking.cycles (Joint.surroundings cut) (resolved first) 2).2 "a"
      = [[2], [3]] := by
  have hstart : ∀ key topic, StandsFor settings (joint first) key topic →
      Joint.view.offset (joint first) topic settings.subscriber ≠ some "" := by
    intro key topic hstands
    rw [(eq_of_standsFor hstands).2]
    decide +kernel
  have hlongest : ∀ key topic, StandsFor settings (joint first) key topic →
      (Joint.view.ahead (joint first) settings.subscriber topic).length ≤ 2 := by
    intro key topic hstands
    rw [(eq_of_standsFor hstands).2]
    decide +kernel
  obtain ⟨n, hresolve⟩ := resolves first
  obtain ⟨-, -, -, hall⟩ := relay_exactly_once flatten_cut (suited first) hstart hresolve 2 fits_first
  refine (hall 2 hlongest (by decide) "a" "t" ⟨by decide +kernel, rfl⟩).trans ?_
  decide +kernel

/-- **The empty offset is refused**, when all else is as it should be. -/
theorem not_wholeCycle_of_empty : Suited settings (joint (some ""))
    ∧ (∃ n, (Tracking.new settings).resolveTopics (Joint.surroundings cut) (joint (some ""))
      = (.ok n, resolved (some "")))
    ∧ Joint.Fits (resolved (some "")).1 (resolved (some "")).2
    ∧ ¬ ∃ summary y, WholeCycle (Joint.surroundings cut) Joint.view (resolved (some "")) summary y := by
  refine ⟨suited (some ""), resolves (some ""), ⟨by decide +kernel, by decide +kernel⟩, ?_⟩
  rintro ⟨summary, y, hwhole⟩
  have hfails : ((resolved (some "")).1.pollCycle (Joint.surroundings cut) (resolved (some "")).2).1.isOk
      = false := by
    decide +kernel
  rw [hwhole.succeeds] at hfails
  cases hfails

end OneKey
end TopicRelay.Monitor
