/-
  Nothing is left out, whatever fails and however often the monitor starts again.

  specification   for a key that shares its topic on the remote with no other: the stored offset never
                  goes back, and what it has passed is in the own log, in order
  crux            `Line.Sound`, which every answer keeps (`Line.acceptAll_sound`)
  one step        a cycle only narrows what is resolved after that, a resolution begins where the
                  stored offset is, and a new monitor begins with nothing (`Line.Kept.step`)

  That the offset never goes back between any two moments of a run needs no invariant of its own: from
  any moment on, the line is one that begins there (`Line.rebase`).
-/
import TopicRelay.Proofs.Monitor.Line
import TopicRelay.Proofs.Monitor.Resolution
import TopicRelay.Proofs.Rehearsal.Trial

namespace TopicRelay.Monitor

open Wire (TopicMessages)

variable {σ : Type} {env : Surroundings σ} {v : View σ} {topicOf : TopicKey → Option TopicName}

/-! ## After an answer -/

theorem Line.Sound.narrow {l : Line} {resolved resolved' : SortedMap TopicProgress} {w : σ}
    (h : l.Sound v resolved w) (hn : Narrower resolved' resolved) : l.Sound v resolved' w := by
  refine ⟨?_, ?_, h.place, h.forward, h.relayed⟩
  · intro p' hp'
    obtain ⟨p, hp, hr, hl, hi⟩ := hn _ _ hp'
    rw [hr, hl, hi]
    exact h.progress p hp
  · intro key p' hp' hne
    obtain ⟨p, hp, hr, -, -⟩ := hn _ _ hp'
    rw [hr]
    exact h.foreign key p hp hne

/-! ## Steps -/

/-- A line that belongs to some settings, and that no other configured key shares its topic with.
    Its own key need not be configured: nothing is relayed on such a line. -/
structure Line.Alone (l : Line) (topicOf : TopicKey → Option TopicName) (settings : RelaySettings) :
    Prop where
  resolves : ∀ topic, settings.keys.contains l.key = true → topicOf l.key = some topic →
    topic = l.remoteTopic
  localTopic : l.localTopic = settings.localTopic l.key
  subscriber : l.subscriber = settings.subscriber
  unshared : ∀ key, settings.keys.contains key = true → key ≠ l.key →
    topicOf key ≠ some l.remoteTopic

/-- What holds between two steps. -/
structure Line.Kept (l : Line) (v : View σ) (topicOf : TopicKey → Option TopicName)
    (settings : RelaySettings) (t : Tracking) (w : σ) : Prop where
  configured : t.settings = settings
  waiting : ∀ key, t.unresolved.contains key = true → settings.keys.contains key = true
  known : ∀ p, t.resolved.get? l.key = some p → topicOf l.key = some l.remoteTopic
  sound : l.Sound v t.resolved w

namespace Line

variable {l : Line} {settings : RelaySettings} {t t' : Tracking} {w w' : σ}

/-- **A cycle.** -/
theorem Kept.pollCycle (hf : Faithful env v topicOf) (hl : l.Alone topicOf settings)
    (h : l.Kept v topicOf settings t w) {r : Except Halt CycleSummary}
    (hcycle : t.pollCycle env w = (r, t', w')) : l.Kept v topicOf settings t' w' := by
  rcases Tracking.pollCycle_cases hcycle with
    ⟨-, -, rfl, rfl⟩ | ⟨d, w₁, r₁, i, hfetch, hall, hend⟩
  · exact h
  · have hidle : l.Idle v w w₁ := by
      have := hf.fetch t.requests w
      rw [hfetch] at this
      exact l.idle_of_idle this
    have hanswers := hf.fetched hfetch
    have hsound : l.Sound v t.resolved w₁ := h.sound.idle hf hidle
    have hcome : l.Continues v t.resolved w₁ d.elements := by
      intro p hp
      have hmessages := hanswers.messages (Tracking.get?_requests hp) (h.known p hp)
      rw [toCome, ← (hsound.progress p hp).2.2]
      exact hmessages
    have hknown : ∀ p', i.resolved.get? l.key = some p' → topicOf l.key = some l.remoteTopic := by
      intro p' hp'
      obtain ⟨p, hp, -⟩ := Intake.exists_of_topics (Intake.acceptAll_topics hall) hp'
      exact h.known p hp
    have hdone : l.Sound v i.resolved w' := by
      rw [h.configured, ← hl.subscriber] at hall
      exact acceptAll_sound hf hanswers.errors (i := .start t.resolved) hsound hcome hall
    rcases hend with ⟨-, rfl⟩ | ⟨-, -, -, rfl⟩
    · exact ⟨h.configured, h.waiting, hknown, hdone⟩
    -- the conclusions only narrow what the elements came to
    · obtain ⟨hn, hs, hu⟩ := t.conclude_spec i
      refine ⟨hs.trans h.configured, ?_, ?_, hdone.narrow hn⟩
      · rw [hu]
        exact h.waiting
      · intro p' hp'
        obtain ⟨p, hp, -⟩ := hn _ _ hp'
        exact hknown p hp

/-- A key that is adopted begins where its offset is. -/
theorem Kept.adopt (hl : l.Alone topicOf settings) (h : l.Kept v topicOf settings t w) {key : TopicKey}
    {topic : TopicName} (hwanted : t.unresolved.contains key = true) (htopic : topicOf key = some topic) :
    l.Kept v topicOf settings (t.adopt key topic (v.offset w topic t.settings.subscriber)) w := by
  have hsound := h.sound
  have hself : l.key = key → l.remoteTopic = topic := by
    rintro rfl
    exact (hl.resolves topic (h.waiting _ hwanted) htopic).symm
  refine ⟨h.configured, ?_, ?_, ?_, ?_, hsound.place, hsound.forward, hsound.relayed⟩
  · intro key' hkey'
    exact h.waiting key' (Tracking.contains_of_adopt hkey')
  · intro p hp
    by_cases hk : l.key = key
    · rw [hk, hself hk]
      exact htopic
    · rw [Tracking.adopt, SortedMap.get?_insert_ne t.resolved hk] at hp
      exact h.known p hp
  · intro p hp
    by_cases hk : l.key = key
    · rw [Tracking.adopt, hk, SortedMap.get?_insert_self] at hp
      cases hp
      have htopic' := hself hk
      subst htopic'
      refine ⟨rfl, ?_, ?_⟩
      · rw [hl.localTopic, ← hk, h.configured]
      · rw [offset, hl.subscriber, h.configured]
    · rw [Tracking.adopt, SortedMap.get?_insert_ne t.resolved hk] at hp
      exact hsound.progress p hp
  · intro key' p hp hne
    by_cases hk : key' = key
    · rw [Tracking.adopt, hk, SortedMap.get?_insert_self] at hp
      cases hp
      rintro rfl
      exact hl.unshared key (h.waiting key hwanted) (hk ▸ hne) htopic
    · rw [Tracking.adopt, SortedMap.get?_insert_ne t.resolved hk] at hp
      exact hsound.foreign key' p hp hne

theorem Kept.idle (hf : Faithful env v topicOf) (h : l.Kept v topicOf settings t w) (hidle : v.Idle w w') :
    l.Kept v topicOf settings t w' :=
  ⟨h.configured, h.waiting, h.known, h.sound.idle hf (l.idle_of_idle hidle)⟩

/-- **A resolution.** -/
theorem Kept.resolveTopics (hf : Faithful env v topicOf) (hl : l.Alone topicOf settings)
    (h : l.Kept v topicOf settings t w) {r : Except Halt Nat}
    (hresolve : t.resolveTopics env w = (r, t', w')) : l.Kept v topicOf settings t' w' := by
  rcases Tracking.resolveTopics_cases hresolve with ⟨rfl, rfl⟩ | ⟨answer, w₁, hanswer, hend⟩
  · exact h
  · have hasked := hf.resolve t.unresolved w
    rw [hanswer] at hasked
    rcases hend with ⟨rfl, rfl⟩ | ⟨mapping, r₁, rfl, hall⟩
    · exact h.idle hf hasked
    · have hload : ∀ {topic subscriber w x w'}, env.offset topic subscriber w = (x, w') →
          v.Idle w w' := by
        intro topic subscriber w x w' heq
        have hidle := hf.load topic subscriber w
        rw [heq] at hidle
        exact hidle
      -- what waits while the mapping is gone through has been asked for
      refine (Tracking.adoptAll_keeps (P := fun t₁ w => l.Kept v topicOf settings t₁ w
        ∧ ∀ key, t₁.unresolved.contains key = true → t.unresolved.contains key = true)
        ?_ ?_ ⟨h.idle hf hasked, fun _ hk => hk⟩ hall).1
      · rintro e - t₁ w x w' ⟨hkept, hwaits⟩ heq
        exact ⟨hkept.idle hf (hload heq), hwaits⟩
      · rintro ⟨key, topic⟩ he t₁ w last w' ⟨hkept, hwaits⟩ hwanted heq
        have htopic := hf.resolved hanswer (hwaits key hwanted) (SortedMap.get?_eq_some_iff.mpr he)
        rw [hf.loaded heq]
        exact ⟨(hkept.idle hf (hload heq)).adopt hl hwanted htopic,
          fun k hk => hwaits k (Tracking.contains_of_adopt hk)⟩

/-- A monitor that begins, on whatever the stores hold. -/
theorem Kept.new (hsound : l.Sound v SortedMap.empty w) :
    l.Kept v topicOf settings (.new settings) w := by
  refine ⟨rfl, fun _ h => h, ?_, hsound⟩
  intro p hp
  cases hp

/-- **One step.** -/
theorem Kept.step (hf : Faithful env v topicOf) (hl : l.Alone topicOf settings)
    {x y : Tracking × σ} (h : l.Kept v topicOf settings x.1 x.2) (hstep : Step env v x y) :
    l.Kept v topicOf settings y.1 y.2 := by
  cases hstep with
  | resolve t w => exact h.resolveTopics hf hl rfl
  | cycle t w => exact h.pollCycle hf hl rfl
  | restart t w =>
    rw [show t.settings = settings from h.configured]
    exact Kept.new (h.sound.narrow (narrower_empty t.resolved))
  | pass t hidle => exact h.idle hf hidle

/-- **A run.** -/
theorem Kept.run (hf : Faithful env v topicOf) (hl : l.Alone topicOf settings)
    {x y : Tracking × σ} (h : l.Kept v topicOf settings x.1 x.2) (hrun : Run env v x y) :
    l.Kept v topicOf settings y.1 y.2 := by
  induction hrun with
  | refl => exact h
  | tail _ hstep ih => exact ih.step hf hl hstep

/-- The same line, seen as if it began here. -/
def rebase (l : Line) (v : View σ) (w : σ) : Line :=
  { l with start := l.offset v w, before := v.own w l.localTopic }

theorem Kept.rebase (h : l.Kept v topicOf settings t w) : (l.rebase v w).Kept v topicOf settings t w := by
  have hbegin : (l.rebase v w).Sound v SortedMap.empty w := .begin rfl rfl
  exact ⟨h.configured, h.waiting, h.known, h.sound.progress, h.sound.foreign, hbegin.place,
    hbegin.forward, hbegin.relayed⟩

/-- The offset of a line never goes back. -/
theorem Kept.offset_le (hf : Faithful env v topicOf) (hl : l.Alone topicOf settings)
    {x y : Tracking × σ} (h : l.Kept v topicOf settings x.1 x.2) (hrun : Run env v x y) :
    l.offset v x.2 ≤ l.offset v y.2 := by
  -- from here on the line is one that begins here, and it is never before its beginning
  have hlater : (l.rebase v x.2).Kept v topicOf settings y.1 y.2 :=
    Kept.run (l := l.rebase v x.2) hf
      ⟨hl.resolves, hl.localTopic, hl.subscriber, hl.unshared⟩ h.rebase hrun
  exact hlater.sound.forward

/-- The line of a key, in the world of a monitor that begins. -/
def ofKey (v : View σ) (settings : RelaySettings) (key : TopicKey) (topic : TopicName) (w₀ : σ) :
    Line where
  key := key
  remoteTopic := topic
  localTopic := settings.localTopic key
  subscriber := settings.subscriber
  start := v.offset w₀ topic settings.subscriber
  before := v.own w₀ (settings.localTopic key)

theorem Kept.ofKey (hf : Faithful env v topicOf) {key : TopicKey} {topic : TopicName} {w₀ : σ}
    (hl : (ofKey v settings key topic w₀).Alone topicOf settings) {x : Tracking × σ}
    (hrun : Run env v (.new settings, w₀) x) :
    (Line.ofKey v settings key topic w₀).Kept v topicOf settings x.1 x.2 :=
  Kept.run hf hl (.new (.begin rfl rfl)) hrun

end Line

/-- **At least once, and safe to resume.**  Take any run of a new monitor in a world that can fail, and
    a key that shares its topic on the remote with no other.  Then, at any time: the stored offset is
    the one of the beginning or the id of a message; it never goes back; what it has passed since
    then is in the own log, in order, after what was there before; and a monitor that has the key
    resolved goes on from that offset. -/
theorem relay_at_least_once (hf : Faithful env v topicOf) (settings : RelaySettings)
    {key : TopicKey} {topic : TopicName} (hkey : topicOf key = some topic)
    (hunshared : ∀ other, settings.keys.contains other = true → other ≠ key →
      topicOf other ≠ some topic)
    (w₀ : σ) {t : Tracking} {w : σ} (hrun : Run env v (.new settings, w₀) (t, w)) :
    (v.offset w topic settings.subscriber = v.offset w₀ topic settings.subscriber
      ∨ ∃ m ∈ v.remote w topic, v.offset w topic settings.subscriber = some m.id)
    ∧ (∀ t' w', Run env v (t, w) (t', w') →
      v.offset w topic settings.subscriber ≤ v.offset w' topic settings.subscriber)
    ∧ (∃ new, v.own w (settings.localTopic key) = v.own w₀ (settings.localTopic key) ++ new
      ∧ ((Log.passed (v.offset w₀ topic settings.subscriber) (v.offset w topic settings.subscriber)
          (v.remote w topic)).map (·.payload)).Sublist new)
    ∧ (∀ p, t.resolved.get? key = some p → p.remoteTopic = topic
      ∧ p.localTopic = settings.localTopic key
      ∧ p.lastMessageId = v.offset w topic settings.subscriber) := by
  have hl : (Line.ofKey v settings key topic w₀).Alone topicOf settings := by
    refine ⟨?_, rfl, rfl, hunshared⟩
    intro t _ ht
    exact Option.some.inj (ht.symm.trans hkey)
  have hkept := Line.Kept.ofKey hf hl hrun
  refine ⟨hkept.sound.place, ?_, hkept.sound.relayed, hkept.sound.progress⟩
  intro t' w' hrun'
  exact hkept.offset_le (y := (t', w')) hf hl hrun'

/-! ### A run with a fault of each kind -/

namespace FaultyRun

open Rehearsal (Trial)

/-- One topic, two messages at a time. -/
def settings : RelaySettings := { RelaySettings.default with topics := ["a"], batchLimit := 2 }

/-- An endpoint that knows the topic, and puts each message into an element of its own. -/
def remote : Endpoint.Resolver := ⟨SortedMap.empty.insert "a" "t"⟩

/-- The second publication and the second commit fail, and the third answer breaks off. -/
def begin : Trial where
  remote := MemoryLog.threeMessages "t"
  ascending := (MemoryLog.filled_threeMessages "t").ordered.ascending
  breaks := [none, none, some 1]
  own := { FaultyLog.sound (.new true) with brokenPublications := [2] }
  offsets := { FaultyOffsets.sound SortedMap.empty with brokenCommits := [2] }

/-- Two cycles, a new monitor, and two cycles more. -/
def final : Tracking × Trial :=
  Deed.performAll (Trial.surroundings remote 1) (.new settings, begin)
    [.resolve, .cycle, .cycle, .restart, .resolve, .cycle, .cycle]

/-- The message that was in the way of each fault was relayed twice, and none was left out. -/
theorem relay_through_faults :
    Rehearsal.Trial.view.own final.2 "a" = [[1], [2], [2], [3]]
    ∧ (∃ m ∈ Rehearsal.Trial.view.remote final.2 "t",
      Rehearsal.Trial.view.offset final.2 "t" settings.subscriber = some m.id)
    ∧ ∃ new, Rehearsal.Trial.view.own final.2 "a" = new
      ∧ ((Log.passed none (Rehearsal.Trial.view.offset final.2 "t" settings.subscriber)
          (Rehearsal.Trial.view.remote final.2 "t")).map (·.payload)).Sublist new := by
  have hkeys : settings.keys.entries = [("a", ())] := by decide +kernel
  have hunshared : ∀ other, settings.keys.contains other = true → other ≠ "a" →
      remote.resolve? other ≠ some "t" := by
    intro other hcontains hne
    obtain ⟨u, hu⟩ := SortedMap.contains_iff.mp hcontains
    have hmem := SortedMap.get?_eq_some_iff.mp hu
    rw [hkeys, List.mem_singleton] at hmem
    cases hmem
    exact absurd rfl hne
  obtain ⟨hplace, -, hrelayed, -⟩ := relay_at_least_once (Rehearsal.Trial.faithful remote 1) settings
    (show remote.resolve? "a" = some "t" by decide +kernel) hunshared begin
    (Deed.run_performAll (Trial.surroundings remote 1) Trial.view (.new settings, begin)
      [.resolve, .cycle, .cycle, .restart, .resolve, .cycle, .cycle])
  have hstored : Rehearsal.Trial.view.offset final.2 "t" settings.subscriber
      ≠ Rehearsal.Trial.view.offset begin "t" settings.subscriber := by decide +kernel
  refine ⟨by decide +kernel, hplace.resolve_left hstored, ?_⟩
  obtain ⟨new, hown, hsub⟩ := hrelayed
  exact ⟨new, hown, hsub⟩

end FaultyRun
end TopicRelay.Monitor
