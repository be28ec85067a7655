/-
  Books that are right, whatever the remote does.

  specification   no commit without the publications of its element (`AllCovered`); and a key with a
                  topic of its own has the id in its progress that is stored, so that is the one it asks
                  to go on from (`relay_bookkeeping`)
  crux            what is stored and what is remembered move together, or not at all
                  (`Remembers.commitLast`)
  a run           is any sequence of resolutions, cycles and new beginnings (`Deed`)

  The store of offsets may fail at any call; but it changes by a commit that is done, and only so
  (`KeepsRows`).  Of the remote nothing is assumed, and of the log of this side nothing either.
-/
import Mathlib.Data.List.Infix
import TopicRelay.Proofs.Monitor.Commits
import TopicRelay.Proofs.Rehearsal.Trial

namespace TopicRelay.Monitor

open Wire (TopicMessages)

variable {σ : Type} {env : Surroundings σ}

/-! ## What is stored, and what is remembered -/

/-- What is stored for each topic and subscriber. -/
abbrev Rows (σ : Type) := σ → TopicName → SubscriberName → Option MessageId

/-- Only a commit that is done changes what is stored, and only its own row. -/
structure KeepsRows (env : Surroundings σ) (row : Rows σ) : Prop where
  resolve : ∀ keys w, row (env.resolve keys w).2 = row w
  fetch : ∀ requests w, row (env.fetch requests w).2 = row w
  arrive : ∀ w, row (env.arrive w) = row w
  publish : ∀ topic payload w, row (env.publish topic payload w).2 = row w
  load : ∀ topic subscriber w, row (env.offset topic subscriber w).2 = row w
  loaded : ∀ {topic subscriber w last w'}, env.offset topic subscriber w = (.ok last, w') →
    last = row w topic subscriber
  refused : ∀ {topic subscriber id w e w'}, env.commit topic subscriber id w = (.error e, w') →
    row w' = row w
  committed : ∀ {topic subscriber id w w'}, env.commit topic subscriber id w = (.ok (), w') →
    row w' topic subscriber = some id
    ∧ ∀ t s, (t ≠ topic ∨ s ≠ subscriber) → row w' t s = row w t s

/-- The topic of a key is that of another key as well. -/
def Shares (resolved : SortedMap TopicProgress) (key : TopicKey) : Prop :=
  ∃ other p q, other ≠ key ∧ resolved.get? key = some p ∧ resolved.get? other = some q
    ∧ q.remoteTopic = p.remoteTopic

/-- What is remembered of a key is what is stored for its topic. -/
def Remembers (row : Rows σ) (subscriber : SubscriberName) (key : TopicKey)
    (resolved : SortedMap TopicProgress) (w : σ) : Prop :=
  ∀ p, resolved.get? key = some p → p.lastMessageId = row w p.remoteTopic subscriber

theorem shares_of_topics {resolved resolved' : SortedMap TopicProgress} {key : TopicKey}
    (h : Intake.topics resolved' = Intake.topics resolved) (hshares : Shares resolved' key) :
    Shares resolved key := by
  obtain ⟨other, p', q', hne, hp', hq', hsame⟩ := hshares
  obtain ⟨p, hp, hremote, -⟩ := Intake.exists_of_topics h hp'
  obtain ⟨q, hq, hremote', -⟩ := Intake.exists_of_topics h hq'
  refine ⟨other, p, q, hne, hp, hq, ?_⟩
  rw [← hremote, ← hremote', hsame]

theorem KeepsRows.publishAll {row : Rows σ} (hrows : KeepsRows env row) {topic : TopicName}
    {ms : List Message} {w w' : σ} {x : Except RelayError Unit}
    (h : Intake.publishAll env topic ms w = (x, w')) : row w' = row w := by
  refine Intake.publishAll_keeps (P := fun v => row v = row w) ?_ rfl h
  intro topic payload v y v' hsame heq
  have hone := hrows.publish topic payload v
  rw [heq] at hone
  exact hone.trans hsame

namespace Remembers

variable {row : Rows σ} {subscriber : SubscriberName} {key : TopicKey}
  {resolved resolved' : SortedMap TopicProgress} {i i' : Intake} {t t' : Tracking} {w w' : σ}

theorem of_row (h : Remembers row subscriber key resolved w) (hrow : row w' = row w) :
    Remembers row subscriber key resolved w' := by
  intro p hp
  rw [hrow]
  exact h p hp

theorem narrow (h : Remembers row subscriber key resolved w) (hn : Narrower resolved' resolved) :
    Remembers row subscriber key resolved' w := by
  intro p' hp'
  obtain ⟨p, hp, hremote, -, hlast⟩ := hn key p' hp'
  rw [hremote, hlast]
  exact h p hp

/-- **What is stored and what is remembered move together**, or not at all. -/
theorem commitLast (hrows : KeepsRows env row) (h : Remembers row subscriber key i.resolved w)
    (hshares : ¬ Shares i.resolved key) {e : TopicMessages} {p : TopicProgress}
    (hp : i.resolved.get? e.topic = some p) {x : Except RelayError Unit}
    (hcommit : Intake.commitLast env subscriber p e i w = (x, i', w')) :
    Remembers row subscriber key i'.resolved w' := by
  rcases Intake.commitLast_cases hcommit with
    ⟨-, -, rfl, rfl⟩ | ⟨id, -, -, ⟨y, hput, -, rfl⟩ | ⟨hput, -, rfl⟩⟩
  · exact h
  · exact h.of_row (hrows.refused hput)
  · obtain ⟨hself, hothers⟩ := hrows.committed hput
    intro q hq
    by_cases hkey : key = e.topic
    · rw [hkey, Intake.advance, SortedMap.get?_insert_self] at hq
      cases hq
      exact hself.symm
    · rw [Intake.advance, SortedMap.get?_insert_ne i.resolved hkey] at hq
      -- the topic is not shared, so the commit was for another row
      have hne : q.remoteTopic ≠ p.remoteTopic :=
        fun hc => hshares ⟨e.topic, q, p, fun hc => hkey hc.symm, hq, hp, hc.symm⟩
      rw [hothers _ _ (Or.inl hne)]
      exact h q hq

theorem accept (hrows : KeepsRows env row) (h : Remembers row subscriber key i.resolved w)
    (hshares : ¬ Shares i.resolved key) {e : TopicMessages} {x : Except RelayError Unit}
    (haccept : Intake.accept env subscriber e i w = (x, i', w')) :
    Remembers row subscriber key i'.resolved w' := by
  rcases Intake.accept_cases haccept with ⟨-, rfl, rfl⟩ | ⟨p, hp, ⟨-, -, rfl, rfl⟩ | ⟨-, hrelay⟩⟩
  · exact h
  · rw [Intake.resolved_note]
    exact h
  · rcases Intake.relay_cases hrelay with ⟨y, hpublish, -, rfl⟩ | ⟨i₁, w₁, hpublish, hcommit, hresolved, -⟩
    · exact h.of_row (hrows.publishAll hpublish)
    · rw [hresolved]
      exact (h.of_row (hrows.publishAll hpublish)).commitLast hrows hshares hp hcommit

/-- **A cycle**, however it ends. -/
theorem pollCycle (hrows : KeepsRows env row)
    (h : Remembers row t.settings.subscriber key t.resolved w) (hshares : ¬ Shares t.resolved key)
    {x : Except Halt CycleSummary} (hcycle : t.pollCycle env w = (x, t', w')) :
    Remembers row t'.settings.subscriber key t'.resolved w' := by
  rcases Tracking.pollCycle_cases hcycle with
    ⟨-, -, rfl, rfl⟩ | ⟨d, w₁, x₁, i, hfetch, hall, hend⟩
  · exact h
  · have hfetched : row w₁ = row w := by
      have := hrows.fetch t.requests w
      rw [hfetch] at this
      exact this
    have hdone : Intake.topics i.resolved = Intake.topics t.resolved
        ∧ Remembers row t.settings.subscriber key i.resolved w' := by
      refine Intake.acceptAll_keeps
        (P := fun j v => Intake.topics j.resolved = Intake.topics t.resolved
          ∧ Remembers row t.settings.subscriber key j.resolved v)
        ?_ ?_ ⟨rfl, h.of_row hfetched⟩ hall
      · intro j v hj
        exact ⟨hj.1, hj.2.of_row (hrows.arrive v)⟩
      · intro e _ j v y j' v' hj haccept
        refine ⟨(Intake.accept_topics haccept).trans hj.1, hj.2.accept hrows ?_ haccept⟩
        exact fun hc => hshares (shares_of_topics hj.1 hc)
    rcases hend with ⟨-, rfl⟩ | ⟨-, -, -, rfl⟩
    · exact hdone.2
    · obtain ⟨hnarrower, hsettings, -⟩ := t.conclude_spec i
      rw [hsettings]
      exact hdone.2.narrow hnarrower

/-- **A resolution**, however it ends. -/
theorem resolveTopics (hrows : KeepsRows env row)
    (h : Remembers row t.settings.subscriber key t.resolved w) {x : Except Halt Nat}
    (hresolve : t.resolveTopics env w = (x, t', w')) :
    Remembers row t'.settings.subscriber key t'.resolved w' := by
  rcases Tracking.resolveTopics_cases hresolve with ⟨rfl, rfl⟩ | ⟨answer, w₁, hanswer, hend⟩
  · exact h
  · obtain ⟨rfl, rfl⟩ := Prod.mk.inj hanswer
    have hnext := h.of_row (hrows.resolve t.unresolved w)
    rcases hend with ⟨rfl, rfl⟩ | ⟨mapping, x₁, -, hall⟩
    · exact hnext
    · have hload : ∀ {topic subscriber v y v'}, env.offset topic subscriber v = (y, v') →
          row v' = row v := by
        intro topic subscriber v y v' heq
        have hsame := hrows.load topic subscriber v
        rw [heq] at hsame
        exact hsame
      refine Tracking.adoptAll_keeps
        (P := fun t v => Remembers row t.settings.subscriber key t.resolved v) ?_ ?_ hnext hall
      · intro e _ t v y v' hkept heq
        exact hkept.of_row (hload heq)
      · intro e _ t v last v' hkept _ heq p hp
        rw [hload heq]
        by_cases hkey : key = e.1
        · rw [hkey, Tracking.adopt, SortedMap.get?_insert_self] at hp
          cases hp
          exact hrows.loaded heq
        · rw [Tracking.adopt, SortedMap.get?_insert_ne t.resolved hkey] at hp
          exact hkept p hp

theorem performAll (hrows : KeepsRows env row) (deeds : List Deed) {x : Tracking × σ}
    (h : Remembers row x.1.settings.subscriber key x.1.resolved x.2)
    (hshares : ∀ earlier, earlier <+: deeds →
      ¬ Shares (Deed.performAll env x earlier).1.resolved key) :
    Remembers row (Deed.performAll env x deeds).1.settings.subscriber key
      (Deed.performAll env x deeds).1.resolved (Deed.performAll env x deeds).2 := by
  induction deeds generalizing x with
  | nil => exact h
  | cons deed deeds ih =>
    refine ih (x := deed.perform env x) ?_ ?_
    · cases deed with
      | resolve => exact h.resolveTopics hrows rfl
      | cycle => exact h.pollCycle hrows (hshares [] (List.nil_prefix)) rfl
      | restart =>
        intro p hp
        cases hp
    · intro earlier hearlier
      exact hshares (deed :: earlier) (List.cons_prefix_cons.mpr ⟨rfl, hearlier⟩)

end Remembers

/-- A run does the same with a record. -/
theorem Deed.performAll_recorded (env : Surroundings σ) (deeds : List Deed) (t : Tracking)
    (r : Recorded σ) : performAll env (t, r.world) deeds
      = ((performAll env.recorded (t, r) deeds).1, (performAll env.recorded (t, r) deeds).2.world) := by
  induction deeds generalizing t r with
  | nil => rfl
  | cons deed deeds ih =>
    have hone : deed.perform env (t, r.world)
        = ((deed.perform env.recorded (t, r)).1, (deed.perform env.recorded (t, r)).2.world) := by
      cases deed with
      | resolve =>
        obtain ⟨-, htracking, hworld⟩ := env.simulates.resolveTopics (p := .starting) (by decide) t
          (v := r) rfl
        exact Prod.ext htracking hworld.symm
      | cycle =>
        obtain ⟨-, htracking, hworld⟩ := env.simulates.pollCycle t (v := r) rfl
        exact Prod.ext htracking hworld.symm
      | restart => rfl
    show performAll env (deed.perform env (t, r.world)) deeds = _
    rw [hone]
    exact ih _ _

/-- **Publish before commit, and remember what is stored.**  Take any run of a new monitor, with any
    remote, any log of this side, and a store of offsets that changes by commits only.  Each commit that
    is tried comes directly after the publications of its element.  And a key whose topic was never
    another key's at the same time (one that is dropped later counts as well) remembers what is stored,
    so this is what it asks to go on from. -/
theorem relay_bookkeeping {row : Rows σ} (hrows : KeepsRows env row) (settings : RelaySettings)
    (w₀ : σ) (deeds : List Deed) :
    ∃ t r, Deed.performAll env.recorded (.new settings, .begin w₀) deeds = (t, r)
      ∧ Deed.performAll env (.new settings, w₀) deeds = (t, r.world)
      ∧ AllCovered settings r.events
      ∧ ∀ key p, t.resolved.get? key = some p →
        (∀ earlier, earlier <+: deeds →
          ¬ Shares (Deed.performAll env (.new settings, w₀) earlier).1.resolved key) →
        p.lastMessageId = row r.world p.remoteTopic settings.subscriber
        ∧ t.requests.get? key
          = some ⟨row r.world p.remoteTopic settings.subscriber, settings.batchLimit⟩ := by
  have hplain := Deed.performAll_recorded env deeds (.new settings) (.begin w₀)
  have htidy : Tidy settings _ _ :=
    Tidy.performAll env deeds (x := (.new settings, .begin w₀)) (.new .nil)
  rcases hrun : Deed.performAll env.recorded (.new settings, .begin w₀) deeds with ⟨t, r⟩
  rw [hrun] at hplain htidy
  refine ⟨t, r, rfl, hplain, htidy.covered, ?_⟩
  intro key p hp hshares
  have hremembers : Remembers row _ key _ _ :=
    Remembers.performAll hrows deeds (x := (.new settings, w₀)) (fun _ h => by cases h) hshares
  rw [show Deed.performAll env (.new settings, w₀) deeds = (t, r.world) from hplain] at hremembers
  have hlast : p.lastMessageId = row r.world p.remoteTopic settings.subscriber := by
    rw [← htidy.configured]
    exact hremembers p hp
  refine ⟨hlast, ?_⟩
  rw [← hlast, ← htidy.configured]
  exact Tracking.get?_requests hp

/-! ### A remote that misbehaves -/

theorem Faithful.keepsRows {v : View σ} {topicOf : TopicKey → Option TopicName}
    (hf : Faithful env v topicOf) : KeepsRows env v.offset where
  resolve keys w := funext₂ (hf.resolve keys w).offset
  fetch requests w := funext₂ (hf.fetch requests w).offset
  arrive w := funext₂ (hf.arrive w).offset
  publish topic payload w := funext₂ (hf.publish topic payload w).offset
  load topic subscriber w := funext₂ (hf.load topic subscriber w).offset
  loaded {topic subscriber w last w'} h := by
    have hidle := hf.load topic subscriber w
    rw [h] at hidle
    rw [hf.loaded h, hidle.offset]
  refused h := funext₂ (hf.refused h).offset
  committed h := (hf.committed h).2.2

namespace WildRemote

open Rehearsal (Trial)

/-- One key. -/
def settings : RelaySettings := { RelaySettings.default with topics := ["a"] }

/-- A remote that names a topic for it. -/
def remote : Endpoint.Resolver := ⟨SortedMap.empty.insert "a" "t"⟩

/-- Messages that go back, messages with an error, no messages, and a key that was not asked for. -/
def answer : Delivery where
  elements := [.ofMessages "a" [⟨"2", [2]⟩, ⟨"1", [1]⟩], ⟨"a", [⟨"7", [7]⟩], some ⟨3, "gone"⟩⟩,
    .empty "a", .ofMessages "z" [⟨"9", [9]⟩]]
  ending := .ok ()

/-- This is what it answers, whatever it is asked. -/
def surroundings : Surroundings Trial :=
  { Trial.surroundings remote 1 with fetch := fun _ w => (answer, w) }

theorem keepsRows : KeepsRows surroundings Trial.view.offset :=
  { (Trial.faithful remote 1).keepsRows with fetch := fun _ _ => rfl }

/-- The second publication and the first commit fail. -/
def begin : Trial where
  remote := MemoryLog.new false
  ascending := (MemoryLog.Filled.new false).ordered.ascending
  breaks := []
  own := { FaultyLog.sound (.new true) with brokenPublications := [2] }
  offsets := { FaultyOffsets.sound SortedMap.empty with brokenCommits := [1] }

/-- Four cycles. -/
def deeds : List Deed := [.resolve, .cycle, .cycle, .cycle, .cycle]

/-- How a run ends. -/
def final : Tracking × Trial := Deed.performAll surroundings (.new settings, begin) deeds

/-- The ids of the commits in a record, and whether they were done. -/
def commits (es : List Event) : List (MessageId × Bool) :=
  es.filterMap fun
    | .called (.commit _ _ id done) => some (id, done)
    | _ => none

theorem not_shares (earlier : List Deed) (h : earlier <+: deeds) (key : TopicKey) :
    ¬ Shares (Deed.performAll surroundings (.new settings, begin) earlier).1.resolved key := by
  have hkeys : ∀ earlier ∈ deeds.inits,
      ∀ e ∈ (Deed.performAll surroundings (.new settings, begin) earlier).1.resolved.entries,
        e.1 = "a" := by
    decide +kernel
  rintro ⟨other, p, q, hne, hp, hq, -⟩
  have hmem := (List.mem_inits _ _).mpr h
  rw [SortedMap.get?_eq_some_iff] at hp hq
  exact hne ((hkeys _ hmem _ hq).trans (hkeys _ hmem _ hp).symm)

/-- The first cycle fails before the commit and the second at it; the third commits, and the fourth has
    nothing new to commit.  The id is that of the last message, although it is not the highest. -/
theorem bookkeeping_of_wild :
    Trial.view.own final.2 "a" = [[2], [2], [1], [2], [1], [2], [1]]
    ∧ ∃ r : Recorded Trial, final.2 = r.world ∧ AllCovered settings r.events
      ∧ commits r.events = [("1", false), ("1", true)]
      ∧ ∃ p, final.1.resolved.get? "a" = some p ∧ p.lastMessageId = some "1"
        ∧ Trial.view.offset final.2 "t" settings.subscriber = some "1" := by
  obtain ⟨t, r, hrecorded, hplain, hcovered, hremembers⟩ :=
    relay_bookkeeping keepsRows settings begin deeds
  have hfinal : final = (t, r.world) := hplain
  have hcommits : commits (Deed.performAll surroundings.recorded (.new settings, .begin begin) deeds).2.events
      = [("1", false), ("1", true)] := by decide +kernel
  rw [hrecorded] at hcommits
  have hrow : Trial.view.offset final.2 "t" settings.subscriber = some "1" := by decide +kernel
  have htopic : (final.1.resolved.get? "a").map (·.remoteTopic) = some "t" := by decide +kernel
  obtain ⟨p, hp, hremote⟩ := Option.map_eq_some_iff.mp htopic
  refine ⟨by decide +kernel, r, congrArg Prod.snd hfinal, hcovered, hcommits, p, hp, ?_, hrow⟩
  rw [hfinal] at hp hrow
  rw [(hremembers "a" p hp fun earlier h => not_shares earlier h "a").1, hremote]
  exact hrow

end WildRemote
end TopicRelay.Monitor
