/-
  What comes before a commit.

      asked      the last fetch asked for a key, to which the remote has given a topic before
      handled    an element of this key comes, and has no error
      published  all its messages, in order, one directly after the other
      committed  the id of the last one, directly after that

  specification   each commit that is tried has all this before it (`Covered`), whatever the remote
                  delivers and whatever fails on this side
  crux            an element is handled in one piece (`Intake.relay_cases`): nothing comes between its
                  publications and its commit, and if one of them fails no commit comes at all

  Nothing at all is assumed of the surroundings.
-/
import TopicRelay.Proofs.Monitor.Intake
import TopicRelay.Proofs.Monitor.Recording
import TopicRelay.Proofs.Monitor.Resolution

namespace TopicRelay.Monitor

open Wire (ConsumeRequests TopicMessages)

variable {σ : Type} {env : Surroundings σ} {settings : RelaySettings}

/-! ## Commits that are covered -/

/-- The last fetch asked for this. -/
def LastAsked (es : List Event) (requests : ConsumeRequests) : Prop :=
  ∃ before after, es = before ++ .called (.fetch requests) :: after
    ∧ ∀ others, .called (.fetch others) ∉ after

/-- The remote has named a topic for a key. -/
def Named (es : List Event) (key : TopicKey) (topic : TopicName) : Prop :=
  ∃ keys mapping, .called (.resolve keys (.ok mapping)) ∈ es ∧ mapping.get? key = some topic

/-- The publications of an element, all of them done. -/
def publications (topic : TopicName) (ms : List Message) : List Event :=
  ms.map fun m => .called (.publish topic m.payload true)

/-- An element is published, and a commit of its last id may follow. -/
structure Covered (settings : RelaySettings) (es : List Event) (topic : TopicName)
    (subscriber : SubscriberName) (id : MessageId) (e : TopicMessages) : Prop where
  sound : e.error = none
  last : e.lastMessageId? = some id
  own : subscriber = settings.subscriber
  published : ∃ before requests, es = before ++ .called (.handle (some e))
      :: publications (settings.localTopic e.topic) e.messages
    ∧ LastAsked before requests ∧ requests.contains e.topic = true ∧ Named before e.topic topic

/-- Each commit, done or not, has an element that it is for. -/
def AllCovered (settings : RelaySettings) (es : List Event) : Prop :=
  ∀ before topic subscriber id done after,
    es = before ++ .called (.commit topic subscriber id done) :: after →
    ∃ e, Covered settings before topic subscriber id e

theorem AllCovered.nil : AllCovered settings [] := by
  intro before topic subscriber id done after hes
  exact absurd hes.symm (List.append_ne_nil_of_right_ne_nil _ (List.cons_ne_nil _ _))

theorem AllCovered.concat {es : List Event} (h : AllCovered settings es) {x : Event}
    (hx : ∀ topic subscriber id done, x = .called (.commit topic subscriber id done) →
      ∃ e, Covered settings es topic subscriber id e) : AllCovered settings (es ++ [x]) := by
  intro before topic subscriber id done after hes
  rcases split_concat hes with ⟨rfl, hlast, -⟩ | ⟨earlier, hes, -⟩
  · exact hx topic subscriber id done hlast
  · exact h before topic subscriber id done earlier hes

theorem Named.concat {es : List Event} {key : TopicKey} {topic : TopicName} (h : Named es key topic)
    (x : Event) : Named (es ++ [x]) key topic := by
  obtain ⟨keys, mapping, hmem, hkey⟩ := h
  exact ⟨keys, mapping, List.mem_append_left _ hmem, hkey⟩

theorem LastAsked.concat {es : List Event} {requests : ConsumeRequests} (h : LastAsked es requests)
    {x : Event} (hx : ∀ others, x ≠ .called (.fetch others)) : LastAsked (es ++ [x]) requests := by
  obtain ⟨before, after, rfl, hafter⟩ := h
  refine ⟨before, after ++ [x], ?_, ?_⟩
  · rw [List.append_assoc, List.cons_append]
  · intro others hmem
    rcases List.mem_append.mp hmem with hmem | hmem
    · exact hafter others hmem
    · exact hx others (List.mem_singleton.mp hmem).symm

/-! ## While an answer is handled -/

/-- What holds between two elements of an answer. -/
structure Answering (settings : RelaySettings) (requests : ConsumeRequests) (i : Intake)
    (r : Recorded σ) : Prop where
  covered : AllCovered settings r.events
  asked : LastAsked r.events requests
  known : ∀ key p, i.resolved.get? key = some p → requests.contains key = true
    ∧ p.localTopic = settings.localTopic key ∧ Named r.events key p.remoteTopic

namespace Answering

variable {requests : ConsumeRequests} {i i' : Intake} {r r' : Recorded σ} {x : Except RelayError Unit}

theorem note (h : Answering settings requests i r) {c : Call} (w : σ)
    (hfetch : ∀ others, c ≠ .fetch others)
    (hcommit : ∀ topic subscriber id done, c = .commit topic subscriber id done →
      ∃ e, Covered settings r.events topic subscriber id e) :
    Answering settings requests i (r.note c w) := by
  refine ⟨h.covered.concat ?_, h.asked.concat ?_, ?_⟩
  · rintro topic subscriber id done ⟨⟩
    exact hcommit topic subscriber id done rfl
  · rintro others ⟨⟩
    exact hfetch others rfl
  · intro key p hp
    obtain ⟨hasked, hlocal, hnamed⟩ := h.known key p hp
    exact ⟨hasked, hlocal, hnamed.concat _⟩

theorem upcoming (h : Answering settings requests i r) (es : List TopicMessages) :
    Answering settings requests i { r with upcoming := es } :=
  ⟨h.covered, h.asked, h.known⟩

/-- The same keys with the same topics. -/
theorem of_topics (h : Answering settings requests i r)
    (htopics : Intake.topics i'.resolved = Intake.topics i.resolved) :
    Answering settings requests i' r := by
  refine ⟨h.covered, h.asked, ?_⟩
  intro key p' hp'
  obtain ⟨p, hp, hremote, hlocal⟩ := Intake.exists_of_topics htopics hp'
  rw [hremote, hlocal]
  exact h.known key p hp

theorem publishAll (h : Answering settings requests i r) {topic : TopicName} {ms : List Message}
    (hpublish : Intake.publishAll env.recorded topic ms r = (x, r')) :
    Answering settings requests i r'
      ∧ (x = .ok () → r'.events = r.events ++ publications topic ms) := by
  induction ms generalizing r with
  | nil =>
    rw [Intake.publishAll] at hpublish
    cases hpublish
    exact ⟨h, fun _ => (List.append_nil _).symm⟩
  | cons m ms ih =>
    rw [Intake.publishAll] at hpublish
    rcases hone : env.recorded.publish topic m.payload r with ⟨answer, r₁⟩
    have hr₁ : r₁ = r.note (.publish topic m.payload answer.isOk)
        (env.publish topic m.payload r.world).2 := by
      cases hone
      rfl
    have hnext : Answering settings requests i r₁ := by
      rw [hr₁]
      refine h.note _ ?_ ?_
      · rintro others ⟨⟩
      · rintro topic subscriber id done ⟨⟩
    rw [hone] at hpublish
    cases answer with
    | error e =>
      cases hpublish
      refine ⟨hnext, ?_⟩
      rintro ⟨⟩
    | ok id =>
      obtain ⟨hrest, hevents⟩ := ih hnext hpublish
      refine ⟨hrest, ?_⟩
      intro hx
      rw [hevents hx, hr₁, Recorded.events_note, List.append_assoc]
      rfl

/-- **A commit is covered.** -/
theorem commitLast (h : Answering settings requests i r) {p : TopicProgress} {e : TopicMessages}
    (hp : i.resolved.get? e.topic = some p)
    (hcovered : ∀ id, e.lastMessageId? = some id →
      Covered settings r.events p.remoteTopic settings.subscriber id e)
    (hcommit : Intake.commitLast env.recorded settings.subscriber p e i r = (x, i', r')) :
    Answering settings requests i' r' := by
  have hnote : ∀ {id y}, e.lastMessageId? = some id →
      env.recorded.commit p.remoteTopic settings.subscriber id r = (y, r') →
      Answering settings requests i r' := by
    rintro id y hlast ⟨⟩
    refine h.note _ ?_ ?_
    · rintro others ⟨⟩
    · rintro topic subscriber id' done ⟨⟩
      exact ⟨e, hcovered id hlast⟩
  rcases Intake.commitLast_cases hcommit with
    ⟨-, -, rfl, rfl⟩ | ⟨id, hlast, -, ⟨y, hput, -, rfl⟩ | ⟨hput, -, rfl⟩⟩
  · exact h
  · exact hnote hlast hput
  · exact (hnote hlast hput).of_topics (Intake.topics_advance hp id)

/-- **An element**, which is the next one that the recorder expects. -/
theorem accept (h : Answering settings requests i r) {e : TopicMessages}
    (hnext : r.upcoming.head? = some e)
    (haccept : Intake.accept env.recorded settings.subscriber e i (env.recorded.arrive r)
      = (x, i', r')) :
    Answering settings requests i' r' := by
  have hevents : (env.recorded.arrive r).events = r.events ++ [.called (.handle (some e))] := by
    rw [← hnext]
    rfl
  have harrived : Answering settings requests i (env.recorded.arrive r) := by
    refine (h.note _ ?_ ?_).upcoming _
    · rintro others ⟨⟩
    · rintro topic subscriber id done ⟨⟩
  rcases Intake.accept_cases haccept with ⟨-, rfl, rfl⟩ | ⟨p, hp, ⟨-, -, rfl, rfl⟩ | ⟨hsound, hrelay⟩⟩
  · exact harrived
  · exact harrived.of_topics (by rw [Intake.resolved_note])
  · obtain ⟨hasked, hlocal, hnamed⟩ := h.known e.topic p hp
    rcases Intake.relay_cases hrelay with
      ⟨y, hpublish, -, rfl⟩ | ⟨i₁, r₁, hpublish, hcommit, hresolved, -⟩
    · exact (harrived.publishAll hpublish).1
    · obtain ⟨hdone, hpublished⟩ := harrived.publishAll hpublish
      have hcovered : ∀ id, e.lastMessageId? = some id →
          Covered settings r₁.events p.remoteTopic settings.subscriber id e := by
        intro id hlast
        refine ⟨hsound, hlast, rfl, r.events, requests, ?_, h.asked, hasked, hnamed⟩
        rw [hpublished rfl, hevents, List.append_assoc, hlocal]
        rfl
      exact (hdone.commitLast hp hcovered hcommit).of_topics (congrArg Intake.topics hresolved)

end Answering

/-! ## A run -/

/-- What holds between two things that a monitor does. -/
structure Tidy (settings : RelaySettings) (t : Tracking) (r : Recorded σ) : Prop where
  configured : t.settings = settings
  covered : AllCovered settings r.events
  known : ∀ key p, t.resolved.get? key = some p →
    p.localTopic = settings.localTopic key ∧ Named r.events key p.remoteTopic

namespace Tidy

variable {t t' : Tracking} {r r' : Recorded σ}

theorem new (hcovered : AllCovered settings r.events) : Tidy settings (.new settings) r := by
  refine ⟨rfl, hcovered, ?_⟩
  intro key p hp
  cases hp

theorem pollCycle (h : Tidy settings t r) {x : Except Halt CycleSummary}
    (hcycle : t.pollCycle env.recorded r = (x, t', r')) : Tidy settings t' r' := by
  rcases Tracking.pollCycle_cases hcycle with
    ⟨-, -, rfl, rfl⟩ | ⟨d, r₁, x₁, i, hfetch, hall, hend⟩
  · exact h
  · have hbegin : Answering settings t.requests (.start t.resolved) r₁ ∧ r₁.upcoming = d.elements := by
      obtain ⟨hd, rfl⟩ := Prod.mk.inj hfetch
      refine ⟨⟨h.covered.concat ?_, ⟨r.events, [], rfl, ?_⟩, ?_⟩, congrArg Delivery.elements hd⟩
      · rintro topic subscriber id done ⟨⟩
      · rintro others ⟨⟩
      · intro key p hp
        obtain ⟨hlocal, hnamed⟩ := h.known key p hp
        exact ⟨Tracking.contains_requests.mpr ⟨p, hp⟩, hlocal, hnamed.concat _⟩
    rw [h.configured] at hall
    have hdone : Answering settings t.requests i r' :=
      Intake.acceptAll_recorded (fun hnext h haccept => h.accept hnext haccept) hbegin.2 hbegin.1 hall
    have hknown : ∀ {resolved}, Narrower resolved i.resolved → ∀ key p, resolved.get? key = some p →
        p.localTopic = settings.localTopic key ∧ Named r'.events key p.remoteTopic := by
      intro resolved hnarrower key p hp
      obtain ⟨q, hq, hremote, hlocal, -⟩ := hnarrower key p hp
      rw [hremote, hlocal]
      exact (hdone.known key q hq).2
    rcases hend with ⟨-, rfl⟩ | ⟨-, -, -, rfl⟩
    · exact ⟨h.configured, hdone.covered, hknown (.refl _)⟩
    · obtain ⟨hnarrower, hsettings, -⟩ := t.conclude_spec i
      exact ⟨hsettings.trans h.configured, hdone.covered, hknown hnarrower⟩

theorem note (h : Tidy settings t r) {c : Call} (w : σ)
    (hcommit : ∀ topic subscriber id done, c ≠ .commit topic subscriber id done) :
    Tidy settings t (r.note c w) := by
  refine ⟨h.configured, h.covered.concat ?_, ?_⟩
  · rintro topic subscriber id done ⟨⟩
    exact absurd rfl (hcommit topic subscriber id done)
  · intro key p hp
    obtain ⟨hlocal, hnamed⟩ := h.known key p hp
    exact ⟨hlocal, hnamed.concat _⟩

theorem adopt (h : Tidy settings t r) {key : TopicKey} {topic : TopicName}
    (hnamed : Named r.events key topic) (last : Option MessageId) :
    Tidy settings (t.adopt key topic last) r := by
  refine ⟨h.configured, h.covered, ?_⟩
  intro key' p hp
  by_cases hk : key' = key
  · rw [Tracking.adopt, hk, SortedMap.get?_insert_self] at hp
    cases hp
    rw [hk, h.configured]
    exact ⟨rfl, hnamed⟩
  · rw [Tracking.adopt, SortedMap.get?_insert_ne t.resolved hk] at hp
    exact h.known key' p hp

/-- **A resolution**, however it ends. -/
theorem resolveTopics (h : Tidy settings t r) {x : Except Halt Nat}
    (hresolve : t.resolveTopics env.recorded r = (x, t', r')) : Tidy settings t' r' := by
  rcases Tracking.resolveTopics_cases hresolve with ⟨rfl, rfl⟩ | ⟨answer, r₁, hanswer, hend⟩
  · exact h
  · obtain ⟨rfl, rfl⟩ := Prod.mk.inj hanswer
    have hnext : Tidy settings t (env.recorded.resolve t.unresolved r).2 := by
      refine h.note _ ?_
      rintro topic subscriber id done ⟨⟩
    rcases hend with ⟨rfl, rfl⟩ | ⟨mapping, x₁, hok, hall⟩
    · exact hnext
    · have hnamed : ∀ e ∈ mapping.entries,
          Named (env.recorded.resolve t.unresolved r).2.events e.1 e.2 := by
        intro e he
        refine ⟨t.unresolved, mapping, ?_, SortedMap.get?_eq_some_iff.mpr he⟩
        rw [← hok]
        exact List.mem_append_right _ (List.mem_singleton_self _)
      -- what was named stays so while offsets are loaded
      have hload : ∀ {t : Tracking} {r r' : Recorded σ} {topic x}, (Tidy settings t r
          ∧ ∀ e ∈ mapping.entries, Named r.events e.1 e.2) →
          env.recorded.offset topic t.settings.subscriber r = (x, r') →
          Tidy settings t r' ∧ ∀ e ∈ mapping.entries, Named r'.events e.1 e.2 := by
        rintro t r r' topic x ⟨htidy, hnamed⟩ ⟨⟩
        refine ⟨htidy.note _ ?_, fun e he => (hnamed e he).concat _⟩
        rintro topic subscriber id done ⟨⟩
      refine (Tracking.adoptAll_keeps (P := fun t r => Tidy settings t r
        ∧ ∀ e ∈ mapping.entries, Named r.events e.1 e.2) ?_ ?_ ⟨hnext, hnamed⟩ hall).1
      · intro e _ t r x r' hkept heq
        exact hload hkept heq
      · intro e he t r last r' hkept _ heq
        obtain ⟨htidy, hnamed⟩ := hload hkept heq
        exact ⟨htidy.adopt (hnamed e he) last, hnamed⟩

theorem performAll (env : Surroundings σ) (deeds : List Deed) {x : Tracking × Recorded σ} (h : Tidy settings x.1 x.2) :
    Tidy settings (Deed.performAll env.recorded x deeds).1 (Deed.performAll env.recorded x deeds).2 := by
  induction deeds generalizing x with
  | nil => exact h
  | cons deed deeds ih =>
    have hnext : Tidy settings (deed.perform env.recorded x).1 (deed.perform env.recorded x).2 := by
      cases deed with
      | resolve => exact h.resolveTopics rfl
      | cycle => exact h.pollCycle rfl
      | restart =>
        rw [Deed.perform, h.configured]
        exact .new h.covered
    exact ih hnext

end Tidy

end TopicRelay.Monitor
