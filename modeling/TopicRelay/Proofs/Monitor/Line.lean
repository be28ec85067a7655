/-
  One key on its way through an answer.

  A `Line` is one key with all that belongs to it: its topic on either side, and where both stood at
  the beginning.  The invariant `Line.Sound` links four pieces of state:

      remote log      .. passed ..|.. to come ..
      stored offset               ^
      cached id                   ^   the same, while the key is resolved
      own log         before, new     what was passed is within the new part, in order

  crux   an element is published as a whole before its last id is committed.  So when the offset
         moves on, what it passes has just been appended to the own log; and when anything fails
         before the commit, the own log has more than it needs and the offset has not moved.

  For that it matters that nobody else commits to the offset of the line: no other key may stand for
  the same topic of the remote (`Line.Sound.foreign`).
-/
import TopicRelay.Proofs.Monitor.Intake

namespace TopicRelay.Monitor

open Wire (TopicMessages messagesOf messagesOf_cons_self messagesOf_cons_ne)

variable {σ : Type} {env : Surroundings σ} {v : View σ} {topicOf : TopicKey → Option TopicName}

/-! ## Lines -/

/-- A key with its topics, the offset it began with, and what its own log had then. -/
structure Line where
  key : TopicKey
  remoteTopic : TopicName
  localTopic : TopicName
  subscriber : SubscriberName
  start : Option MessageId
  before : List Bytes

namespace Line

/-- The stored offset of a line. -/
def offset (l : Line) (v : View σ) (w : σ) : Option MessageId := v.offset w l.remoteTopic l.subscriber

/-- What the remote has for a line after its offset. -/
def toCome (l : Line) (v : View σ) (w : σ) : List Message :=
  MemoryLog.following (l.offset v w) (v.remote w l.remoteTopic)

/-- The payloads that a line has passed. -/
def passed (l : Line) (v : View σ) (w : σ) : List Bytes :=
  (Log.passed l.start (l.offset v w) (v.remote w l.remoteTopic)).map (·.payload)

/-- What holds of a line at all times. -/
structure Sound (l : Line) (v : View σ) (resolved : SortedMap TopicProgress) (w : σ) : Prop where
  progress : ∀ p, resolved.get? l.key = some p →
    p.remoteTopic = l.remoteTopic ∧ p.localTopic = l.localTopic ∧ p.lastMessageId = l.offset v w
  foreign : ∀ key p, resolved.get? key = some p → key ≠ l.key → p.remoteTopic ≠ l.remoteTopic
  place : l.offset v w = l.start ∨ ∃ m ∈ v.remote w l.remoteTopic, l.offset v w = some m.id
  forward : l.start ≤ l.offset v w
  relayed : ∃ new, v.own w l.localTopic = l.before ++ new ∧ (l.passed v w).Sublist new

/-- The elements of an answer that are still to be handled go on where the line stands. -/
def Continues (l : Line) (v : View σ) (resolved : SortedMap TopicProgress) (w : σ)
    (es : List TopicMessages) : Prop :=
  ∀ p, resolved.get? l.key = some p → messagesOf l.key es <+: l.toCome v w

/-- A line that begins here has passed nothing yet. -/
theorem Sound.begin {l : Line} {w : σ} (hstart : l.start = l.offset v w)
    (hbefore : l.before = v.own w l.localTopic) : l.Sound v SortedMap.empty w := by
  refine ⟨?_, ?_, Or.inl hstart.symm, ?_, [], ?_, ?_⟩
  · intro p hp
    cases hp
  · intro key p hp
    cases hp
  · rw [hstart]
    exact Log.le_refl _
  · rw [hbefore, List.append_nil]
  · rw [passed, hstart, Log.passed_self]
    exact List.Sublist.refl []

/-! ## While nothing is committed to a line -/

/-- Nothing was committed to a line, and nothing taken away from its logs. -/
structure Idle (l : Line) (v : View σ) (w w' : σ) : Prop where
  remote : v.remote w l.remoteTopic <+: v.remote w' l.remoteTopic
  own : v.own w l.localTopic <+: v.own w' l.localTopic
  offset : l.offset v w' = l.offset v w

theorem idle_of_idle (l : Line) {w w' : σ} (h : v.Idle w w') : l.Idle v w w' :=
  ⟨h.remote _, h.own _, h.offset _ _⟩

variable {l : Line} {resolved : SortedMap TopicProgress} {w w' : σ}

theorem Sound.idle (h : l.Sound v resolved w) (hf : Faithful env v topicOf)
    (hidle : l.Idle v w w') : l.Sound v resolved w' := by
  refine ⟨?_, h.foreign, ?_, ?_, ?_⟩
  · intro p hp
    rw [hidle.offset]
    exact h.progress p hp
  · rw [hidle.offset]
    rcases h.place with hstart | ⟨m, hm, hid⟩
    · exact Or.inl hstart
    · exact Or.inr ⟨m, hidle.remote.subset hm, hid⟩
  · rw [hidle.offset]
    exact h.forward
  · obtain ⟨new, hown, hsub⟩ := h.relayed
    obtain ⟨more, hmore⟩ := hidle.own
    refine ⟨new ++ more, ?_, ?_⟩
    · rw [← hmore, hown, List.append_assoc]
    · rw [passed, hidle.offset,
        Log.passed_grows hidle.remote (hf.ascending w' l.remoteTopic) h.place]
      exact hsub.trans (List.sublist_append_left new more)

theorem Continues.idle {es : List TopicMessages} (h : l.Continues v resolved w es)
    (hidle : l.Idle v w w') : l.Continues v resolved w' es := by
  intro p hp
  rw [toCome, hidle.offset]
  exact (h p hp).trans (Log.following_grows hidle.remote _)

end Line

/-! ## One element -/

namespace Line

variable {l : Line} {w w' : σ}

/-- After an element of another key, the line stands where it stood. -/
theorem idle_of_committed (hf : Faithful env v topicOf) {topic : TopicName} {id : MessageId}
    (hne : topic ≠ l.remoteTopic) (h : env.commit topic l.subscriber id w = (.ok (), w')) :
    l.Idle v w w' := by
  obtain ⟨hremote, hown, -, hothers⟩ := hf.committed h
  exact ⟨hremote _, hown _, hothers _ _ (Or.inl fun hc => hne hc.symm)⟩

/-- **The offset moves on.**  A batch that the line goes on with, and that is at the end of its own
    log, may be committed. -/
theorem Sound.committed (hf : Faithful env v topicOf) {resolved : SortedMap TopicProgress}
    {p : TopicProgress} {w₀ : σ} {batch rest : List Message} {m : Message}
    (h : l.Sound v resolved w₀) (hp : resolved.get? l.key = some p) (hidle : l.Idle v w₀ w)
    (hcome : l.toCome v w = (batch ++ [m]) ++ rest)
    (hown : v.own w l.localTopic = v.own w₀ l.localTopic ++ (batch ++ [m]).map (·.payload))
    (hcommit : env.commit l.remoteTopic l.subscriber m.id w = (.ok (), w')) :
    l.Sound v (resolved.insert l.key { p with lastMessageId := some m.id }) w'
      ∧ rest <+: l.toCome v w' := by
  obtain ⟨hremote, hgrown, hoffset, -⟩ := hf.committed hcommit
  have hasc := hf.ascending w l.remoteTopic
  have hafter : l.offset v w' = some m.id := hoffset
  have hm : m ∈ l.toCome v w := by
    rw [hcome]
    exact List.mem_append_left _ (List.mem_append_right _ (List.mem_singleton_self m))
  rw [toCome, Log.following_eq_filter hasc, List.mem_filter] at hm
  have hplace : m ∈ v.remote w' l.remoteTopic := (hremote _).subset hm.1
  have hforward : l.start ≤ l.offset v w := by
    rw [hidle.offset]
    exact h.forward
  obtain ⟨hremoteTopic, hlocalTopic, -⟩ := h.progress p hp
  refine ⟨⟨?_, ?_, Or.inr ⟨m, hplace, hafter⟩, ?_, ?_⟩, ?_⟩
  · intro q hq
    rw [SortedMap.get?_insert_self] at hq
    cases hq
    exact ⟨hremoteTopic, hlocalTopic, hafter.symm⟩
  · intro key q hq hne
    rw [SortedMap.get?_insert_ne resolved hne] at hq
    exact h.foreign key q hq hne
  · rw [hafter]
    exact Log.le_trans hforward (Log.le_of_isAfter hm.2)
  · obtain ⟨new, hbefore, hsub⟩ := h.relayed
    obtain ⟨more, hmore⟩ := hgrown l.localTopic
    refine ⟨new ++ (batch ++ [m]).map (·.payload) ++ more, ?_, ?_⟩
    · rw [← hmore, hown, hbefore]
      simp only [List.append_assoc]
    · rw [passed, hafter,
        Log.passed_grows (hremote _) (hf.ascending w' l.remoteTopic) (Or.inr ⟨m, hm.1, rfl⟩),
        Log.passed_last hasc hforward hcome, List.map_append]
      have hold : Log.passed l.start (l.offset v w) (v.remote w l.remoteTopic)
          = Log.passed l.start (l.offset v w₀) (v.remote w₀ l.remoteTopic) := by
        rw [hidle.offset]
        exact Log.passed_grows hidle.remote hasc h.place
      rw [hold]
      exact (List.Sublist.append hsub (List.Sublist.refl _)).trans
        (List.sublist_append_left _ more)
  · rw [toCome, hafter, ← Log.following_last hasc hcome]
    exact Log.following_grows (hremote _) _

/-- Committing the last id of an element of the line. -/
theorem commitLast_self (hf : Faithful env v topicOf) {i : Intake} {p : TopicProgress} {w₀ : σ}
    {e : TopicMessages} {rest : List TopicMessages} (htopic : e.topic = l.key)
    (h : l.Sound v i.resolved w₀) (hp : i.resolved.get? l.key = some p) (hidle : l.Idle v w₀ w)
    (hcome : e.messages ++ messagesOf l.key rest <+: l.toCome v w)
    (hown : v.own w l.localTopic = v.own w₀ l.localTopic ++ e.messages.map (·.payload))
    {r : Except RelayError Unit} {i' : Intake}
    (hcommit : Intake.commitLast env l.subscriber p e i w = (r, i', w')) :
    l.Sound v i'.resolved w' ∧ (r = .ok () → l.Continues v i'.resolved w' rest) := by
  have hsound : l.Sound v i.resolved w := h.idle hf hidle
  obtain ⟨hremoteTopic, -, hlast⟩ := hsound.progress p hp
  -- the last message is above the offset, so its id cannot have been committed before
  have hnew : ∀ batch m, e.messages = batch ++ [m] → p.lastMessageId ≠ some m.id := by
    intro batch m hconcat hc
    have hm : m ∈ l.toCome v w := by
      refine hcome.subset (List.mem_append_left _ ?_)
      rw [hconcat]
      exact List.mem_append_right _ (List.mem_singleton_self m)
    rw [toCome, Log.following_eq_filter (hf.ascending _ _), List.mem_filter, ← hlast, hc,
      Log.isAfter_some] at hm
    exact String.lt_irrefl _ hm.2
  have hid : ∀ batch m, e.messages = batch ++ [m] → e.lastMessageId? = some m.id := by
    intro batch m hconcat
    rw [TopicMessages.lastMessageId?, hconcat, List.getLast?_concat]
    rfl
  rcases e.messages.eq_nil_or_concat with hnil | ⟨batch, m, hconcat⟩
  · have hnone : e.lastMessageId? = none := by
      rw [TopicMessages.lastMessageId?, hnil]
      rfl
    rcases Intake.commitLast_cases hcommit with ⟨-, -, rfl, rfl⟩ | ⟨id, hsome, -⟩
    · rw [hnil] at hcome
      exact ⟨hsound, fun _ _ _ => hcome⟩
    · rw [hnone] at hsome
      cases hsome
  · rw [List.concat_eq_append] at hconcat
    rcases Intake.commitLast_cases hcommit with
      ⟨hdone, -⟩ | ⟨id, hsome, -, ⟨x, hput, rfl, rfl⟩ | ⟨hput, rfl, rfl⟩⟩
    · exact absurd (hdone _ (hid batch m hconcat)) (hnew batch m hconcat)
    · exact ⟨hsound.idle hf (l.idle_of_idle (hf.refused hput)), fun hc => by cases hc⟩
    · rw [hid batch m hconcat] at hsome
      cases hsome
      obtain ⟨tail, htail⟩ := hcome
      rw [hconcat, List.append_assoc] at htail
      rw [hconcat] at hown
      rw [hremoteTopic] at hput
      obtain ⟨hdone, hgoes⟩ := h.committed hf hp hidle htail.symm hown hput
      have hresolved : (i.advance e.topic p m.id).resolved
          = i.resolved.insert l.key { p with lastMessageId := some m.id } := by
        rw [Intake.advance, htopic]
      rw [hresolved]
      exact ⟨hdone, fun _ _ _ => (List.prefix_append _ tail).trans hgoes⟩

/-- Committing the last id of an element of another key. -/
theorem commitLast_other (hf : Faithful env v topicOf) {i : Intake} {p : TopicProgress}
    {e : TopicMessages} {rest : List TopicMessages} (htopic : e.topic ≠ l.key)
    (h : l.Sound v i.resolved w) (hp : i.resolved.get? e.topic = some p)
    (hcome : l.Continues v i.resolved w rest) {r : Except RelayError Unit} {i' : Intake}
    (hcommit : Intake.commitLast env l.subscriber p e i w = (r, i', w')) :
    l.Sound v i'.resolved w' ∧ (r = .ok () → l.Continues v i'.resolved w' rest) := by
  rcases Intake.commitLast_cases hcommit with
    ⟨-, -, rfl, rfl⟩ | ⟨id, -, -, ⟨x, hput, rfl, rfl⟩ | ⟨hput, -, rfl⟩⟩
  · exact ⟨h, fun _ => hcome⟩
  · exact ⟨h.idle hf (l.idle_of_idle (hf.refused hput)), fun hc => by cases hc⟩
  · have hidle := idle_of_committed hf (h.foreign e.topic p hp htopic) hput
    have hget : ∀ key, key ≠ e.topic →
        (i.advance e.topic p id).resolved.get? key = i.resolved.get? key :=
      fun key hne => SortedMap.get?_insert_ne i.resolved hne _
    have hsound := h.idle hf hidle
    refine ⟨⟨?_, ?_, hsound.place, hsound.forward, hsound.relayed⟩, fun _ q hq => ?_⟩
    · intro q hq
      rw [hget l.key fun hc => htopic hc.symm] at hq
      exact hsound.progress q hq
    · intro key q hq hne
      by_cases hkey : key = e.topic
      · subst hkey
        rw [Intake.advance, SortedMap.get?_insert_self] at hq
        cases hq
        exact h.foreign _ p hp htopic
      · rw [hget key hkey] at hq
        exact h.foreign key q hq hne
    · rw [hget l.key fun hc => htopic hc.symm] at hq
      exact hcome.idle hidle q hq

/-- Relaying an element: whatever it comes to, the line is sound, and goes on if there was no error. -/
theorem relay_sound (hf : Faithful env v topicOf) {i : Intake} {p : TopicProgress}
    {e : TopicMessages} {rest : List TopicMessages} (h : l.Sound v i.resolved w)
    (hp : i.resolved.get? e.topic = some p) (hcome : l.Continues v i.resolved w (e :: rest))
    {r : Except RelayError Unit} {i' : Intake}
    (hrelay : Intake.relay env l.subscriber p e i w = (r, i', w')) :
    l.Sound v i'.resolved w' ∧ (r = .ok () → l.Continues v i'.resolved w' rest) := by
  rcases Intake.relay_cases hrelay with ⟨x, hpublish, rfl, rfl⟩ | ⟨i₁, w₁, hpublish, hcommit, hresolved, -⟩
  · have hidle := l.idle_of_idle (Intake.publishAll_spec hf hpublish).1
    exact ⟨h.idle hf hidle, fun hc => by cases hc⟩
  · obtain ⟨hidle, hown⟩ := Intake.publishAll_spec hf hpublish
    have hline := l.idle_of_idle hidle
    rw [hresolved]
    by_cases htopic : e.topic = l.key
    · rw [htopic] at hp
      obtain ⟨-, hlocal, -⟩ := h.progress p hp
      rw [hlocal] at hown
      have hnext := (hcome.idle hline) p hp
      rw [← htopic, messagesOf_cons_self, htopic] at hnext
      exact commitLast_self hf htopic h hp hline hnext (hown rfl) hcommit
    · have hrest : l.Continues v i.resolved w₁ rest := by
        intro q hq
        have hnext := (hcome.idle hline) q hq
        rw [messagesOf_cons_ne htopic] at hnext
        exact hnext
      exact commitLast_other hf htopic (h.idle hf hline) hp hrest hcommit

/-- Handling an element. -/
theorem accept_sound (hf : Faithful env v topicOf) {i : Intake} {e : TopicMessages}
    {rest : List TopicMessages} (herror : e.error.isSome = true → e.messages = [])
    (h : l.Sound v i.resolved w) (hcome : l.Continues v i.resolved w (e :: rest))
    {r : Except RelayError Unit} {i' : Intake}
    (haccept : Intake.accept env l.subscriber e i w = (r, i', w')) :
    l.Sound v i'.resolved w' ∧ (r = .ok () → l.Continues v i'.resolved w' rest) := by
  rcases Intake.accept_cases haccept with ⟨⟨x, rfl⟩, rfl, rfl⟩ | ⟨p, hp, ⟨herr, -, rfl, rfl⟩ | ⟨-, hrelay⟩⟩
  · exact ⟨h, fun hc => by cases hc⟩
  · rw [Intake.resolved_note]
    refine ⟨h, fun _ q hq => ?_⟩
    have hnext := hcome q hq
    by_cases htopic : e.topic = l.key
    · rw [← htopic, messagesOf_cons_self, herror herr, List.nil_append, htopic] at hnext
      exact hnext
    · rw [messagesOf_cons_ne htopic] at hnext
      exact hnext
  · exact relay_sound hf h hp hcome hrelay

/-- **One answer.**  However far its elements are handled, the line is sound. -/
theorem acceptAll_sound (hf : Faithful env v topicOf) {es : List TopicMessages}
    (herrors : ∀ e ∈ es, e.error.isSome = true → e.messages = []) {i : Intake} {w w' : σ}
    (h : l.Sound v i.resolved w) (hcome : l.Continues v i.resolved w es)
    {r : Except RelayError Unit} {i' : Intake}
    (hall : Intake.acceptAll env l.subscriber es i w = (r, i', w')) : l.Sound v i'.resolved w' := by
  induction es generalizing i w with
  | nil =>
    rw [Intake.acceptAll] at hall
    cases hall
    exact h
  | cons e es ih =>
    rw [Intake.acceptAll] at hall
    have hidle := l.idle_of_idle (hf.arrive w)
    have herror := herrors e List.mem_cons_self
    split at hall
    · next x i₁ w₁ haccept =>
      cases hall
      exact (accept_sound hf herror (h.idle hf hidle) (hcome.idle hidle) haccept).1
    · next i₁ w₁ haccept =>
      obtain ⟨hsound, hgoes⟩ :=
        accept_sound hf herror (h.idle hf hidle) (hcome.idle hidle) haccept
      exact ih (fun e' he' => herrors e' (List.mem_cons_of_mem _ he')) hsound (hgoes rfl) hall

end Line

end TopicRelay.Monitor
