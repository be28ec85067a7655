/-
  What becomes of keys whose topics the remote does not have.

      retry       they stay resolved, and no cycle fails for them
      dropTopic   a key is dropped by the cycle that makes it missing often enough in a row
      fail        the first cycle that makes some key missing often enough in a row fails for the smallest
                  of these keys, whatever else is the matter with the answer

  specification   a history is the keys that were missing in each answer that came as a whole; from its
                  end backwards, `inARow` counts the answers in which a key was missing.  Often enough is
                  `RelaySettings.patience`
  invariant       what a monitor has counted for a key is that number, and the keys that are dropped are
                  those that came to the limit at some time (`MissesCounted`)
  crux            keys that have not come to the limit before come to it one answer at a time, so the keys
                  that the policy finds overdue are those that are at the limit, and not past it
                  (`Answered.isDue_iff`)

  A cycle that does not get an answer as a whole leaves the history as it is.  Nothing is assumed of the
  surroundings.  The count is a 32-bit number, but a key that is at the limit has not gone past it.
-/
import Mathlib.Data.List.DropRight
import TopicRelay.Proofs.Monitor.Whereabouts

namespace TopicRelay.Monitor

open Wire (TopicMessages)

variable {σ : Type} {env : Surroundings σ} {settings : RelaySettings}

/-! ## In a row -/

/-- The keys that an answer says are missing. -/
def missingIn (es : List TopicMessages) : List TopicKey := (es.filter (·.isNotFound)).map (·.topic)

/-- The keys that the remote failed to read. -/
def unreadableIn (es : List TopicMessages) : List TopicKey :=
  (es.filter fun e => e.error.isSome && !e.isNotFound).map (·.topic)

theorem mem_missingIn_iff {es : List TopicMessages} {key : TopicKey} :
    key ∈ missingIn es ↔ ∃ e ∈ es, e.topic = key ∧ e.isNotFound = true := by
  simp only [missingIn, List.mem_map, List.mem_filter]
  exact exists_congr fun e => by rw [and_assoc, and_comm (b := e.topic = key)]

theorem mem_unreadableIn_iff {es : List TopicMessages} {key : TopicKey} :
    key ∈ unreadableIn es
      ↔ ∃ e ∈ es, e.topic = key ∧ e.error.isSome = true ∧ e.isNotFound = false := by
  simp only [unreadableIn, List.mem_map, List.mem_filter, Bool.and_eq_true, Bool.not_eq_true']
  exact exists_congr fun e => by rw [and_assoc, and_comm (b := e.topic = key)]

/-- In how many of the last answers in a row a key was missing. -/
def inARow (key : TopicKey) (history : List (List TopicKey)) : Nat :=
  (history.rtakeWhile (key ∈ ·)).length

theorem inARow_concat_of_mem {key : TopicKey} {missing : List TopicKey} (h : key ∈ missing)
    (history : List (List TopicKey)) :
    inARow key (history ++ [missing]) = inARow key history + 1 := by
  rw [inARow, List.rtakeWhile_concat, if_pos (decide_eq_true h), List.length_append]
  rfl

/-- An answer in which a key is not missing ends its row. -/
theorem inARow_concat_of_not_mem {key : TopicKey} {missing : List TopicKey} (h : key ∉ missing)
    (history : List (List TopicKey)) : inARow key (history ++ [missing]) = 0 := by
  rw [inARow, List.rtakeWhile_concat, if_neg (by rwa [decide_eq_true_iff])]
  rfl

/-- A row has grown by one answer at a time. -/
theorem exists_inARow_eq {key : TopicKey} {history : List (List TopicKey)} {n : Nat}
    (h : n ≤ inARow key history) : ∃ past, past <+: history ∧ inARow key past = n := by
  induction history using List.reverseRecOn with
  | nil => exact ⟨[], List.prefix_rfl, (Nat.le_zero.mp h).symm⟩
  | append_singleton history missing ih =>
    by_cases hbefore : n ≤ inARow key history
    · obtain ⟨past, hpast, hn⟩ := ih hbefore
      exact ⟨past, hpast.trans (List.prefix_append _ _), hn⟩
    · refine ⟨_, List.prefix_rfl, Nat.le_antisymm ?_ h⟩
      by_cases hmem : key ∈ missing
      · rw [inARow_concat_of_mem hmem]
        exact Nat.not_le.mp hbefore
      · rw [inARow_concat_of_not_mem hmem]
        exact Nat.zero_le n

/-- How often in a row a key may be missing before something is done about it.  Nothing is done about a
    key that is not missing, so it is once at least. -/
def RelaySettings.patience (settings : RelaySettings) : Nat := max settings.notFoundThreshold.toNat 1

theorem RelaySettings.patience_pos (settings : RelaySettings) : 0 < settings.patience :=
  Nat.le_max_right _ 1

theorem RelaySettings.patience_lt (settings : RelaySettings) : settings.patience < UInt32.size :=
  Nat.max_lt.mpr ⟨settings.notFoundThreshold.toNat_lt, by decide⟩

/-- A key has been missing for just as long. -/
def IsDue (settings : RelaySettings) (history : List (List TopicKey)) (key : TopicKey) : Prop :=
  inARow key history = settings.patience

/-- One more answer can be the one after which a key is due. -/
theorem exists_isDue_concat_iff {history : List (List TopicKey)} {missing : List TopicKey}
    {key : TopicKey} : (∃ past, past <+: history ++ [missing] ∧ IsDue settings past key)
      ↔ IsDue settings (history ++ [missing]) key ∨ ∃ past, past <+: history ∧ IsDue settings past key := by
  constructor
  · rintro ⟨past, hpast, hdue⟩
    rcases List.prefix_concat_iff.mp hpast with rfl | hpast
    · exact Or.inl hdue
    · exact Or.inr ⟨past, hpast, hdue⟩
  · rintro (hdue | ⟨past, hpast, hdue⟩)
    · exact ⟨_, List.prefix_rfl, hdue⟩
    · exact ⟨past, hpast.trans (List.prefix_append _ _), hdue⟩

/-! ## Answers -/

/-- The elements of the answer to the fetch of a cycle, if it comes as a whole and all of them can be
    handled. -/
def Tracking.completed? (env : Surroundings σ) (t : Tracking) (w : σ) : Option (List TopicMessages) :=
  if t.resolved.isEmpty then none
  else
    let (delivery, w) := env.fetch t.requests w
    match Intake.receive env t.settings.subscriber delivery (.start t.resolved) w with
    | (.error _, _, _) => none
    | (.ok (), _, _) => some delivery.elements

/-- The history of a monitor after it has done something more; one that is started anew has none. -/
def Deed.history (env : Surroundings σ) (x : Tracking × σ) (history : List (List TopicKey)) :
    Deed → List (List TopicKey)
  | .resolve => history
  | .cycle => history ++ ((x.1.completed? env x.2).map missingIn).toList
  | .restart => []

/-- The history after one thing was done after the other. -/
def Deed.historyAfter (env : Surroundings σ) :
    Tracking × σ → List (List TopicKey) → List Deed → List (List TopicKey)
  | _, history, [] => history
  | x, history, deed :: deeds =>
    historyAfter env (deed.perform env x) (deed.history env x history) deeds

namespace Tracking

variable {t t' : Tracking} {i : Intake} {w w' : σ} {r : Except Halt CycleSummary}

/-- **What a cycle does**, told from whether its answer came as a whole. -/
theorem pollCycle_completed (h : t.pollCycle env w = (r, t', w')) :
    (t.completed? env w = none ∧ (r = .ok .idle ∨ ∃ halt, r = .error halt)
      ∧ ∃ resolved, Intake.OnlyAdvanced t.resolved resolved ∧ t' = { t with resolved := resolved })
    ∨ ∃ es i w₁, t.completed? env w = some es
      ∧ Intake.acceptAll env t.settings.subscriber es (.start t.resolved) w₁ = (.ok (), i, w')
      ∧ r = (t.conclude i).1.mapError .failure ∧ t' = (t.conclude i).2 := by
  rw [pollCycle] at h
  rw [completed?]
  cases hempty : t.resolved.isEmpty with
  | true =>
    rw [hempty] at h
    cases h
    exact Or.inl ⟨rfl, Or.inl rfl, t.resolved, .refl _, rfl⟩
  | false =>
    rw [hempty] at h
    rcases hfetch : env.fetch t.requests w with ⟨d, w₁⟩
    rcases hall : Intake.acceptAll env t.settings.subscriber d.elements (.start t.resolved) w₁ with
      ⟨r₁, i, w₂⟩
    simp only [Bool.false_eq_true, if_false, hfetch, Intake.receive, hall] at h ⊢
    have hadvanced : Intake.OnlyAdvanced t.resolved i.resolved := Intake.acceptAll_onlyAdvanced hall
    rcases r₁ with x | _
    · cases h
      exact Or.inl ⟨rfl, Or.inr ⟨_, rfl⟩, i.resolved, hadvanced, rfl⟩
    · rcases hending : d.ending with halt | _ <;> simp only [hending] at h ⊢ <;> cases h
      · exact Or.inl ⟨trivial, Or.inr ⟨_, rfl⟩, i.resolved, hadvanced, rfl⟩
      · exact Or.inr ⟨d.elements, i, w₁, rfl, hall, rfl, rfl⟩

/-! ## The policy -/

theorem applyPolicy_of_retry (h : t.settings.notFoundPolicy = .retry) (missing : List TopicKey) :
    applyPolicy missing t = (.ok (), t) := by
  induction missing with
  | nil => rfl
  | cons key missing ih =>
    rw [applyPolicy, h]
    split <;> exact ih

/-- The first key that is overdue decides. -/
theorem applyPolicy_of_fail (h : t.settings.notFoundPolicy = .fail) (missing : List TopicKey) :
    applyPolicy missing t
      = ((match missing.find? t.isOverdue with
          | none => .ok ()
          | some key => .error (.topicNotFound key)), t) := by
  induction missing with
  | nil => rfl
  | cons key missing ih =>
    rw [applyPolicy, h, List.find?_cons]
    cases hover : t.isOverdue key with
    | true => rfl
    | false => exact ih

/-- What is left when some keys are given up. -/
theorem get?_foldl_drop (keys : List TopicKey) (t : Tracking) (key : TopicKey) :
    (keys.foldl drop t).resolved.get? key = if key ∈ keys then none else t.resolved.get? key := by
  induction keys generalizing t with
  | nil => rfl
  | cons k keys ih =>
    rw [List.foldl_cons, ih]
    by_cases hk : key = k
    · subst hk
      have hgone : (t.drop key).resolved.get? key = none := SortedMap.get?_erase_self _ _
      simp [hgone]
    · have hsame : (t.drop k).resolved.get? key = t.resolved.get? key :=
        SortedMap.get?_erase_ne t.resolved hk
      simp [hk, hsame]

theorem isAt_resolved_foldl_drop {keys : List TopicKey} {key : TopicKey} :
    (keys.foldl drop t).IsAt key .resolved ↔ key ∉ keys ∧ t.IsAt key .resolved := by
  rw [IsAt, SortedMap.contains, get?_foldl_drop]
  split
  · next hmem => exact iff_of_false Bool.false_ne_true fun hc => hc.1 hmem
  · next hmem => exact (and_iff_right hmem).symm

theorem isAt_dropped_foldl_drop {keys : List TopicKey} {key : TopicKey} :
    (keys.foldl drop t).IsAt key .dropped ↔ key ∈ keys ∨ t.IsAt key .dropped := by
  induction keys generalizing t with
  | nil => exact (or_iff_right List.not_mem_nil).symm
  | cons k keys ih =>
    have hat : (t.drop k).IsAt key .dropped ↔ key = k ∨ t.IsAt key .dropped :=
      SortedMap.contains_insert_iff
    rw [List.foldl_cons, ih, hat, List.mem_cons, or_left_comm, or_assoc]

/-- The keys that are overdue are given up. -/
theorem applyPolicy_of_dropTopic (h : t.settings.notFoundPolicy = .dropTopic)
    {missing : List TopicKey} (hnodup : missing.Nodup) :
    applyPolicy missing t = (.ok (), (missing.filter t.isOverdue).foldl drop t) := by
  induction missing generalizing t with
  | nil => rfl
  | cons k missing ih =>
    obtain ⟨hk, hnodup⟩ := List.nodup_cons.mp hnodup
    rw [applyPolicy, h]
    cases hover : t.isOverdue k with
    | false =>
      rw [List.filter_cons_of_neg (Bool.eq_false_iff.mp hover)]
      exact ih h hnodup
    | true =>
      -- giving this key up makes no difference to the others
      have hothers : missing.filter (t.drop k).isOverdue = missing.filter t.isOverdue := by
        refine List.filter_congr fun key hkey => ?_
        have hne : key ≠ k := fun heq => hk (heq ▸ hkey)
        have hsame : (t.drop k).resolved.get? key = t.resolved.get? key :=
          SortedMap.get?_erase_ne t.resolved hne
        rw [isOverdue, isOverdue, hsame]
        rfl
      rw [List.filter_cons_of_pos hover, List.foldl_cons, ← hothers]
      exact ih h hnodup

/-! ## Conclusions -/

/-- The monitor when it has counted the missing keys of an answer, and the policy is still to come. -/
def counting (t : Tracking) (i : Intake) : Tracking :=
  { t with resolved := countMissing i.notFound i.resolved }

theorem conclude_of_error {e : RelayError}
    (h : applyPolicy i.notFound.keys (t.counting i) = (.error e, t')) :
    t.conclude i = (.error e, t') := by
  rw [counting] at h
  rw [conclude, h]

end Tracking

/-- A cycle fails only if a topic could not be read, and else tells which ones are missing. -/
def PassesOver (es : List TopicMessages) (r : Except Halt CycleSummary) : Prop :=
  (unreadableIn es = [] ∧ ∃ s, r = .ok s ∧ ∀ key, key ∈ s.topicsNotFound ↔ key ∈ missingIn es)
    ∨ (unreadableIn es ≠ [] ∧ ∃ keys, r = .error (.failure (Tracking.unreadable keys))
      ∧ ∀ key, key ∈ keys ↔ key ∈ unreadableIn es)

/-- What was seen of an answer are the keys that are missing in it, and those that could not be read. -/
structure Intake.Saw (es : List TopicMessages) (i : Intake) : Prop where
  missing : ∀ key, key ∈ i.notFound.keys ↔ key ∈ missingIn es
  unreadable : ∀ key, key ∈ i.unreadable.keys ↔ key ∈ unreadableIn es

theorem Intake.saw_of_acceptAll {es : List TopicMessages} {resolved : SortedMap TopicProgress}
    {subscriber : SubscriberName} {i : Intake} {w w' : σ}
    (h : acceptAll env subscriber es (.start resolved) w = (.ok (), i, w')) : i.Saw es := by
  have hnone : ∀ key, (start resolved).notFound.contains key = true ↔ False :=
    fun _ => iff_of_false (fun hc => by cases hc) id
  have hnone' : ∀ key, (start resolved).unreadable.contains key = true ↔ False := hnone
  constructor
  · intro key
    rw [← SortedMap.contains_iff_mem_keys, (acceptAll_noted_iff h key).1, hnone, false_or,
      mem_missingIn_iff]
  · intro key
    rw [← SortedMap.contains_iff_mem_keys, (acceptAll_noted_iff h key).2, hnone', false_or,
      mem_unreadableIn_iff]

theorem Tracking.conclude_of_ok {t t' : Tracking} {i : Intake} {es : List TopicMessages}
    (hsaw : i.Saw es) (h : applyPolicy i.notFound.keys (t.counting i) = (.ok (), t')) :
    (t.conclude i).2 = t' ∧ PassesOver es ((t.conclude i).1.mapError .failure) := by
  rw [counting] at h
  rw [conclude, h]
  simp only
  cases hempty : i.unreadable.isEmpty with
  | true =>
    refine ⟨rfl, Or.inl ⟨?_, _, rfl, hsaw.missing⟩⟩
    refine List.eq_nil_iff_forall_not_mem.mpr fun key hkey => ?_
    rw [← hsaw.unreadable, SortedMap.mem_keys_iff] at hkey
    obtain ⟨a, ha⟩ := hkey
    rw [SortedMap.isEmpty_of_get? _ ha] at hempty
    cases hempty
  | false =>
    refine ⟨rfl, Or.inr ⟨?_, _, rfl, hsaw.unreadable⟩⟩
    obtain ⟨key, hkey⟩ := SortedMap.exists_mem_keys hempty
    exact List.ne_nil_of_mem ((hsaw.unreadable key).mp hkey)

namespace Tracking

variable {t : Tracking} {i : Intake} {es : List TopicMessages}

theorem conclude_of_retry (h : t.settings.notFoundPolicy = .retry) (hsaw : i.Saw es) :
    (t.conclude i).2 = t.counting i ∧ PassesOver es ((t.conclude i).1.mapError .failure) := by
  have hcounting : (t.counting i).settings.notFoundPolicy = .retry := h
  exact conclude_of_ok hsaw (applyPolicy_of_retry hcounting _)

theorem conclude_of_dropTopic (h : t.settings.notFoundPolicy = .dropTopic) (hsaw : i.Saw es) :
    (t.conclude i).2
        = (i.notFound.keys.filter (t.counting i).isOverdue).foldl drop (t.counting i)
      ∧ PassesOver es ((t.conclude i).1.mapError .failure) := by
  have hcounting : (t.counting i).settings.notFoundPolicy = .dropTopic := h
  exact conclude_of_ok hsaw (applyPolicy_of_dropTopic hcounting i.notFound.nodup_keys)

theorem conclude_of_fail (h : t.settings.notFoundPolicy = .fail) (hsaw : i.Saw es) :
    (t.conclude i).2 = t.counting i
      ∧ match i.notFound.keys.find? (t.counting i).isOverdue with
        | none => PassesOver es ((t.conclude i).1.mapError .failure)
        | some key => (t.conclude i).1 = .error (.topicNotFound key) := by
  have hcounting : (t.counting i).settings.notFoundPolicy = .fail := h
  have happlied := applyPolicy_of_fail hcounting i.notFound.keys
  split
  · next hfind =>
    rw [hfind] at happlied
    exact conclude_of_ok hsaw happlied
  · next key hfind =>
    rw [hfind] at happlied
    rw [conclude_of_error happlied]
    exact ⟨rfl, rfl⟩

end Tracking

/-! ## What has been counted -/

/-- What a monitor knows of the keys that were missing, where the history is that of its answers. -/
structure MissesCounted (settings : RelaySettings) (history : List (List TopicKey)) (t : Tracking) :
    Prop extends EachInOnePlace settings t where
  counted : ∀ key p, t.resolved.get? key = some p → p.notFoundCount = .ofNat (inARow key history)
  /-- A key cannot be missing that was not asked for. -/
  fresh : ∀ key, t.IsAt key .unresolved → inARow key history = 0
  /-- The keys that are dropped are those that have been missing long enough at some time. -/
  gone : ∀ key, t.IsAt key .dropped ↔ settings.notFoundPolicy = .dropTopic
    ∧ ∃ past, past <+: history ∧ IsDue settings past key

namespace MissesCounted

variable {history : List (List TopicKey)} {t t' : Tracking} {w w' : σ}
  {r : Except Halt CycleSummary}

theorem new (settings : RelaySettings) : MissesCounted settings [] (.new settings) where
  toEachInOnePlace := .new settings
  counted _ _ hp := by cases hp
  fresh _ _ := rfl
  gone key := by
    refine iff_of_false (fun hc => by cases hc) ?_
    rintro ⟨-, past, hpast, hrow⟩
    rw [List.prefix_nil.mp hpast] at hrow
    exact absurd hrow.symm (Nat.pos_iff_ne_zero.mp settings.patience_pos)

/-- What neither counts nor drops. -/
theorem of_counts (h : MissesCounted settings history t) (hplaced : EachInOnePlace settings t')
    (hcounts : ∀ key p', t'.resolved.get? key = some p' →
      ∃ p, t.resolved.get? key = some p ∧ p'.notFoundCount = p.notFoundCount)
    (hunresolved : t'.unresolved = t.unresolved) (hdropped : t'.dropped = t.dropped) :
    MissesCounted settings history t' where
  toEachInOnePlace := hplaced
  counted key p' hp' := by
    obtain ⟨p, hp, hcount⟩ := hcounts key p' hp'
    rw [hcount, h.counted key p hp]
  fresh key hkey := h.fresh key (by rwa [Tracking.IsAt, hunresolved] at hkey)
  gone key := by
    rw [Tracking.IsAt, hdropped]
    exact h.gone key

/-- **A resolution** begins to count from zero. -/
theorem resolveTopics (h : MissesCounted settings history t) {x : Except Halt Nat}
    (hresolve : t.resolveTopics env w = (x, t', w')) : MissesCounted settings history t' := by
  have hplaced := (h.toEachInOnePlace.resolveTopics hresolve).1
  rcases Tracking.resolveTopics_spec hresolve with
    ⟨-, -, rfl, -⟩ | ⟨halt, -, -, rfl⟩ | ⟨mapping, w₁, loaded, broken?, -, hloaded, -, rfl⟩
  · exact h
  · exact h
  · obtain ⟨hwanted, hnodup⟩ := Tracking.loaded_spec hloaded
    refine ⟨hplaced, fun key p hp => ?_, fun key hkey => ?_, fun key => ?_⟩
    · by_cases hkey : key ∈ loaded.map Loaded.key
      · obtain ⟨l, hl, rfl⟩ := List.mem_map.mp hkey
        rw [Tracking.get?_adoptLoaded_of_mem hnodup hl] at hp
        cases hp
        have hwaits := hwanted l hl
        rw [Tracking.isWanted, Bool.and_eq_true] at hwaits
        rw [h.fresh l.key hwaits.2]
        rfl
      · rw [Tracking.get?_adoptLoaded_of_not_mem hkey] at hp
        exact h.counted key p hp
    · exact h.fresh key (Tracking.contains_adoptLoaded_iff.mp hkey).2
    · rw [Tracking.IsAt, Tracking.dropped_adoptLoaded]
      exact h.gone key

/-- Where keys are dropped, one that is still resolved has not come to the limit. -/
theorem inARow_lt (h : MissesCounted settings history t)
    (hpolicy : settings.notFoundPolicy = .dropTopic) {key : TopicKey} (hkey : t.IsAt key .resolved) :
    inARow key history < settings.patience := by
  refine Nat.lt_of_not_le fun hrow => ?_
  have hdropped := (h.gone key).mpr ⟨hpolicy, exists_inARow_eq hrow⟩
  cases h.once key .resolved .dropped hkey hdropped

end MissesCounted

/-! ## An answer that came as a whole -/

section Answered

variable {history : List (List TopicKey)} {es : List TopicMessages} {t : Tracking} {i : Intake}

/-- What is known when an answer has come as a whole: whose it was, and what was seen of it. -/
structure Answered (es : List TopicMessages) (t : Tracking) (i : Intake) : Prop where
  saw : i.Saw es
  asked : ∀ key ∈ missingIn es, t.IsAt key .resolved
  advanced : Intake.OnlyAdvanced t.resolved i.resolved

theorem answered_of_acceptAll {subscriber : SubscriberName} {w w' : σ}
    (h : Intake.acceptAll env subscriber es (.start t.resolved) w = (.ok (), i, w')) :
    Answered es t i where
  saw := Intake.saw_of_acceptAll h
  asked key hkey := by
    obtain ⟨e, he, rfl, -⟩ := mem_missingIn_iff.mp hkey
    exact SortedMap.contains_iff.mpr (Intake.acceptAll_asked h e he)
  advanced := Intake.acceptAll_onlyAdvanced h

namespace Answered

/-- When the missing keys have been counted, all keys are where they were. -/
theorem topics_counting (h : Answered es t i) :
    Intake.topics (t.counting i).resolved = Intake.topics t.resolved :=
  (Tracking.topics_countMissing i.notFound i.resolved).trans h.advanced.topics

theorem isAt_counting (h : Answered es t i) (key : TopicKey) (place : Place) :
    (t.counting i).IsAt key place ↔ t.IsAt key place := by
  have hunresolved : (t.counting i).unresolved = t.unresolved := rfl
  exact Tracking.isAt_iff_of_topics hunresolved rfl h.topics_counting key place

/-- A key that is not resolved is not missing. -/
theorem fresh (h : Answered es t i) (hplaced : EachInOnePlace settings t) {key : TopicKey}
    (hkey : t.IsAt key .unresolved) : inARow key (history ++ [missingIn es]) = 0 := by
  refine inARow_concat_of_not_mem (fun hmem => ?_) history
  cases hplaced.once key .resolved .unresolved (h.asked key hmem) hkey

/-- **Counting.**  A key that is missing has been so once more, and one that is not starts anew. -/
theorem counted (h : Answered es t i) (hcounted : MissesCounted settings history t) {key : TopicKey}
    {p : TopicProgress} (hp : (t.counting i).resolved.get? key = some p) :
    p.notFoundCount = .ofNat (inARow key (history ++ [missingIn es])) := by
  rw [Tracking.counting, Tracking.countMissing, SortedMap.get?_map, Option.map_eq_some_iff] at hp
  obtain ⟨q, hq, rfl⟩ := hp
  have hsame := h.advanced.map_get? (f := TopicProgress.notFoundCount) (fun _ => rfl) key
  rw [hq] at hsame
  obtain ⟨q', hq', hcount⟩ := Option.map_eq_some_iff.mp hsame.symm
  rw [hcounted.counted key q' hq'] at hcount
  have hmissing : i.notFound.contains key = true ↔ key ∈ missingIn es :=
    SortedMap.contains_iff_mem_keys.trans (h.saw.missing key)
  by_cases hkey : key ∈ missingIn es
  · rw [if_pos (hmissing.mpr hkey), inARow_concat_of_mem hkey, ← hcount, UInt32.ofNat_add]
    rfl
  · rw [if_neg (hmissing.not.mpr hkey), inARow_concat_of_not_mem hkey]
    rfl

/-- **The keys that are overdue** are those that have come to the limit just now, if none has before. -/
theorem isDue_iff (h : Answered es t i) (hcounted : MissesCounted settings history t)
    (hbefore : ∀ key, t.IsAt key .resolved → inARow key history < settings.patience) (key : TopicKey) :
    key ∈ i.notFound.keys ∧ (t.counting i).isOverdue key = true
      ↔ IsDue settings (history ++ [missingIn es]) key := by
  rw [h.saw.missing, IsDue]
  by_cases hkey : key ∈ missingIn es
  · have hresolved := h.asked key hkey
    obtain ⟨p, hp⟩ := SortedMap.contains_iff.mp ((h.isAt_counting key .resolved).mpr hresolved)
    have hcount := h.counted hcounted hp
    have hlt := hbefore key hresolved
    have hlimit := settings.patience_lt
    rw [inARow_concat_of_mem hkey] at hcount ⊢
    have hnat : p.notFoundCount.toNat = inARow key history + 1 := by
      rw [hcount]
      exact UInt32.toNat_ofNat_of_lt' (Nat.lt_of_le_of_lt hlt hlimit)
    have hsettings : (t.counting i).settings = settings := hcounted.configured
    rw [and_iff_right hkey, Tracking.isOverdue, hp, hsettings, Option.any_some, decide_eq_true_iff,
      UInt32.le_iff_toNat_le, hnat]
    rw [RelaySettings.patience] at hlt ⊢
    omega
  · rw [inARow_concat_of_not_mem hkey]
    exact iff_of_false (fun hc => hkey hc.1) (Nat.pos_iff_ne_zero.mp settings.patience_pos).symm

end Answered

end Answered

/-! ## What a cycle does about missing keys -/

/-- What a cycle does that does not get an answer as a whole: nothing. -/
structure LeavesAlone (t : Tracking) (r : Except Halt CycleSummary) (t' : Tracking) : Prop where
  places : ∀ key place, t'.IsAt key place ↔ t.IsAt key place
  counts : ∀ key, (t'.resolved.get? key).map (·.notFoundCount)
    = (t.resolved.get? key).map (·.notFoundCount)
  /-- It had nothing to ask for, or it failed for what broke the answer off. -/
  result : r = .ok .idle ∨ ∃ halt, r = .error halt

/-- A cycle fails for the smallest key that has just been missing long enough, and passes over the
    missing keys if there is none. -/
def FailsForDue (settings : RelaySettings) (history : List (List TopicKey)) (es : List TopicMessages)
    (r : Except Halt CycleSummary) : Prop :=
  ((∀ key, ¬ IsDue settings history key) ∧ PassesOver es r)
    ∨ ∃ key, IsDue settings history key ∧ (∀ other, IsDue settings history other → key ≤ other)
      ∧ r = .error (.failure (.topicNotFound key))

/-- **What a cycle does about the keys that are missing in its answer**, after the history so far. -/
def Heeds (settings : RelaySettings) (before : List (List TopicKey)) (es : List TopicMessages)
    (t : Tracking) (r : Except Halt CycleSummary) (t' : Tracking) : Prop :=
  match settings.notFoundPolicy with
  | .retry => (∀ key place, t'.IsAt key place ↔ t.IsAt key place) ∧ PassesOver es r
  | .dropTopic =>
    (∀ key, t'.IsAt key .dropped ↔ IsDue settings (before ++ [missingIn es]) key ∨ t.IsAt key .dropped)
      ∧ (∀ key, t'.IsAt key .resolved
        ↔ ¬ IsDue settings (before ++ [missingIn es]) key ∧ t.IsAt key .resolved)
      ∧ PassesOver es r
  | .fail =>
    (∀ key place, t'.IsAt key place ↔ t.IsAt key place)
      ∧ ((∀ past key, past <+: before → inARow key past < settings.patience) →
        FailsForDue settings (before ++ [missingIn es]) es r)

namespace MissesCounted

variable {history : List (List TopicKey)} {es : List TopicMessages} {t t' : Tracking} {i : Intake}

/-- Counting alone, where no key is dropped. -/
theorem counting (h : MissesCounted settings history t) (ha : Answered es t i)
    (hpolicy : settings.notFoundPolicy ≠ .dropTopic) :
    MissesCounted settings (history ++ [missingIn es]) (t.counting i) where
  toEachInOnePlace := by
    have hplaced : EachInOnePlace settings (t.counting i) ∧ Follows t (t.counting i) :=
      h.toEachInOnePlace.of_topics rfl rfl rfl ha.topics_counting
    exact hplaced.1
  counted _ _ hp := ha.counted h hp
  fresh _ hkey := ha.fresh h.toEachInOnePlace hkey
  gone key := (h.gone key).trans (iff_of_false (fun hc => hpolicy hc.1) fun hc => hpolicy hc.1)

/-- The keys are dropped that have come to the limit just now. -/
theorem conclude_dropTopic (h : MissesCounted settings history t) (ha : Answered es t i)
    (hpolicy : settings.notFoundPolicy = .dropTopic) :
    MissesCounted settings (history ++ [missingIn es]) (t.conclude i).2
      ∧ (∀ key, (t.conclude i).2.IsAt key .dropped
        ↔ IsDue settings (history ++ [missingIn es]) key ∨ t.IsAt key .dropped)
      ∧ (∀ key, (t.conclude i).2.IsAt key .resolved
        ↔ ¬ IsDue settings (history ++ [missingIn es]) key ∧ t.IsAt key .resolved)
      ∧ PassesOver es ((t.conclude i).1.mapError .failure) := by
  have hplaced := (h.toEachInOnePlace.conclude ha.advanced.topics).1
  have hunresolved := (t.conclude_spec i).2.2
  obtain ⟨htracking, hpasses⟩ :=
    Tracking.conclude_of_dropTopic (h.configured ▸ hpolicy : t.settings.notFoundPolicy = _) ha.saw
  rw [htracking] at hplaced hunresolved ⊢
  generalize hkeys : i.notFound.keys.filter (t.counting i).isOverdue = keys at *
  have hdue : ∀ key, key ∈ keys ↔ IsDue settings (history ++ [missingIn es]) key := by
    intro key
    rw [← hkeys, List.mem_filter]
    exact ha.isDue_iff h (fun _ => h.inARow_lt hpolicy) key
  have hdropped : ∀ key, (keys.foldl Tracking.drop (t.counting i)).IsAt key .dropped
      ↔ IsDue settings (history ++ [missingIn es]) key ∨ t.IsAt key .dropped := fun key =>
    Tracking.isAt_dropped_foldl_drop.trans (or_congr (hdue key) (ha.isAt_counting key .dropped))
  have hresolved : ∀ key, (keys.foldl Tracking.drop (t.counting i)).IsAt key .resolved
      ↔ ¬ IsDue settings (history ++ [missingIn es]) key ∧ t.IsAt key .resolved := fun key =>
    Tracking.isAt_resolved_foldl_drop.trans
      (and_congr (hdue key).not (ha.isAt_counting key .resolved))
  refine ⟨⟨hplaced, fun key p hp => ?_, fun key hkey => ?_, fun key => ?_⟩, hdropped, hresolved,
    hpasses⟩
  · rw [Tracking.get?_foldl_drop] at hp
    split at hp
    · cases hp
    · exact ha.counted h hp
  · rw [Tracking.IsAt, hunresolved] at hkey
    exact ha.fresh h.toEachInOnePlace hkey
  · rw [hdropped, h.gone, and_iff_right hpolicy, and_iff_right hpolicy, exists_isDue_concat_iff]

/-- The first cycle that makes a key come to the limit fails for the smallest one. -/
theorem failsForDue (h : MissesCounted settings history t) (ha : Answered es t i)
    (hpolicy : settings.notFoundPolicy = .fail)
    (hfirst : ∀ past key, past <+: history → inARow key past < settings.patience) :
    FailsForDue settings (history ++ [missingIn es]) es ((t.conclude i).1.mapError .failure) := by
  have hresult := (Tracking.conclude_of_fail (h.configured ▸ hpolicy) ha.saw).2
  have hdue := ha.isDue_iff h fun key _ => hfirst _ key List.prefix_rfl
  split at hresult
  · next hfind =>
    refine Or.inl ⟨fun key hkey => ?_, hresult⟩
    obtain ⟨hmem, hover⟩ := (hdue key).mpr hkey
    exact List.find?_eq_none.mp hfind key hmem hover
  · next key hfind =>
    obtain ⟨hover, before, after, hsplit, hbefore⟩ := List.find?_eq_some_iff_append.mp hfind
    have hmem : key ∈ i.notFound.keys := hsplit ▸ List.mem_append_right _ List.mem_cons_self
    refine Or.inr ⟨key, (hdue key).mp ⟨hmem, hover⟩, fun other hother => ?_, by rw [hresult]; rfl⟩
    -- the policy goes through the keys in ascending order, and this is the first that is overdue
    obtain ⟨hother, hoverdue⟩ := (hdue other).mpr hother
    have hasc : (before ++ key :: after).Pairwise (· < ·) := hsplit ▸ i.notFound.ascending
    rw [hsplit, List.mem_append, List.mem_cons] at hother
    rcases hother with hother | rfl | hother
    · have hnot := hbefore other hother
      rw [hoverdue] at hnot
      cases hnot
    · exact String.le_refl _
    · have hlt := (List.pairwise_cons.mp (List.pairwise_append.mp hasc).2.1).1 other hother
      exact String.not_lt.mp fun hc => String.lt_irrefl _ (String.lt_trans hlt hc)

/-- **The conclusions from an answer that has come as a whole.** -/
theorem conclude (h : MissesCounted settings history t) (ha : Answered es t i) :
    MissesCounted settings (history ++ [missingIn es]) (t.conclude i).2
      ∧ Heeds settings history es t ((t.conclude i).1.mapError .failure) (t.conclude i).2 := by
  rw [Heeds]
  cases hpolicy : settings.notFoundPolicy with
  | retry =>
    obtain ⟨htracking, hpasses⟩ := Tracking.conclude_of_retry (h.configured ▸ hpolicy) ha.saw
    rw [htracking]
    exact ⟨h.counting ha (by rw [hpolicy]; decide), ha.isAt_counting, hpasses⟩
  | dropTopic => exact h.conclude_dropTopic ha hpolicy
  | fail =>
    have htracking := (Tracking.conclude_of_fail (h.configured ▸ hpolicy) ha.saw).1
    refine ⟨?_, ?_, h.failsForDue ha hpolicy⟩
    · rw [htracking]
      exact h.counting ha (by rw [hpolicy]; decide)
    · rw [htracking]
      exact ha.isAt_counting

/-! ## A run -/

variable {w w' : σ} {r : Except Halt CycleSummary}

/-- **A cycle.** -/
theorem pollCycle (h : MissesCounted settings history t) (hcycle : t.pollCycle env w = (r, t', w')) :
    MissesCounted settings (history ++ ((t.completed? env w).map missingIn).toList) t'
      ∧ match t.completed? env w with
        | none => LeavesAlone t r t'
        | some es => Heeds settings history es t r t' := by
  rcases Tracking.pollCycle_completed hcycle with
    ⟨hnone, hresult, resolved, hadvanced, rfl⟩ | ⟨es, i, w₁, hsome, hall, rfl, rfl⟩
  · rw [hnone]
    have htopics := hadvanced.topics
    have hcounts := hadvanced.map_get? (f := TopicProgress.notFoundCount) fun _ => rfl
    obtain ⟨hplaced, -⟩ : EachInOnePlace settings { t with resolved := resolved } ∧ Follows t _ :=
      h.toEachInOnePlace.of_topics rfl rfl rfl htopics
    refine ⟨?_, Tracking.isAt_iff_of_topics rfl rfl htopics, hcounts, hresult⟩
    rw [Option.map_none, Option.toList_none, List.append_nil]
    refine h.of_counts hplaced (fun key p' hp' => ?_) rfl rfl
    have hkey := hcounts key
    rw [hp'] at hkey
    obtain ⟨p, hp, hcount⟩ := Option.map_eq_some_iff.mp hkey.symm
    exact ⟨p, hp, hcount.symm⟩
  · rw [hsome]
    exact h.conclude (answered_of_acceptAll hall)

theorem perform (env : Surroundings σ) {x : Tracking × σ} (h : MissesCounted settings history x.1)
    (deed : Deed) : MissesCounted settings (deed.history env x history) (deed.perform env x).1 := by
  cases deed with
  | resolve =>
    rcases hresolve : x.1.resolveTopics env x.2 with ⟨y, t', w'⟩
    rw [Deed.perform, hresolve]
    exact h.resolveTopics hresolve
  | cycle =>
    rcases hcycle : x.1.pollCycle env x.2 with ⟨y, t', w'⟩
    rw [Deed.perform, hcycle]
    exact (h.pollCycle hcycle).1
  | restart =>
    rw [Deed.perform, h.configured]
    exact .new settings

theorem performAll (env : Surroundings σ) (deeds : List Deed) {x : Tracking × σ}
    (h : MissesCounted settings history x.1) :
    MissesCounted settings (Deed.historyAfter env x history deeds) (Deed.performAll env x deeds).1 := by
  induction deeds generalizing x history with
  | nil => exact h
  | cons deed deeds ih => exact ih (h.perform env deed)

end MissesCounted

/-- **Missing topics are heeded at the limit.**  Take any run of a monitor, in any surroundings, and the
    history of the answers that came as a whole since it was last started anew:

    * for each key that is resolved it has counted the last of them in a row in which it was missing, and
      the keys that are dropped are those for which this has been the limit at some time;
    * from there on it fetches for the keys that are resolved at the time, and a key that is dropped is
      not one of them any more;
    * a cycle that does not get an answer as a whole neither counts nor drops anything, and one that
      does follows the policy. -/
theorem missing_topics_heeded (env : Surroundings σ) (settings : RelaySettings) (w₀ : σ)
    (deeds : List Deed) :
    ∃ t w history, Deed.performAll env (.new settings, w₀) deeds = (t, w)
      ∧ Deed.historyAfter env (.new settings, w₀) [] deeds = history
      ∧ MissesCounted settings history t
      ∧ (∀ later, fetchedKeys (Deed.performAll env.recorded (t, .begin w) later).2.events
          = keysAtCycles env (t, w) later)
      ∧ (∀ key, t.IsAt key .dropped → ∀ later, .restart ∉ later →
          ∀ keys ∈ keysAtCycles env (t, w) later, key ∉ keys)
      ∧ ∀ r t' w', t.pollCycle env w = (r, t', w') →
          match t.completed? env w with
          | none => LeavesAlone t r t'
          | some es => Heeds settings history es t r t' := by
  have hcounted := MissesCounted.performAll env deeds (x := (.new settings, w₀)) (.new settings)
  rcases hdone : Deed.performAll env (.new settings, w₀) deeds with ⟨t, w⟩
  rw [hdone] at hcounted
  exact ⟨t, w, _, rfl, rfl, hcounted, fun later => fetchedKeys_performAll env later t (.begin w),
    fun key hkey later hsame => hcounted.toEachInOnePlace.not_mem_keysAtCycles hkey hsame,
    fun r t' w' hcycle => (hcounted.pollCycle hcycle).2⟩

/-- A remote that does not have the topic it names.  Its second answer breaks off, and neither counts nor
    starts anew: the third one is the second in a row. -/
example :
    let settings := { RelaySettings.default with
      topics := ["a"], notFoundPolicy := .dropTopic, notFoundThreshold := 2 }
    let env := Rehearsal.Trial.surroundings ⟨SortedMap.ofList [("a", "t")]⟩ 1
    let begin : Rehearsal.Trial := { HalfResolved.begin with
      breaks := [none, some 0], offsets := FaultyOffsets.sound SortedMap.empty }
    let after := fun n => (Deed.performAll env (.new settings, begin)
      (.resolve :: List.replicate n .cycle)).1.dropped.keys
    (after 1, after 2, after 3) = ([], [], ["a"]) := by
  decide +kernel

end TopicRelay.Monitor
