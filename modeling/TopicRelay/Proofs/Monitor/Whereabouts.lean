/-
  Where each key is.

      unresolved  ->  resolved  ->  dropped

  specification   each configured key that is not blank is in one of the three places, and in one only;
                  other keys are in none (`EachInOnePlace`).  A key that is dropped stays so, and one that
                  is resolved keeps its topic until it is dropped (`Follows`)
  crux            whatever a monitor does to its keys, it does by moving one key from the place where it
                  is to another one (`MovesKey`), and a move keeps the specification
                  (`EachInOnePlace.of_moves`)
  a failure       of a resolution comes between two such moves, so those before it stay made and all other
                  keys are where they were (`LeftBy`)
  a fetch         asks for the keys that are resolved when the cycle begins (`fetchedKeys_performAll`)

  Nothing at all is assumed of the surroundings.
-/
import TopicRelay.Proofs.Monitor.Adoption
import TopicRelay.Proofs.Monitor.Questions

namespace TopicRelay.Monitor

variable {σ : Type} {env : Surroundings σ} {settings : RelaySettings}

/-! ## Places -/

/-- Where a key can be. -/
inductive Place where
  | resolved
  | unresolved
  | dropped
deriving DecidableEq

/-- Whether a key is there. -/
def Tracking.IsAt (t : Tracking) (key : TopicKey) : Place → Prop
  | .resolved => t.resolved.contains key = true
  | .unresolved => t.unresolved.contains key = true
  | .dropped => t.dropped.contains key = true

instance (t : Tracking) (key : TopicKey) : (place : Place) → Decidable (t.IsAt key place)
  | .resolved => inferInstanceAs (Decidable (t.resolved.contains key = true))
  | .unresolved => inferInstanceAs (Decidable (t.unresolved.contains key = true))
  | .dropped => inferInstanceAs (Decidable (t.dropped.contains key = true))

/-- What leaves the topics of all keys alone leaves them where they are. -/
theorem Tracking.isAt_iff_of_topics {t t' : Tracking} (hunresolved : t'.unresolved = t.unresolved)
    (hdropped : t'.dropped = t.dropped)
    (htopics : Intake.topics t'.resolved = Intake.topics t.resolved) (key : TopicKey) (place : Place) :
    t'.IsAt key place ↔ t.IsAt key place := by
  cases place with
  | resolved =>
    have hkey := congrArg Option.isSome (congrFun htopics key)
    rw [Intake.topics, Intake.topics, Option.isSome_map, Option.isSome_map] at hkey
    exact iff_of_eq (congrArg (· = true) hkey)
  | unresolved => rw [IsAt, hunresolved]; rfl
  | dropped => rw [IsAt, hdropped]; rfl

/-- Counting moves no key. -/
theorem Tracking.topics_countMissing (missing : KeySet) (resolved : SortedMap TopicProgress) :
    Intake.topics (countMissing missing resolved) = Intake.topics resolved := by
  funext key
  rw [Intake.topics, Intake.topics, countMissing, SortedMap.get?_map, Option.map_map]
  rfl

/-- **Every configured key is in one place.** -/
structure EachInOnePlace (settings : RelaySettings) (t : Tracking) : Prop where
  configured : t.settings = settings
  /-- The keys that are somewhere are those that are configured and not blank. -/
  somewhere : ∀ key, key ∈ settings.topics ∧ Text.isBlankText key = false ↔ ∃ place, t.IsAt key place
  once : ∀ key place other, t.IsAt key place → t.IsAt key other → place = other
  /-- No key is resolved to a blank name. -/
  named : ∀ key p, t.resolved.get? key = some p → Text.isBlankText p.remoteTopic = false

/-- What cannot be undone. -/
structure Follows (t t' : Tracking) : Prop where
  dropped : ∀ key, t.IsAt key .dropped → t'.IsAt key .dropped
  resolved : ∀ key p, t.resolved.get? key = some p →
    t'.IsAt key .dropped ∨ ∃ p', t'.resolved.get? key = some p' ∧ p'.remoteTopic = p.remoteTopic

theorem Follows.refl (t : Tracking) : Follows t t :=
  ⟨fun _ h => h, fun _ p hp => Or.inr ⟨p, hp, rfl⟩⟩

theorem Follows.trans {t t' t'' : Tracking} (h : Follows t t') (h' : Follows t' t'') :
    Follows t t'' := by
  refine ⟨fun key hkey => h'.dropped key (h.dropped key hkey), fun key p hp => ?_⟩
  rcases h.resolved key p hp with hdropped | ⟨p', hp', hsame⟩
  · exact Or.inl (h'.dropped key hdropped)
  · refine (h'.resolved key p' hp').imp_right ?_
    rintro ⟨p'', hp'', hsame'⟩
    exact ⟨p'', hp'', hsame'.trans hsame⟩

/-- A key goes from one place to another, and all else stays where it is. -/
structure MovesKey (key : TopicKey) (source target : Place) (t t' : Tracking) : Prop where
  was : t.IsAt key source
  gone : ¬ t'.IsAt key source
  arrived : t'.IsAt key target
  others : ∀ k place, k ≠ key ∨ (place ≠ source ∧ place ≠ target) → (t'.IsAt k place ↔ t.IsAt k place)

namespace EachInOnePlace

variable {t t' : Tracking}

theorem new (settings : RelaySettings) : EachInOnePlace settings (.new settings) where
  configured := rfl
  somewhere key := by
    rw [← RelaySettings.contains_keys_iff]
    constructor
    · exact fun h => ⟨.unresolved, h⟩
    · rintro ⟨place, h⟩
      cases place with
      | unresolved => exact h
      | resolved => cases h
      | dropped => cases h
  once key place other h hother := by
    -- nothing is resolved or dropped yet
    cases place <;> cases other <;> first | rfl | cases h | cases hother
  named key p hp := by cases hp

/-- **A move keeps every key in one place.** -/
theorem of_moves (h : EachInOnePlace settings t) {key : TopicKey} {source target : Place}
    (hmoves : MovesKey key source target t t') (hsettings : t'.settings = t.settings)
    (hnamed : ∀ p, t'.resolved.get? key = some p → Text.isBlankText p.remoteTopic = false)
    (hsame : ∀ k, k ≠ key → t'.resolved.get? k = t.resolved.get? k) :
    EachInOnePlace settings t' where
  configured := hsettings.trans h.configured
  somewhere k := by
    rw [h.somewhere]
    by_cases hk : k = key
    · subst hk
      exact iff_of_true ⟨source, hmoves.was⟩ ⟨target, hmoves.arrived⟩
    · exact exists_congr fun place => (hmoves.others k place (Or.inl hk)).symm
  once k place other := by
    by_cases hk : k = key
    · subst hk
      -- it is where it has gone: not where it was, nor anywhere else, for there it would have been before
      have hthere : ∀ place, t'.IsAt k place → place = target := by
        intro place hplace
        by_cases hsource : place = source
        · exact absurd (hsource ▸ hplace) hmoves.gone
        · refine Decidable.byContradiction fun htarget => ?_
          have hbefore := (hmoves.others k place (Or.inr ⟨hsource, htarget⟩)).mp hplace
          exact hsource (h.once k place source hbefore hmoves.was)
      intro hplace hother
      rw [hthere place hplace, hthere other hother]
    · rw [hmoves.others k place (Or.inl hk), hmoves.others k other (Or.inl hk)]
      exact h.once k place other
  named k p hp := by
    by_cases hk : k = key
    · subst hk
      exact hnamed p hp
    · rw [hsame k hk] at hp
      exact h.named k p hp

theorem of_topics (h : EachInOnePlace settings t) (hsettings : t'.settings = t.settings)
    (hunresolved : t'.unresolved = t.unresolved) (hdropped : t'.dropped = t.dropped)
    (htopics : Intake.topics t'.resolved = Intake.topics t.resolved) :
    EachInOnePlace settings t' ∧ Follows t t' := by
  have hat := Tracking.isAt_iff_of_topics hunresolved hdropped htopics
  refine ⟨⟨hsettings.trans h.configured, fun key => ?_, fun key place other => ?_, fun key p' hp' => ?_⟩,
    fun key hkey => (hat key .dropped).mpr hkey, fun key p hp => Or.inr ?_⟩
  · rw [h.somewhere]
    exact exists_congr fun place => (hat key place).symm
  · rw [hat, hat]
    exact h.once key place other
  · obtain ⟨p, hp, hremote, -⟩ := Intake.exists_of_topics htopics hp'
    rw [hremote]
    exact h.named key p hp
  · obtain ⟨p', hp', hremote, -⟩ := Intake.exists_of_topics htopics.symm hp
    exact ⟨p', hp', hremote.symm⟩

/-! ## What a resolution does -/

/-- A key that is resolved goes there from the keys that wait. -/
theorem adopt (h : EachInOnePlace settings t) {key : TopicKey} {topic : TopicName}
    (hwanted : t.isWanted key topic = true) (last : Option MessageId) :
    EachInOnePlace settings (t.adopt key topic last) ∧ Follows t (t.adopt key topic last) := by
  rw [Tracking.isWanted, Bool.and_eq_true, Bool.not_eq_true'] at hwanted
  obtain ⟨hname, hwaits⟩ := hwanted
  have hothers : ∀ k, k ≠ key → (t.adopt key topic last).resolved.get? k = t.resolved.get? k :=
    fun k hk => SortedMap.get?_insert_ne t.resolved hk _
  have hmoves : MovesKey key .unresolved .resolved t (t.adopt key topic last) := by
    refine ⟨hwaits, fun hthere => ?_, ?_, fun k place helse => ?_⟩
    · exact (SortedMap.contains_erase_iff.mp hthere).1 rfl
    · exact SortedMap.contains_insert_iff.mpr (Or.inl rfl)
    · cases place with
      | resolved =>
        obtain hk | ⟨-, hne⟩ := helse
        · exact SortedMap.contains_insert_iff.trans (or_iff_right hk)
        · exact absurd rfl hne
      | unresolved =>
        obtain hk | ⟨hne, -⟩ := helse
        · exact SortedMap.contains_erase_iff.trans (and_iff_right hk)
        · exact absurd rfl hne
      | dropped => exact Iff.rfl
  refine ⟨h.of_moves hmoves rfl (fun p hp => ?_) hothers, fun _ hk => hk,
    fun k p hp => Or.inr ⟨p, ?_, rfl⟩⟩
  · rw [Tracking.adopt, SortedMap.get?_insert_self] at hp
    cases hp
    exact hname
  · rw [hothers k ?_]
    · exact hp
    -- it was waiting, so it was not resolved
    · rintro rfl
      cases h.once k .resolved .unresolved (SortedMap.contains_iff.mpr ⟨p, hp⟩) hwaits

theorem adoptLoaded (h : EachInOnePlace settings t) {ls : List Loaded}
    (hwanted : ∀ l ∈ ls, t.isWanted l.key l.topic = true) (hnodup : (ls.map Loaded.key).Nodup) :
    EachInOnePlace settings (t.adoptLoaded ls) ∧ Follows t (t.adoptLoaded ls) := by
  induction ls generalizing t with
  | nil => exact ⟨h, .refl t⟩
  | cons l ls ih =>
    obtain ⟨hl, htail⟩ := List.nodup_cons.mp hnodup
    obtain ⟨hplaced, hfollows⟩ := h.adopt (hwanted l List.mem_cons_self) l.last
    have hrest : ∀ d ∈ ls, (t.adopt l.key l.topic l.last).isWanted d.key d.topic = true := by
      intro d hd
      rw [Tracking.isWanted_adopt]
      · exact hwanted d (List.mem_cons_of_mem _ hd)
      · exact fun heq => hl (heq ▸ List.mem_map_of_mem hd)
    obtain ⟨hplaced', hfollows'⟩ := ih hplaced hrest htail
    exact ⟨hplaced', hfollows.trans hfollows'⟩

/-- **A resolution.** -/
theorem resolveTopics (h : EachInOnePlace settings t) {w w' : σ} {r : Except Halt Nat}
    (hresolve : t.resolveTopics env w = (r, t', w')) :
    EachInOnePlace settings t' ∧ Follows t t' := by
  rcases Tracking.resolveTopics_spec hresolve with
    ⟨-, -, rfl, -⟩ | ⟨halt, -, -, rfl⟩ | ⟨mapping, w₁, loaded, broken?, -, hloaded, -, rfl⟩
  · exact ⟨h, .refl _⟩
  · exact ⟨h, .refl _⟩
  · obtain ⟨hwanted, hnodup⟩ := Tracking.loaded_spec hloaded
    exact h.adoptLoaded hwanted hnodup

/-! ## What a cycle does -/

/-- A key that is given up goes there from the keys that are resolved. -/
theorem drop (h : EachInOnePlace settings t) {key : TopicKey} (hover : t.isOverdue key = true) :
    EachInOnePlace settings (t.drop key) ∧ Follows t (t.drop key) := by
  rw [Tracking.isOverdue, Option.any_eq_true] at hover
  obtain ⟨q, hq, -⟩ := hover
  have hothers : ∀ k, k ≠ key → (t.drop key).resolved.get? k = t.resolved.get? k :=
    fun k hk => SortedMap.get?_erase_ne t.resolved hk
  have hdropped : ∀ k, (t.drop key).IsAt k .dropped ↔ k = key ∨ t.IsAt k .dropped :=
    fun k => SortedMap.contains_insert_iff
  have hmoves : MovesKey key .resolved .dropped t (t.drop key) := by
    refine ⟨SortedMap.contains_iff.mpr ⟨q, hq⟩, fun hthere => ?_, (hdropped key).mpr (Or.inl rfl),
      fun k place helse => ?_⟩
    · exact (SortedMap.contains_erase_iff.mp hthere).1 rfl
    · cases place with
      | resolved =>
        obtain hk | ⟨hne, -⟩ := helse
        · exact SortedMap.contains_erase_iff.trans (and_iff_right hk)
        · exact absurd rfl hne
      | unresolved => exact Iff.rfl
      | dropped =>
        obtain hk | ⟨-, hne⟩ := helse
        · exact (hdropped k).trans (or_iff_right hk)
        · exact absurd rfl hne
  refine ⟨h.of_moves hmoves rfl (fun p hp => ?_) hothers, fun k hk => (hdropped k).mpr (Or.inr hk),
    fun k p hp => ?_⟩
  · rw [Tracking.drop, SortedMap.get?_erase_self] at hp
    cases hp
  · by_cases hk : k = key
    · exact Or.inl ((hdropped k).mpr (Or.inl hk))
    · exact Or.inr ⟨p, (hothers k hk).trans hp, rfl⟩

theorem applyPolicy (h : EachInOnePlace settings t) {missing : List TopicKey} {r : Except RelayError Unit}
    (hpolicy : Tracking.applyPolicy missing t = (r, t')) :
    EachInOnePlace settings t' ∧ Follows t t' := by
  induction missing generalizing t with
  | nil =>
    cases hpolicy
    exact ⟨h, .refl _⟩
  | cons key missing ih =>
    rw [Tracking.applyPolicy] at hpolicy
    split at hpolicy
    · next hover =>
      split at hpolicy
      · exact ih h hpolicy
      · obtain ⟨hplaced, hfollows⟩ := h.drop hover
        obtain ⟨hplaced', hfollows'⟩ := ih hplaced hpolicy
        exact ⟨hplaced', hfollows.trans hfollows'⟩
      · cases hpolicy
        exact ⟨h, .refl _⟩
    · exact ih h hpolicy

theorem conclude (h : EachInOnePlace settings t) {i : Intake}
    (htopics : Intake.topics i.resolved = Intake.topics t.resolved) :
    EachInOnePlace settings (t.conclude i).2 ∧ Follows t (t.conclude i).2 := by
  have hcounted := (Tracking.topics_countMissing i.notFound i.resolved).trans htopics
  obtain ⟨hplaced, hfollows⟩ : EachInOnePlace settings
      { t with resolved := Tracking.countMissing i.notFound i.resolved } ∧ Follows t _ :=
    h.of_topics rfl rfl rfl hcounted
  rw [Tracking.conclude]
  split
  · next e t₁ hpolicy =>
    obtain ⟨hplaced', hfollows'⟩ := hplaced.applyPolicy hpolicy
    exact ⟨hplaced', hfollows.trans hfollows'⟩
  · next t₁ hpolicy =>
    obtain ⟨hplaced', hfollows'⟩ := hplaced.applyPolicy hpolicy
    split <;> exact ⟨hplaced', hfollows.trans hfollows'⟩

/-- **A cycle.** -/
theorem pollCycle (h : EachInOnePlace settings t) {w w' : σ} {r : Except Halt CycleSummary}
    (hcycle : t.pollCycle env w = (r, t', w')) : EachInOnePlace settings t' ∧ Follows t t' := by
  rcases Tracking.pollCycle_cases hcycle with
    ⟨-, -, rfl, -⟩ | ⟨d, w₁, x, i, -, hall, ⟨-, rfl⟩ | ⟨-, -, -, rfl⟩⟩
  · exact ⟨h, .refl _⟩
  · exact h.of_topics rfl rfl rfl (Intake.acceptAll_topics hall)
  · exact h.conclude (Intake.acceptAll_topics hall)

/-! ## A run -/

theorem perform (env : Surroundings σ) (x : Tracking × σ) (h : EachInOnePlace settings x.1)
    (deed : Deed) : EachInOnePlace settings (deed.perform env x).1
      ∧ (deed ≠ .restart → Follows x.1 (deed.perform env x).1) := by
  cases deed with
  | resolve =>
    rcases hresolve : x.1.resolveTopics env x.2 with ⟨r, t', w'⟩
    rw [Deed.perform, hresolve]
    exact (h.resolveTopics hresolve).imp_right fun hfollows _ => hfollows
  | cycle =>
    rcases hcycle : x.1.pollCycle env x.2 with ⟨r, t', w'⟩
    rw [Deed.perform, hcycle]
    exact (h.pollCycle hcycle).imp_right fun hfollows _ => hfollows
  | restart =>
    refine ⟨?_, fun hne => absurd rfl hne⟩
    rw [Deed.perform, h.configured]
    exact .new settings

/-- Whatever is done one after the other keeps every key in one place, and as long as it is one monitor
    that does it, nothing is undone. -/
theorem performAll (env : Surroundings σ) (deeds : List Deed) {x : Tracking × σ}
    (h : EachInOnePlace settings x.1) :
    EachInOnePlace settings (Deed.performAll env x deeds).1
      ∧ (.restart ∉ deeds → Follows x.1 (Deed.performAll env x deeds).1) := by
  induction deeds generalizing x with
  | nil => exact ⟨h, fun _ => .refl _⟩
  | cons deed deeds ih =>
    obtain ⟨hplaced, hfollows⟩ := h.perform env x deed
    obtain ⟨hplaced', hfollows'⟩ := ih hplaced
    refine ⟨hplaced', fun hsame => ?_⟩
    rw [List.mem_cons, not_or] at hsame
    exact (hfollows (Ne.symm hsame.1)).trans (hfollows' hsame.2)

end EachInOnePlace

/-! ## A resolution that fails -/

/-- What a resolution that failed has left. -/
inductive LeftBy (env : Surroundings σ) (t : Tracking) (w : σ) (halt : Halt) (t' : Tracking)
    (w' : σ) : Prop where
  /-- No mapping came: nothing has changed. -/
  | unanswered (hanswer : env.resolve t.unresolved w = (.error halt, w')) (hsame : t' = t)
  /-- The offset of a key could not be loaded.  The keys of use before it are resolved where their
      offsets are, and all other keys are as they were. -/
  | unloaded {mapping : TopicMapping} {w₁ : σ} {loaded : List Loaded} {x : OffsetError}
    {e : TopicKey × TopicName} {rest : List (TopicKey × TopicName)}
    (hanswer : env.resolve t.unresolved w = (.ok mapping, w₁))
    (hsplit : t.wanted mapping.entries = loaded.map Loaded.entry ++ e :: rest)
    (hloaded : env.loadAll t.settings.subscriber (t.wanted mapping.entries) w₁ = (loaded, some x, w'))
    (hfailed : halt = .failure (.store x.message))
    (hbefore : ∀ l ∈ loaded, t'.resolved.get? l.key = some (l.progress t.settings))
    (hothers : ∀ key, key ∉ loaded.map Loaded.key →
      t'.resolved.get? key = t.resolved.get? key ∧ ∀ place, t'.IsAt key place ↔ t.IsAt key place)

/-- **A failed resolution** is broken off between two keys. -/
theorem LeftBy.of_resolveTopics {t t' : Tracking} {w w' : σ} {halt : Halt}
    (h : t.resolveTopics env w = (.error halt, t', w')) : LeftBy env t w halt t' w' := by
  rcases Tracking.resolveTopics_spec h with
    ⟨-, hok, -, -⟩ | ⟨_, hanswer, ⟨⟩, hsame⟩ | ⟨mapping, w₁, loaded, broken?, hanswer, hloaded, hr, rfl⟩
  · cases hok
  · exact .unanswered hanswer hsame
  · rcases Surroundings.loadAll_entries hloaded with ⟨rfl, -⟩ | ⟨x, e, rest, rfl, hsplit⟩
    · cases hr
    · have hnodup := (Tracking.loaded_spec hloaded).2
      refine .unloaded hanswer hsplit hloaded (Except.error.inj hr)
        (fun l hl => Tracking.get?_adoptLoaded_of_mem hnodup hl) fun key hkey => ?_
      have hget := Tracking.get?_adoptLoaded_of_not_mem (t := t) hkey
      refine ⟨hget, fun place => ?_⟩
      cases place with
      | resolved =>
        rw [Tracking.IsAt, SortedMap.contains, hget]
        rfl
      | unresolved => exact Tracking.contains_adoptLoaded_iff.trans (and_iff_right hkey)
      | dropped =>
        rw [Tracking.IsAt, Tracking.dropped_adoptLoaded]
        rfl

/-! ## What is asked for -/

/-- The keys of each fetch in a record. -/
def fetchedKeys (es : List Event) : List (List TopicKey) :=
  (asked es).filterMap fun
    | .messages requests => some requests.keys
    | .topics _ => none

/-- The keys that are resolved when a cycle begins.  It does not fetch if there are none. -/
def keysAtCycles (env : Surroundings σ) : Tracking × σ → List Deed → List (List TopicKey)
  | _, [] => []
  | x, deed :: deeds =>
    (if deed = .cycle ∧ x.1.resolved.isEmpty = false then [x.1.resolved.keys] else [])
      ++ keysAtCycles env (deed.perform env x) deeds

/-- **Each fetch of a run asks for the keys that are resolved.** -/
theorem fetchedKeys_performAll (env : Surroundings σ) (deeds : List Deed) (t : Tracking)
    (r : Recorded σ) : fetchedKeys (Deed.performAll env.recorded (t, r) deeds).2.events
      = fetchedKeys r.events ++ keysAtCycles env (t, r.world) deeds := by
  rw [fetchedKeys, asked_performAll, List.filterMap_append, ← fetchedKeys]
  congr 1
  generalize (t, r.world) = x
  induction deeds generalizing x with
  | nil => rfl
  | cons deed deeds ih =>
    rw [Deed.allQuestions, List.filterMap_append, ih, keysAtCycles]
    congr 1
    cases deed with
    | resolve => cases hempty : x.1.unresolved.isEmpty <;> simp [Deed.questions, hempty]
    | cycle => cases hempty : x.1.resolved.isEmpty <;> simp [Deed.questions, hempty, x.1.keys_requests]
    | restart => simp [Deed.questions]

/-- **What is dropped is not asked for any more.** -/
theorem EachInOnePlace.not_mem_keysAtCycles {deeds : List Deed} {x : Tracking × σ} {key : TopicKey}
    (h : EachInOnePlace settings x.1) (hdropped : x.1.IsAt key .dropped) (hsame : .restart ∉ deeds) :
    ∀ keys ∈ keysAtCycles env x deeds, key ∉ keys := by
  induction deeds generalizing x with
  | nil => exact fun _ hkeys => absurd hkeys List.not_mem_nil
  | cons deed deeds ih =>
    rw [List.mem_cons, not_or] at hsame
    obtain ⟨hplaced, hfollows⟩ := h.perform env x deed
    rw [keysAtCycles]
    intro keys hkeys
    rcases List.mem_append.mp hkeys with hkeys | hkeys
    · split at hkeys
      · rw [List.mem_singleton.mp hkeys]
        intro hresolved
        cases h.once key .resolved .dropped (SortedMap.contains_iff_mem_keys.mpr hresolved) hdropped
      · cases hkeys
    · exact ih hplaced ((hfollows (Ne.symm hsame.1)).dropped key hdropped) hsame.2 keys hkeys

/-! ## All together -/

/-- **Every configured key is in one place.**  Take any run of a new monitor, and what one monitor does
    in the course of it (`later`), in any surroundings:

    * each configured key that is not blank is resolved, unresolved or dropped, and only one of these;
    * a topic that is resolved stays what it is until it is dropped, and what is dropped stays so;
    * each fetch asks for the keys that are resolved when the cycle begins;
    * a resolution that fails then leaves the keys that it has handled resolved where their offsets are,
      and all others as they were. -/
theorem each_key_in_one_place (env : Surroundings σ) (settings : RelaySettings) (w₀ : σ)
    (earlier later : List Deed) (hlater : .restart ∉ later) :
    ∃ t r t' r', Deed.performAll env.recorded (.new settings, .begin w₀) earlier = (t, r)
      ∧ Deed.performAll env.recorded (t, r) later = (t', r')
      ∧ Deed.performAll env (.new settings, w₀) (earlier ++ later) = (t', r'.world)
      ∧ EachInOnePlace settings t' ∧ Follows t t'
      ∧ fetchedKeys r'.events = keysAtCycles env (.new settings, w₀) (earlier ++ later)
      ∧ ∀ halt t'' w, t'.resolveTopics env r'.world = (.error halt, t'', w) →
        LeftBy env t' r'.world halt t'' w := by
  rcases hearlier : Deed.performAll env.recorded (.new settings, .begin w₀) earlier with ⟨t, r⟩
  rcases hdone : Deed.performAll env.recorded (t, r) later with ⟨t', r'⟩
  have hplaced : EachInOnePlace settings t := by
    have hnew := EachInOnePlace.performAll env.recorded earlier
      (x := (.new settings, .begin w₀)) (.new settings)
    rw [hearlier] at hnew
    exact hnew.1
  obtain ⟨hplaced', hfollows⟩ := EachInOnePlace.performAll env.recorded later (x := (t, r)) hplaced
  rw [hdone] at hplaced' hfollows
  have hall : Deed.performAll env.recorded (.new settings, .begin w₀) (earlier ++ later) = (t', r') := by
    rw [← hdone, ← hearlier]
    exact List.foldl_append
  have hplain := Deed.performAll_recorded env (earlier ++ later) (.new settings) (.begin w₀)
  have hfetched := fetchedKeys_performAll env (earlier ++ later) (.new settings) (.begin w₀)
  rw [hall] at hplain hfetched
  exact ⟨t, r, t', r', rfl, hdone, hplain, hplaced', hfollows hlater, hfetched,
    fun _ _ _ h => .of_resolveTopics h⟩

namespace HalfResolved

open Rehearsal (Trial)

/-- Three keys and a blank one.  A topic is given up when it is missing once. -/
def threeKeys : RelaySettings :=
  { RelaySettings.default with
    topics := ["a", "b", "c", " "], notFoundPolicy := .dropTopic, notFoundThreshold := 1 }

/-- A remote that names topics for two of them, neither of which it has. -/
def surroundings : Surroundings Trial :=
  Trial.surroundings ⟨SortedMap.ofList [("a", "t"), ("b", "u")]⟩ 1

/-- The second load fails. -/
def begin : Trial where
  remote := MemoryLog.new true
  ascending := (MemoryLog.Filled.new true).ordered.ascending
  breaks := []
  own := FaultyLog.sound (.new true)
  offsets := { FaultyOffsets.sound SortedMap.empty with brokenLoads := [2] }

/-- The first resolution fails after one key, and this key is given up.  Later another one is resolved. -/
theorem keys_of_half_resolved :
    .restart ∉ [Deed.resolve]
    ∧ ∃ t r t' r', Deed.performAll surroundings.recorded (.new threeKeys, .begin begin)
          [.resolve, .cycle] = (t, r)
      ∧ Deed.performAll surroundings.recorded (t, r) [.resolve] = (t', r')
      ∧ EachInOnePlace threeKeys t' ∧ Follows t t'
      ∧ t.IsAt "a" .dropped ∧ t.IsAt "b" .unresolved
      ∧ t'.IsAt "a" .dropped ∧ t'.IsAt "b" .resolved ∧ t'.IsAt "c" .unresolved
      ∧ fetchedKeys r'.events = [["a"]] := by
  obtain ⟨t, r, t', r', ht, ht', -, hplaced, hfollows, -, -⟩ :=
    each_key_in_one_place surroundings threeKeys begin [.resolve, .cycle] [.resolve] (by decide)
  obtain ⟨rfl, rfl⟩ := Prod.mk.inj ht
  obtain ⟨rfl, rfl⟩ := Prod.mk.inj ht'
  exact ⟨by decide, _, _, _, _, rfl, rfl, hplaced, hfollows, by decide +kernel⟩

end HalfResolved
end TopicRelay.Monitor
