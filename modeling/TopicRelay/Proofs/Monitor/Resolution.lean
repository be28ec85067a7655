/-
  What a resolution comes to.

    whatever happens   it loads offsets and adopts keys that wait, one by one, so it keeps what each of
                       these keeps (`Tracking.adoptAll_keeps`)
    when every offset can be loaded
                       each key of the mapping that is waiting is adopted where its offset is, and no
                       other key is touched (`Tracking.adoptAll_of_loads`); so the first resolution of a
                       monitor resolves just those of its keys that the remote knows
                       (`Tracking.resolveTopics_of_loads`)
-/
import TopicRelay.Endpoint.Resolver
import TopicRelay.Monitor.Tracking
import TopicRelay.Proofs.SortedMap

namespace TopicRelay

/-- What a remote resolves of some keys. -/
theorem Endpoint.Resolver.get?_resolveAll_eq_some_iff {r : Resolver} {keys : TopicKeys}
    {key : TopicKey} {topic : TopicName} : (r.resolveAll keys).get? key = some topic ↔
      keys.contains key = true ∧ r.resolve? key = some topic := by
  rw [resolveAll, SortedMap.get?_filterMap_eq_some_iff, SortedMap.contains_iff]
  constructor
  · rintro ⟨u, hu, htopic⟩
    exact ⟨⟨u, hu⟩, htopic⟩
  · rintro ⟨⟨u, hu⟩, htopic⟩
    exact ⟨u, hu, htopic⟩

/-- The keys to relay are those that are configured and not blank. -/
theorem Monitor.RelaySettings.contains_keys_iff {settings : RelaySettings} {key : TopicKey} :
    settings.keys.contains key = true ↔ key ∈ settings.topics ∧ Text.isBlankText key = false := by
  rw [keys, KeySet.contains_ofKeys_iff, List.mem_filter, Bool.not_eq_true']

namespace Monitor.Tracking

variable {σ : Type} {env : Surroundings σ} {works : σ → Prop} {row : TopicName → Option MessageId}

/-! ## What a resolution can do -/

theorem contains_of_adopt {t : Tracking} {key k : TopicKey} {topic : TopicName}
    {last : Option MessageId} (h : (t.adopt key topic last).unresolved.contains k = true) :
    t.unresolved.contains k = true := by
  rw [SortedMap.contains_iff] at h ⊢
  obtain ⟨u, hu⟩ := h
  by_cases hk : k = key
  · rw [adopt, hk, SortedMap.get?_erase_self] at hu
    cases hu
  · rw [adopt, SortedMap.get?_erase_ne t.unresolved hk] at hu
    exact ⟨u, hu⟩

/-- **What every load and every adoption keeps, going through a mapping keeps.** -/
theorem adoptAll_keeps {P : Tracking → σ → Prop} {entries : List (TopicKey × TopicName)}
    {t t' : Tracking} {w w' : σ} {count : Nat} {r : Except RelayError Nat}
    (hload : ∀ e ∈ entries, ∀ t w x w', P t w →
      env.offset e.2 t.settings.subscriber w = (.error x, w') → P t w')
    (hadopt : ∀ e ∈ entries, ∀ t w last w', P t w → t.unresolved.contains e.1 = true →
      env.offset e.2 t.settings.subscriber w = (.ok last, w') → P (t.adopt e.1 e.2 last) w')
    (hstart : P t w) (h : adoptAll env count entries t w = (r, t', w')) : P t' w' := by
  induction entries generalizing count t w with
  | nil =>
    rw [adoptAll] at h
    cases h
    exact hstart
  | cons e entries ih =>
    have hloads := fun d hd => hload d (List.mem_cons_of_mem e hd)
    have hadopts := fun d hd => hadopt d (List.mem_cons_of_mem e hd)
    rw [adoptAll] at h
    split at h
    · next hwanted =>
      rw [isWanted, Bool.and_eq_true] at hwanted
      rcases hoffset : env.offset e.2 t.settings.subscriber w with ⟨x | last, w₁⟩
      · rw [hoffset] at h
        cases h
        exact hload e List.mem_cons_self _ w x _ hstart hoffset
      · rw [hoffset] at h
        exact ih hloads hadopts
          (hadopt e List.mem_cons_self t w last w₁ hstart hwanted.2 hoffset) h
    · exact ih hloads hadopts hstart h

/-- **What a resolution can do**: nothing, or ask, and then go through the mapping if one comes. -/
theorem resolveTopics_cases {t t' : Tracking} {w w' : σ} {r : Except Halt Nat}
    (h : t.resolveTopics env w = (r, t', w')) :
    (t' = t ∧ w' = w) ∨ ∃ answer w₁, env.resolve t.unresolved w = (answer, w₁)
      ∧ ((t' = t ∧ w' = w₁)
        ∨ ∃ mapping r₁, answer = .ok mapping
          ∧ adoptAll env 0 mapping.entries t w₁ = (r₁, t', w')) := by
  rw [resolveTopics] at h
  split at h
  · cases h
    exact Or.inl ⟨rfl, rfl⟩
  · refine Or.inr ?_
    split at h
    · next heq =>
      cases h
      exact ⟨_, _, heq, Or.inl ⟨rfl, rfl⟩⟩
    · next mapping w₁ heq =>
      rcases hall : adoptAll env 0 mapping.entries t w₁ with ⟨r₁, t₁, w₂⟩
      simp only [hall] at h
      cases h
      exact ⟨_, w₁, heq, Or.inr ⟨mapping, r₁, rfl, hall⟩⟩

/-! ## When every offset can be loaded -/

/-- Where a key begins. -/
def freshProgress (settings : RelaySettings) (row : TopicName → Option MessageId) (key : TopicKey)
    (topic : TopicName) : TopicProgress :=
  ⟨topic, settings.localTopic key, row topic, 0⟩

/-- Going through a mapping in which every key is wanted. -/
theorem adoptAll_of_loads {t : Tracking}
    (hload : ∀ topic w, works w → ∃ w',
      env.offset topic t.settings.subscriber w = (.ok (row topic), w') ∧ works w')
    {entries : List (TopicKey × TopicName)} (hasc : (entries.map Prod.fst).Pairwise (· < ·))
    (hwanted : ∀ e ∈ entries, t.isWanted e.1 e.2 = true) (count : Nat) {w : σ} (hw : works w) :
    ∃ n t' w', adoptAll env count entries t w = (.ok n, t', w') ∧ works w'
      ∧ t'.settings = t.settings
      ∧ (∀ e ∈ entries, t'.resolved.get? e.1 = some (freshProgress t.settings row e.1 e.2))
      ∧ ∀ k, (∀ e ∈ entries, e.1 ≠ k) → t'.resolved.get? k = t.resolved.get? k := by
  induction entries generalizing t count w with
  | nil =>
    refine ⟨count, t, w, rfl, hw, rfl, ?_, fun _ _ => rfl⟩
    intro e he
    cases he
  | cons e entries ih =>
    obtain ⟨key, topic⟩ := e
    obtain ⟨hhead, htail⟩ := List.pairwise_cons.mp hasc
    have hne : ∀ e ∈ entries, e.1 ≠ key :=
      fun e he => (String.ne_of_lt (hhead e.1 (List.mem_map_of_mem he))).symm
    obtain ⟨w₁, hoffset, hw₁⟩ := hload topic w hw
    -- what is wanted afterwards was wanted before, for its key is another one
    have hwanted₁ : ∀ e ∈ entries, (t.adopt key topic (row topic)).isWanted e.1 e.2 = true := by
      intro e he
      have hbefore := hwanted e (List.mem_cons_of_mem _ he)
      rw [isWanted, SortedMap.contains] at hbefore ⊢
      rw [adopt, SortedMap.get?_erase_ne t.unresolved (hne e he)]
      exact hbefore
    obtain ⟨n, t', w', hall, hw', hsettings, hadopted, hothers⟩ :=
      ih (t := t.adopt key topic (row topic)) hload htail hwanted₁ (count + 1) hw₁
    refine ⟨n, t', w', ?_, hw', hsettings, ?_, ?_⟩
    · rw [adoptAll, if_pos (hwanted _ List.mem_cons_self), hoffset]
      exact hall
    · intro e he
      rcases List.mem_cons.mp he with rfl | he
      · rw [hothers key hne]
        exact SortedMap.get?_insert_self _ _ _
      · exact hadopted e he
    · intro k hk
      rw [hothers k fun e he => hk e (List.mem_cons_of_mem _ he)]
      exact SortedMap.get?_insert_ne _ (hk _ List.mem_cons_self).symm _

/-- **The first resolution of a monitor** resolves the keys that the remote knows. -/
theorem resolveTopics_of_loads (row : TopicName → Option MessageId) (settings : RelaySettings)
    (hload : ∀ topic w, works w → ∃ w',
      env.offset topic settings.subscriber w = (.ok (row topic), w') ∧ works w')
    {resolver : Endpoint.Resolver} {w : σ} (hw : works w)
    (hresolve : settings.keys.isEmpty = false → ∃ w₁,
      env.resolve settings.keys w = (.ok (resolver.resolveAll settings.keys), w₁) ∧ works w₁) :
    ∃ n t w', (new settings).resolveTopics env w = (.ok n, t, w') ∧ works w' ∧ t.settings = settings
      ∧ ∀ key p, t.resolved.get? key = some p ↔ ∃ topic, settings.keys.contains key = true
        ∧ resolver.resolve? key = some topic ∧ p = freshProgress settings row key topic := by
  have hentries : ∀ e ∈ (resolver.resolveAll settings.keys).entries,
      settings.keys.contains e.1 = true ∧ resolver.resolve? e.1 = some e.2 :=
    fun e he => Endpoint.Resolver.get?_resolveAll_eq_some_iff.mp (SortedMap.get?_eq_some_iff.mpr he)
  -- a topic whose name is blank counts as none
  have hwanted : ∀ e ∈ (resolver.resolveAll settings.keys).entries,
      (new settings).isWanted e.1 e.2 = true := by
    intro e he
    obtain ⟨hcontains, hnamed⟩ := hentries e he
    obtain ⟨-, hname⟩ := Option.filter_eq_some_iff.mp hnamed
    rw [isWanted, hname]
    exact hcontains
  rw [resolveTopics, show (new settings).unresolved = settings.keys from rfl]
  split
  · next hempty =>
    refine ⟨0, _, w, rfl, hw, rfl, ?_⟩
    intro key p
    constructor
    · intro hp
      cases hp
    · rintro ⟨topic, hcontains, -, -⟩
      obtain ⟨u, hu⟩ := SortedMap.contains_iff.mp hcontains
      rw [SortedMap.isEmpty_of_get? _ hu] at hempty
      cases hempty
  · next hempty =>
    obtain ⟨w₁, hanswer, hw₁⟩ := hresolve (Bool.not_eq_true _ ▸ hempty)
    obtain ⟨n, t, w', hall, hw', hsettings, hadopted, hothers⟩ := adoptAll_of_loads
      (t := new settings) hload (resolver.resolveAll settings.keys).ascending hwanted 0 hw₁
    rw [hanswer]
    simp only [hall]
    refine ⟨n, t, w', rfl, hw', hsettings, ?_⟩
    intro key p
    constructor
    · intro hp
      cases hk : (resolver.resolveAll settings.keys).get? key with
      | none =>
        rw [hothers key] at hp
        · cases hp
        · rintro e he rfl
          rw [SortedMap.get?_eq_some_iff.mpr he] at hk
          cases hk
      | some topic =>
        have hmem := SortedMap.get?_eq_some_iff.mp hk
        rw [hadopted (key, topic) hmem] at hp
        obtain ⟨hcontains, hnamed⟩ := hentries (key, topic) hmem
        exact ⟨topic, hcontains, hnamed, (Option.some.inj hp).symm⟩
    · rintro ⟨topic, hcontains, hnamed, rfl⟩
      have hk := Endpoint.Resolver.get?_resolveAll_eq_some_iff.mpr ⟨hcontains, hnamed⟩
      exact hadopted (key, topic) (SortedMap.get?_eq_some_iff.mp hk)

end Monitor.Tracking
end TopicRelay
