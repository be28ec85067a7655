/-
  How far a resolution gets.

  The remote names topics for keys.  Those that are of use are gone through in key order, and each of
  them is loaded and adopted before the next one is looked at:

    loadAll       the offsets of topics, one after the other, up to the first that cannot be loaded
    adoptLoaded   the keys whose offsets were loaded, taken as resolved one after the other

  specification   going through a mapping comes to the one and then the other (`Tracking.adoptAll_eq`), so
                  what a resolution leaves is told by how far the loading got (`resolveTopics_spec`)
  crux            the keys of a mapping ascend, so adopting one of them changes nothing about whether a
                  later one is of use (`Tracking.wanted_adopt`)

  Nothing is assumed of the surroundings.
-/
import TopicRelay.Proofs.Monitor.Resolution

namespace TopicRelay.Monitor

variable {σ : Type} {env : Surroundings σ}

/-! ## Loading -/

/-- A key with the topic that was named for it, and the offset that was loaded for this topic. -/
structure Loaded where
  key : TopicKey
  topic : TopicName
  last : Option MessageId
deriving DecidableEq, Repr

namespace Loaded

/-- What the remote has said. -/
def entry (l : Loaded) : TopicKey × TopicName := (l.key, l.topic)

/-- Where the key begins. -/
def progress (settings : RelaySettings) (l : Loaded) : TopicProgress :=
  ⟨l.topic, settings.localTopic l.key, l.last, 0⟩

end Loaded

/-- Loads the offsets of topics up to the first that cannot be loaded: what was loaded, and why it did
    not go on if it did not. -/
def Surroundings.loadAll (env : Surroundings σ) (subscriber : SubscriberName) :
    List (TopicKey × TopicName) → σ → List Loaded × Option OffsetError × σ
  | [], w => ([], none, w)
  | (key, topic) :: rest, w => match env.offset topic subscriber w with
    | (.error x, w) => ([], some x, w)
    | (.ok last, w) =>
      let (loaded, broken?, w) := loadAll env subscriber rest w
      (⟨key, topic, last⟩ :: loaded, broken?, w)

/-- What is loaded is all of it, or what stands in front of the one that cannot be loaded. -/
theorem Surroundings.loadAll_entries {subscriber : SubscriberName}
    {entries : List (TopicKey × TopicName)} {w w' : σ} {loaded : List Loaded}
    {broken? : Option OffsetError} (h : env.loadAll subscriber entries w = (loaded, broken?, w')) :
    (broken? = none ∧ entries = loaded.map Loaded.entry)
      ∨ ∃ x e rest, broken? = some x ∧ entries = loaded.map Loaded.entry ++ e :: rest := by
  induction entries generalizing w loaded with
  | nil =>
    cases h
    exact Or.inl ⟨rfl, rfl⟩
  | cons e entries ih =>
    rw [loadAll] at h
    split at h
    · cases h
      exact Or.inr ⟨_, e, entries, rfl, rfl⟩
    · next last w₁ _ =>
      rcases hrest : env.loadAll subscriber entries w₁ with ⟨loaded₁, broken₁?, w₂⟩
      simp only [hrest] at h
      cases h
      rcases ih hrest with ⟨hnone, rfl⟩ | ⟨x, e', rest, hsome, rfl⟩
      · exact Or.inl ⟨hnone, rfl⟩
      · exact Or.inr ⟨x, e', rest, hsome, rfl⟩

/-! ## Adopting -/

namespace Tracking

variable {t t' : Tracking} {w w' : σ}

/-- The entries of a mapping that are of use. -/
def wanted (t : Tracking) (entries : List (TopicKey × TopicName)) : List (TopicKey × TopicName) :=
  entries.filter fun e => t.isWanted e.1 e.2

/-- Takes keys as resolved, one after the other. -/
def adoptLoaded (t : Tracking) (ls : List Loaded) : Tracking :=
  ls.foldl (fun t l => t.adopt l.key l.topic l.last) t

/-- What a resolution says when so many keys were loaded. -/
def adoptionResult (n : Nat) : Option OffsetError → Except RelayError Nat
  | none => .ok n
  | some x => .error (.store x.message)

/-- Whether a key is of use has nothing to do with the other keys. -/
theorem isWanted_adopt {key k : TopicKey} (hne : k ≠ key) (topic name : TopicName)
    (last : Option MessageId) : (t.adopt key topic last).isWanted k name = t.isWanted k name := by
  rw [isWanted, isWanted, adopt, SortedMap.contains, SortedMap.contains,
    SortedMap.get?_erase_ne t.unresolved hne]

theorem wanted_adopt {entries : List (TopicKey × TopicName)} {key : TopicKey}
    (hne : ∀ e ∈ entries, e.1 ≠ key) (topic : TopicName) (last : Option MessageId) :
    (t.adopt key topic last).wanted entries = t.wanted entries :=
  List.filter_congr fun e he => isWanted_adopt (hne e he) topic e.2 last

/-- **Going through a mapping** is loading, and then adopting what was loaded. -/
theorem adoptAll_eq {entries : List (TopicKey × TopicName)}
    (hasc : (entries.map Prod.fst).Pairwise (· < ·)) (count : Nat) {loaded : List Loaded}
    {broken? : Option OffsetError}
    (h : env.loadAll t.settings.subscriber (t.wanted entries) w = (loaded, broken?, w')) :
    adoptAll env count entries t w
      = (adoptionResult (count + loaded.length) broken?, t.adoptLoaded loaded, w') := by
  induction entries generalizing count t w loaded with
  | nil =>
    cases h
    rfl
  | cons e entries ih =>
    obtain ⟨key, topic⟩ := e
    obtain ⟨hhead, htail⟩ := List.pairwise_cons.mp hasc
    have hne : ∀ d ∈ entries, d.1 ≠ key :=
      fun d hd => (String.ne_of_lt (hhead d.1 (List.mem_map_of_mem hd))).symm
    rw [wanted, List.filter_cons] at h
    rw [adoptAll]
    by_cases hwanted : t.isWanted key topic = true
    · rw [if_pos hwanted, Surroundings.loadAll] at h
      rw [if_pos hwanted]
      rcases hoffset : env.offset topic t.settings.subscriber w with ⟨x | last, w₁⟩
      · rw [hoffset] at h
        cases h
        rfl
      · rcases hrest : env.loadAll t.settings.subscriber (t.wanted entries) w₁ with
          ⟨loaded₁, broken₁?, w₂⟩
        rw [hoffset, ← wanted] at h
        simp only [hrest] at h
        cases h
        rw [← wanted_adopt hne topic last] at hrest
        rw [List.length_cons, Nat.add_comm loaded₁.length 1, ← Nat.add_assoc]
        exact ih htail (count + 1) hrest
    · rw [if_neg hwanted] at h
      rw [if_neg hwanted]
      exact ih htail count h

/-- **How far a resolution gets.**  It has nothing to ask for; or no mapping comes; or one comes, and it
    gets as far as the offsets of the keys that are of use can be loaded. -/
theorem resolveTopics_spec {r : Except Halt Nat} (h : t.resolveTopics env w = (r, t', w')) :
    (t.unresolved.isEmpty = true ∧ r = .ok 0 ∧ t' = t ∧ w' = w)
    ∨ (∃ halt, env.resolve t.unresolved w = (.error halt, w') ∧ r = .error halt ∧ t' = t)
    ∨ ∃ mapping w₁ loaded broken?, env.resolve t.unresolved w = (.ok mapping, w₁)
      ∧ env.loadAll t.settings.subscriber (t.wanted mapping.entries) w₁ = (loaded, broken?, w')
      ∧ r = (adoptionResult loaded.length broken?).mapError .failure ∧ t' = t.adoptLoaded loaded := by
  rw [resolveTopics] at h
  split at h
  · next hempty =>
    cases h
    exact Or.inl ⟨hempty, rfl, rfl, rfl⟩
  · refine Or.inr ?_
    split at h
    · next halt w₁ hanswer =>
      cases h
      exact Or.inl ⟨halt, hanswer, rfl, rfl⟩
    · next mapping w₁ hanswer =>
      rcases hloaded : env.loadAll t.settings.subscriber (t.wanted mapping.entries) w₁ with
        ⟨loaded, broken?, w₂⟩
      rw [adoptAll_eq mapping.ascending 0 hloaded, Nat.zero_add] at h
      cases h
      exact Or.inr ⟨mapping, w₁, loaded, broken?, hanswer, hloaded, rfl, rfl⟩

/-! ### What has become of each key -/

theorem dropped_adoptLoaded (t : Tracking) (ls : List Loaded) :
    (t.adoptLoaded ls).dropped = t.dropped := by
  induction ls generalizing t with
  | nil => rfl
  | cons l ls ih => exact ih _

theorem contains_adoptLoaded_iff {ls : List Loaded} {key : TopicKey} :
    (t.adoptLoaded ls).unresolved.contains key = true
      ↔ key ∉ ls.map Loaded.key ∧ t.unresolved.contains key = true := by
  induction ls generalizing t with
  | nil => exact (and_iff_right List.not_mem_nil).symm
  | cons l ls ih =>
    rw [adoptLoaded, List.foldl_cons, ← adoptLoaded, ih, adopt, SortedMap.contains_erase_iff,
      List.map_cons, List.mem_cons, not_or, and_left_comm, and_assoc]

/-- A resolution makes no key unresolved. -/
theorem unresolved_resolveTopics {r : Except Halt Nat} (h : t.resolveTopics env w = (r, t', w')) :
    ∀ key ∈ t'.unresolved.keys, key ∈ t.unresolved.keys := by
  intro key hkey
  rcases resolveTopics_spec h with ⟨-, -, rfl, -⟩ | ⟨halt, -, -, rfl⟩ | ⟨mapping, w₂, loaded, b, -, -, -, rfl⟩
  · exact hkey
  · exact hkey
  · have hthen := SortedMap.contains_iff_mem_keys.mpr hkey
    exact SortedMap.contains_iff_mem_keys.mp (contains_adoptLoaded_iff.mp hthen).2

theorem get?_adoptLoaded_of_not_mem {ls : List Loaded} {key : TopicKey}
    (h : key ∉ ls.map Loaded.key) : (t.adoptLoaded ls).resolved.get? key = t.resolved.get? key := by
  induction ls generalizing t with
  | nil => rfl
  | cons l ls ih =>
    rw [List.map_cons, List.mem_cons, not_or] at h
    exact (ih h.2).trans (SortedMap.get?_insert_ne t.resolved h.1 _)

theorem get?_adoptLoaded_of_mem {ls : List Loaded} (hnodup : (ls.map Loaded.key).Nodup) {l : Loaded}
    (h : l ∈ ls) : (t.adoptLoaded ls).resolved.get? l.key = some (l.progress t.settings) := by
  induction ls generalizing t with
  | nil => cases h
  | cons d ls ih =>
    obtain ⟨hd, htail⟩ := List.nodup_cons.mp hnodup
    rcases List.mem_cons.mp h with rfl | h
    · exact (get?_adoptLoaded_of_not_mem hd).trans (SortedMap.get?_insert_self t.resolved _ _)
    · exact ih htail h

/-- What is loaded is of use, and no key is loaded twice. -/
theorem loaded_spec {mapping : TopicMapping} {loaded : List Loaded} {broken? : Option OffsetError}
    {subscriber : SubscriberName}
    (h : env.loadAll subscriber (t.wanted mapping.entries) w = (loaded, broken?, w')) :
    (∀ l ∈ loaded, t.isWanted l.key l.topic = true) ∧ (loaded.map Loaded.key).Nodup := by
  have hfront : loaded.map Loaded.entry <+: t.wanted mapping.entries := by
    rcases Surroundings.loadAll_entries h with ⟨-, hall⟩ | ⟨x, e, rest, -, hall⟩
    · exact hall ▸ List.prefix_refl _
    · exact hall ▸ List.prefix_append _ _
  have hkeys : ((loaded.map Loaded.entry).map Prod.fst).Sublist mapping.keys :=
    (hfront.sublist.trans List.filter_sublist).map Prod.fst
  rw [List.map_map] at hkeys
  refine ⟨fun l hl => ?_, mapping.nodup_keys.sublist hkeys⟩
  exact (List.mem_filter.mp (hfront.subset (List.mem_map_of_mem hl))).2

end Tracking
end TopicRelay.Monitor
