/-
  What is found in a sorted map after it was changed.

  A map is looked into by `get?` and listed by `entries`; because its keys ascend, each says all that
  the other does (`get?_eq_some_iff`).  Of the changes only `insertEntry` recurses, so its three
  lemmas (the new key, another key, a key above all others) are the inductions of this file, and what
  holds of `insert`, `add` and `ofList` follows from them.
-/
import TopicRelay.SortedMap

namespace TopicRelay.SortedMap

variable {α β : Type}

/-! ## Finding and listing -/

theorem ext_entries {m m' : SortedMap α} (h : m.entries = m'.entries) : m = m' := by
  cases m; cases m'; cases h; rfl

/-- An entry of a list whose keys ascend is found by its key. -/
theorem lookup_eq_some_iff {l : List (String × α)} (h : (l.map Prod.fst).Pairwise (· < ·))
    (k : String) (v : α) : l.lookup k = some v ↔ (k, v) ∈ l := by
  induction l with
  | nil => constructor <;> intro h <;> cases h
  | cons e l ih =>
    obtain ⟨k', v'⟩ := e
    rw [List.map_cons, List.pairwise_cons] at h
    obtain ⟨hhead, htail⟩ := h
    rw [List.lookup_cons]
    by_cases hk : k = k'
    · subst hk
      rw [beq_self_eq_true]
      constructor
      · intro hv
        cases hv
        exact List.mem_cons_self
      · intro hmem
        rcases List.mem_cons.mp hmem with he | hmem
        · cases he; rfl
        -- the key cannot stand again behind itself
        · exact absurd (hhead k (List.mem_map.mpr ⟨(k, v), hmem, rfl⟩)) (String.lt_irrefl k)
    · have hne : (k == k') = false := beq_false_of_ne hk
      rw [hne]
      constructor
      · intro hv
        exact List.mem_cons_of_mem _ ((ih htail).mp hv)
      · intro hmem
        rcases List.mem_cons.mp hmem with he | hmem
        · cases he; exact absurd rfl hk
        · exact (ih htail).mpr hmem

/-- What is found is listed, and the other way round. -/
theorem get?_eq_some_iff {m : SortedMap α} {k : String} {v : α} :
    m.get? k = some v ↔ (k, v) ∈ m.entries :=
  lookup_eq_some_iff m.ascending k v

theorem mem_keys_iff {m : SortedMap α} {k : String} : k ∈ m.keys ↔ ∃ v, m.get? k = some v := by
  constructor
  · intro h
    obtain ⟨e, he, rfl⟩ := List.mem_map.mp h
    exact ⟨e.2, get?_eq_some_iff.mpr he⟩
  · rintro ⟨v, hv⟩
    exact List.mem_map.mpr ⟨(k, v), get?_eq_some_iff.mp hv, rfl⟩

theorem contains_iff {m : SortedMap α} {k : String} :
    m.contains k = true ↔ ∃ v, m.get? k = some v := by
  rw [contains, Option.isSome_iff_exists]

theorem contains_iff_mem_keys {m : SortedMap α} {k : String} : m.contains k = true ↔ k ∈ m.keys :=
  contains_iff.trans mem_keys_iff.symm

@[simp] theorem get?_empty (k : String) : (empty : SortedMap α).get? k = none := rfl

theorem isEmpty_eq_false_iff {m : SortedMap α} : m.isEmpty = false ↔ m.entries ≠ [] :=
  List.isEmpty_eq_false_iff

/-- A map that finds something has entries. -/
theorem isEmpty_of_get? (m : SortedMap α) {k : String} {a : α} (h : m.get? k = some a) :
    m.isEmpty = false :=
  isEmpty_eq_false_iff.mpr (List.ne_nil_of_mem (get?_eq_some_iff.mp h))

/-- A map that has entries has keys. -/
theorem exists_mem_keys {m : SortedMap α} (h : m.isEmpty = false) : ∃ k, k ∈ m.keys := by
  obtain ⟨e, he⟩ := List.exists_mem_of_ne_nil _ (isEmpty_eq_false_iff.mp h)
  exact ⟨e.1, List.mem_map_of_mem he⟩

/-- A map that has the keys of one with entries has entries. -/
theorem isEmpty_of_keys_subset {m : SortedMap α} {m' : SortedMap β} (h : m.isEmpty = false)
    (hsub : ∀ k ∈ m.keys, k ∈ m'.keys) : m'.isEmpty = false := by
  obtain ⟨k, hk⟩ := exists_mem_keys h
  obtain ⟨v, hv⟩ := mem_keys_iff.mp (hsub k hk)
  exact m'.isEmpty_of_get? hv

/-! ## After an insertion -/

theorem lookup_insertEntry_self (k : String) (v : α) (l : List (String × α)) :
    (insertEntry k v l).lookup k = some v := by
  induction l with
  | nil => rw [insertEntry, List.lookup_cons, beq_self_eq_true]
  | cons e l ih =>
    rw [insertEntry]
    split
    · rw [List.lookup_cons, beq_self_eq_true]
    · split
      · rw [List.lookup_cons, beq_self_eq_true]
      · next hne =>
        rw [List.lookup_cons, beq_false_of_ne hne]
        exact ih

theorem lookup_insertEntry_ne {k k' : String} (hk : k' ≠ k) (v : α) (l : List (String × α)) :
    (insertEntry k v l).lookup k' = l.lookup k' := by
  have hb : (k' == k) = false := beq_false_of_ne hk
  induction l with
  | nil => rw [insertEntry, List.lookup_cons, hb]
  | cons e l ih =>
    rw [insertEntry]
    split
    · rw [List.lookup_cons, hb]
    · split
      · next heq =>
        rw [List.lookup_cons, hb, List.lookup_cons, ← heq, hb]
      · rw [List.lookup_cons, ih, List.lookup_cons]

@[simp] theorem get?_insert_self (m : SortedMap α) (k : String) (v : α) :
    (m.insert k v).get? k = some v :=
  lookup_insertEntry_self k v m.entries

theorem get?_insert_ne (m : SortedMap α) {k k' : String} (hk : k' ≠ k) (v : α) :
    (m.insert k v).get? k' = m.get? k' :=
  lookup_insertEntry_ne hk v m.entries

theorem contains_insert_iff {m : SortedMap α} {k k' : String} {v : α} :
    (m.insert k v).contains k' = true ↔ k' = k ∨ m.contains k' = true := by
  by_cases hk : k' = k
  · subst hk
    exact iff_of_true (contains_iff.mpr ⟨v, get?_insert_self m k' v⟩) (Or.inl rfl)
  · rw [contains, get?_insert_ne m hk]
    exact (or_iff_right hk).symm

theorem contains_insert (m : SortedMap α) (k : String) (v : α) {k' : String}
    (h : m.contains k' = true) : (m.insert k v).contains k' = true :=
  contains_insert_iff.mpr (Or.inr h)

/-- An entry above all others goes to the end. -/
theorem insertEntry_of_lt {k : String} (v : α) {l : List (String × α)}
    (h : ∀ x ∈ l.map Prod.fst, x < k) : insertEntry k v l = l ++ [(k, v)] := by
  induction l with
  | nil => rfl
  | cons e l ih =>
    have he : e.1 < k := h e.1 List.mem_cons_self
    have hlt : ¬ k < e.1 := fun hc => String.lt_irrefl k (String.lt_trans hc he)
    have hne : ¬ k = e.1 := fun hc => String.lt_irrefl e.1 (hc ▸ he)
    rw [insertEntry, if_neg hlt, if_neg hne, ih fun x hx => h x (List.mem_cons_of_mem _ hx),
      List.cons_append]

/-! ## After other changes -/

theorem lookup_filter_key (p : String → Bool) (l : List (String × α)) (k : String) :
    (l.filter fun e => p e.1).lookup k = if p k then l.lookup k else none := by
  induction l with
  | nil => rw [List.filter_nil, List.lookup_nil, ite_self]
  | cons e l ih =>
    obtain ⟨k', v⟩ := e
    rw [List.filter_cons, List.lookup_cons]
    by_cases hk : k = k'
    · subst hk
      rw [beq_self_eq_true]
      by_cases hp : p k = true
      · rw [if_pos hp, if_pos hp, List.lookup_cons, beq_self_eq_true]
      · rw [if_neg hp, ih, if_neg hp, if_neg hp]
    · rw [beq_false_of_ne hk]
      split
      · rw [List.lookup_cons, beq_false_of_ne hk]
        exact ih
      · exact ih

theorem get?_erase_self (m : SortedMap α) (k : String) : (m.erase k).get? k = none := by
  refine (lookup_filter_key (fun k' => k' != k) m.entries k).trans ?_
  rw [bne_self_eq_false]; rfl

theorem get?_erase_ne (m : SortedMap α) {k k' : String} (hk : k' ≠ k) :
    (m.erase k).get? k' = m.get? k' := by
  refine (lookup_filter_key (fun k' => k' != k) m.entries k').trans ?_
  rw [bne_iff_ne.mpr hk]; rfl

theorem contains_erase_iff {m : SortedMap α} {k k' : String} :
    (m.erase k).contains k' = true ↔ k' ≠ k ∧ m.contains k' = true := by
  by_cases hk : k' = k
  · subst hk
    rw [contains, get?_erase_self]
    exact iff_of_false Bool.false_ne_true fun h => h.1 rfl
  · rw [contains, get?_erase_ne m hk]
    exact (and_iff_right hk).symm

theorem lookup_map_snd (f : String → α → β) (l : List (String × α)) (k : String) :
    (l.map fun e => (e.1, f e.1 e.2)).lookup k = (l.lookup k).map (f k) := by
  induction l with
  | nil => rfl
  | cons e l ih =>
    obtain ⟨k', v⟩ := e
    rw [List.map_cons, List.lookup_cons, List.lookup_cons]
    by_cases hk : k = k'
    · subst hk
      rw [beq_self_eq_true]; rfl
    · rw [beq_false_of_ne hk]
      exact ih

@[simp] theorem isEmpty_map (f : String → α → β) (m : SortedMap α) : (m.map f).isEmpty = m.isEmpty :=
  List.isEmpty_map

@[simp] theorem get?_map (f : String → α → β) (m : SortedMap α) (k : String) :
    (m.map f).get? k = (m.get? k).map (f k) :=
  lookup_map_snd f m.entries k

/-! ## Lists that make a map -/

/-- Entries that ascend are put one behind the other. -/
theorem foldl_insert_of_ascending {l : List (String × α)} {m : SortedMap α}
    (h : ((m.entries ++ l).map Prod.fst).Pairwise (· < ·)) :
    (l.foldl (fun m e => m.insert e.1 e.2) m).entries = m.entries ++ l := by
  induction l generalizing m with
  | nil => rw [List.foldl_nil, List.append_nil]
  | cons e l ih =>
    have hlast : (m.insert e.1 e.2).entries = m.entries ++ [e] := by
      refine insertEntry_of_lt e.2 fun x hx => ?_
      rw [List.map_append, List.pairwise_append] at h
      exact h.2.2 x hx e.1 List.mem_cons_self
    rw [List.foldl_cons, ih, hlast, List.append_assoc, List.singleton_append]
    rw [hlast, List.append_assoc, List.singleton_append]
    exact h

/-- **A map is what its entries make.** -/
theorem ofList_entries (m : SortedMap α) : ofList m.entries = m := by
  have h : (ofList m.entries).entries = m.entries :=
    foldl_insert_of_ascending (m := empty) m.ascending
  exact ext_entries h

/-- Selecting keeps the order. -/
theorem entries_filterMap (f : String → α → Option β) (m : SortedMap α) :
    (m.filterMap f).entries = m.entries.filterMap fun e => (f e.1 e.2).map fun b => (e.1, b) := by
  refine foldl_insert_of_ascending (m := empty) ?_
  show ((m.entries.filterMap _).map Prod.fst).Pairwise (· < ·)
  have hasc := m.ascending
  rw [List.pairwise_map] at hasc ⊢
  rw [List.pairwise_filterMap]
  refine hasc.imp fun {d e} hlt x hx y hy => ?_
  obtain ⟨_, -, rfl⟩ := Option.map_eq_some_iff.mp hx
  obtain ⟨_, -, rfl⟩ := Option.map_eq_some_iff.mp hy
  exact hlt

/-- What is found after a selection is what was selected. -/
theorem get?_filterMap_eq_some_iff {f : String → α → Option β} {m : SortedMap α} {k : String} {b : β} :
    (m.filterMap f).get? k = some b ↔ ∃ a, m.get? k = some a ∧ f k a = some b := by
  rw [get?_eq_some_iff, entries_filterMap, List.mem_filterMap]
  constructor
  · rintro ⟨e, he, hfe⟩
    obtain ⟨b', hb', heq⟩ := Option.map_eq_some_iff.mp hfe
    cases heq
    exact ⟨e.2, get?_eq_some_iff.mpr he, hb'⟩
  · rintro ⟨a, ha, hb⟩
    refine ⟨(k, a), get?_eq_some_iff.mp ha, ?_⟩
    rw [hb]
    rfl

/-! ## Entries in order -/

/-- The entries before a key and after it. -/
theorem exists_split {m : SortedMap α} {k : String} {a : α} (h : m.get? k = some a) :
    ∃ before after, m.entries = before ++ (k, a) :: after
      ∧ (∀ e ∈ before, e.1 < k) ∧ ∀ e ∈ after, k < e.1 := by
  obtain ⟨before, after, hsplit⟩ := List.append_of_mem (get?_eq_some_iff.mp h)
  have hasc := m.ascending
  rw [List.pairwise_map, hsplit, List.pairwise_append, List.pairwise_cons] at hasc
  obtain ⟨-, ⟨hafter, -⟩, hbefore⟩ := hasc
  exact ⟨before, after, hsplit, fun e he => hbefore e he _ List.mem_cons_self, hafter⟩

theorem nodup_keys (m : SortedMap α) : m.keys.Nodup := by
  refine m.ascending.imp ?_
  rintro k k' hlt rfl
  exact String.lt_irrefl _ hlt

/-- Maps that find the same are the same. -/
theorem ext_get? {m m' : SortedMap α} (h : ∀ k, m.get? k = m'.get? k) : m = m' := by
  refine ext_entries ?_
  have hsorted : ∀ m : SortedMap α, m.entries.Pairwise fun d e => d.1 < e.1 :=
    fun m => List.pairwise_map.mp m.ascending
  have hnodup : ∀ m : SortedMap α, m.entries.Nodup := fun m =>
    (List.pairwise_map.mp m.nodup_keys).imp fun hne heq => hne (congrArg Prod.fst heq)
  have hperm : m.entries.Perm m'.entries := by
    refine (List.perm_ext_iff_of_nodup (hnodup m) (hnodup m')).mpr fun e => ?_
    rw [← get?_eq_some_iff, ← get?_eq_some_iff, h]
  refine hperm.eq_of_pairwise (fun d e _ _ hde hed => ?_) (hsorted m) (hsorted m')
  exact absurd (String.lt_trans hde hed) (String.lt_irrefl _)

end TopicRelay.SortedMap

namespace TopicRelay.KeySet

/-! ## Sets -/

theorem contains_add_iff {s : KeySet} {k k' : String} :
    (s.add k).contains k' = true ↔ s.contains k' = true ∨ k = k' :=
  SortedMap.contains_insert_iff.trans (or_comm.trans (or_congr_right eq_comm))

/-- Adding keys adds these and no others. -/
theorem contains_foldl_iff {ks : List String} {s : KeySet} {k : String} :
    (ks.foldl add s).contains k = true ↔ k ∈ ks ∨ s.contains k = true := by
  induction ks generalizing s with
  | nil => exact (or_iff_right List.not_mem_nil).symm
  | cons k' ks ih =>
    rw [List.foldl_cons, ih, add, SortedMap.contains_insert_iff, List.mem_cons, or_assoc,
      or_left_comm]

theorem contains_ofKeys_iff {ks : List String} {k : String} :
    (ofKeys ks).contains k = true ↔ k ∈ ks :=
  contains_foldl_iff.trans (or_iff_left Bool.false_ne_true)

/-- The set of the keys of a set is that set. -/
theorem ofKeys_keys (s : KeySet) : ofKeys s.keys = s := by
  rw [ofKeys, SortedMap.keys, List.foldl_map]
  exact s.ofList_entries

end TopicRelay.KeySet
