/-
  Maps from text keys, kept in ascending key order.

  Everything in this library that is looked up by a name, and whose order an answer shows, is a
  `SortedMap`: the entries are a list, and that their keys ascend is part of the type.  So two maps
  with the same entries are the same value, and listing a map needs no sorting.  `KeySet` is the
  map that only has keys.
-/

namespace TopicRelay

/-- Entries in ascending order of their keys, each key once. -/
structure SortedMap (α : Type) where
  entries : List (String × α)
  ascending : (entries.map Prod.fst).Pairwise (· < ·)
deriving DecidableEq

/-- A finite set of texts, in ascending order. -/
abbrev KeySet := SortedMap Unit

namespace SortedMap

variable {α β : Type}

/-! ## Making a map -/

/-- The map with no entries. -/
def empty : SortedMap α := ⟨[], List.Pairwise.nil⟩

instance : EmptyCollection (SortedMap α) := ⟨empty⟩
instance : Inhabited (SortedMap α) := ⟨empty⟩

/-- Puts an entry in its place; the entry of an equal key is replaced. -/
def insertEntry (k : String) (v : α) : List (String × α) → List (String × α)
  | [] => [(k, v)]
  | e :: rest =>
    if k < e.1 then (k, v) :: e :: rest
    else if k = e.1 then (k, v) :: rest
    else e :: insertEntry k v rest

theorem mem_insertEntry {k : String} {v : α} {e : String × α} {l : List (String × α)}
    (h : e ∈ insertEntry k v l) : e = (k, v) ∨ e ∈ l := by
  induction l with
  | nil => simpa [insertEntry] using h
  | cons d rest ih =>
    simp only [insertEntry] at h
    split at h
    · simpa using h
    · split at h
      · rcases List.mem_cons.mp h with h | h
        · exact Or.inl h
        · exact Or.inr (List.mem_cons_of_mem _ h)
      · rcases List.mem_cons.mp h with h | h
        · exact Or.inr (h ▸ List.mem_cons_self)
        · exact (ih h).imp id (List.mem_cons_of_mem _)

theorem pairwise_insertEntry (k : String) (v : α) {l : List (String × α)}
    (h : (l.map Prod.fst).Pairwise (· < ·)) :
    ((insertEntry k v l).map Prod.fst).Pairwise (· < ·) := by
  induction l with
  | nil => simp [insertEntry]
  | cons e rest ih =>
    simp only [List.map_cons, List.pairwise_cons, List.mem_map, forall_exists_index, and_imp] at h
    obtain ⟨hhead, htail⟩ := h
    simp only [insertEntry]
    split
    · next hlt =>
      -- the new key goes first, below all others
      simp only [List.map_cons, List.pairwise_cons, List.mem_cons, List.mem_map]
      refine ⟨?_, fun b hb => ?_, htail⟩
      · rintro b (rfl | ⟨x, hx, rfl⟩)
        · exact hlt
        · exact String.lt_trans hlt (hhead x.1 x hx rfl)
      · obtain ⟨x, hx, rfl⟩ := hb
        exact hhead x.1 x hx rfl
    · next hnlt =>
      split
      · next heq =>
        simp only [List.map_cons, List.pairwise_cons, List.mem_map]
        refine ⟨fun b hb => ?_, htail⟩
        obtain ⟨x, hx, rfl⟩ := hb
        exact heq ▸ hhead x.1 x hx rfl
      · next hne =>
        simp only [List.map_cons, List.pairwise_cons, List.mem_map]
        refine ⟨fun b hb => ?_, ih htail⟩
        obtain ⟨x, hx, rfl⟩ := hb
        rcases mem_insertEntry hx with rfl | hx
        · rcases String.le_total e.1 k with hle | hle
          · exact Decidable.byContradiction fun hn => hne (String.le_antisymm (not_lt_le hn) hle)
          · exact absurd (String.le_antisymm hle (not_lt_le hnlt)) hne
        · exact hhead x.1 x hx rfl
where
  not_lt_le {a b : String} (h : ¬ a < b) : b ≤ a := String.not_lt.mp h

/-- The map with `v` at `k`. -/
def insert (m : SortedMap α) (k : String) (v : α) : SortedMap α :=
  ⟨insertEntry k v m.entries, pairwise_insertEntry k v m.ascending⟩

/-- The map of a list of entries, the last of equal keys winning. -/
def ofList (l : List (String × α)) : SortedMap α := l.foldl (fun m e => m.insert e.1 e.2) empty

/-- The entries whose key and value pass a test. -/
def filter (p : String → α → Bool) (m : SortedMap α) : SortedMap α :=
  ⟨m.entries.filter fun e => p e.1 e.2,
    m.ascending.sublist (List.filter_sublist.map Prod.fst)⟩

/-- The map without an entry at `k`. -/
def erase (m : SortedMap α) (k : String) : SortedMap α := m.filter fun k' _ => k' != k

/-- The map with each value replaced by what `f` makes of it. -/
def map (f : String → α → β) (m : SortedMap α) : SortedMap β :=
  ⟨m.entries.map fun e => (e.1, f e.1 e.2), by
    simpa [List.map_map, Function.comp_def] using m.ascending⟩

/-- The entries for which `f` has a value. -/
def filterMap (f : String → α → Option β) (m : SortedMap α) : SortedMap β :=
  ofList (m.entries.filterMap fun e => (f e.1 e.2).map fun v => (e.1, v))

/-! ## Looking into a map -/

/-- The value at a key. -/
def get? (m : SortedMap α) (k : String) : Option α := m.entries.lookup k

/-- Whether the map has an entry at a key. -/
def contains (m : SortedMap α) (k : String) : Bool := (m.get? k).isSome

/-- The keys in ascending order. -/
def keys (m : SortedMap α) : List String := m.entries.map Prod.fst

/-- The values in ascending order of their keys. -/
def values (m : SortedMap α) : List α := m.entries.map Prod.snd

/-- Whether the map has no entry. -/
def isEmpty (m : SortedMap α) : Bool := m.entries.isEmpty

/-- The number of entries. -/
def size (m : SortedMap α) : Nat := m.entries.length

end SortedMap

namespace KeySet

/-- The set with one more key. -/
def add (s : KeySet) (k : String) : KeySet := SortedMap.insert s k ()

/-- The set of the keys in a list. -/
def ofKeys (ks : List String) : KeySet := ks.foldl add SortedMap.empty

end KeySet

example : (KeySet.ofKeys ["b", "a", "b"]).keys = ["a", "b"] := by decide +kernel

end TopicRelay
