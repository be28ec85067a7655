/-
  Offsets in files are a map.

      put t s id      the file of t and s holds the record of t, s and id
      get t s         the id in that file, if it is theirs
      reopen          nothing

  The offsets that were committed, in order, say everything: under the name of a file there is the
  record that was committed last to that name (`Holds`), and nothing else is in the directory.  One
  operation keeps that up (`perform_of_holds`), and so do all of them (`after_of_holds`).

  specification   what a get finds after some commits (`recalled`)
  in memory       the same ids, looked up by the two names and not by the name of a file
  main result     a store in an empty directory is that map as long as all that is committed can be read
                  back, and no longer (`isMap_iff_writable`)
-/
import Mathlib.Data.List.Dedup
import TopicRelay.Proofs.Offset.FileNames
import TopicRelay.Proofs.Offset.Memory
import TopicRelay.Proofs.Offset.Overlong

namespace TopicRelay

/-! ## Names of files -/

namespace Offset

/-- The name of the file of an offset. -/
def fileOf (o : SubscriberOffset) : String := fileName o.topic o.subscriber

/-- No file has the name of a temporary one: they end differently. -/
theorem fileName_ne_temporaryName (topic topic' : TopicName) (subscriber subscriber' : SubscriberName) :
    fileName topic subscriber ≠ temporaryName topic' subscriber' := by
  intro h
  have hlast := congrArg (fun s : String => s.toList.getLast?) h
  simp only [fileName, temporaryName, String.toList_append, List.getLast?_append] at hlast
  -- whatever comes before, the one ends in a t and the other in a p
  exact absurd (Option.some.inj hlast) (by decide)

/-- Whose an offset is. -/
def owner (o : SubscriberOffset) : TopicName × SubscriberName := (o.topic, o.subscriber)

/-- Different topics and subscribers have different files. -/
def FilesApart (owners : List (TopicName × SubscriberName)) : Prop :=
  ∀ p ∈ owners, ∀ q ∈ owners, fileName p.1 p.2 = fileName q.1 q.2 → p = q

theorem FilesApart.mono {owners owners' : List (TopicName × SubscriberName)} (h : FilesApart owners)
    (hsub : owners' ⊆ owners) : FilesApart owners' :=
  fun p hp q hq => h p (hsub hp) q (hsub hq)

/-! ## Looking up what was committed -/

/-- The offset that was committed last to a file. -/
def lastIn (offsets : List SubscriberOffset) (file : String) : Option SubscriberOffset :=
  (offsets.filter fun o => fileOf o = file).getLast?

/-- The offset that was committed last for a topic and subscriber. -/
def lastFor (offsets : List SubscriberOffset) (topic : TopicName) (subscriber : SubscriberName) :
    Option SubscriberOffset :=
  (offsets.filter fun o => o.topic = topic ∧ o.subscriber = subscriber).getLast?

/-- What a get finds after some commits: nothing, if none was to the file; else the id of the last one,
    if that was for the same topic and subscriber. -/
def recalled (offsets : List SubscriberOffset) (topic : TopicName) (subscriber : SubscriberName) :
    Except OffsetError (Option MessageId) :=
  match lastIn offsets (fileName topic subscriber) with
  | none => .ok none
  | some o =>
    if o.topic = topic ∧ o.subscriber = subscriber then .ok (some o.lastId)
    else .error (.foreign topic subscriber o.topic o.subscriber)

theorem getLast?_filter_concat {α : Type} (p : α → Bool) (l : List α) (a : α) :
    ((l ++ [a]).filter p).getLast? = if p a then some a else (l.filter p).getLast? := by
  rw [List.filter_append, List.filter_cons]
  split
  · exact List.getLast?_concat
  · rw [List.filter_nil, List.append_nil]

theorem lastIn_concat (offsets : List SubscriberOffset) (o : SubscriberOffset) (file : String) :
    lastIn (offsets ++ [o]) file = if fileOf o = file then some o else lastIn offsets file := by
  rw [lastIn, getLast?_filter_concat]
  simp only [decide_eq_true_eq, lastIn]

theorem lastFor_concat (offsets : List SubscriberOffset) (o : SubscriberOffset) (topic : TopicName)
    (subscriber : SubscriberName) : lastFor (offsets ++ [o]) topic subscriber
      = if o.topic = topic ∧ o.subscriber = subscriber then some o else lastFor offsets topic subscriber := by
  rw [lastFor, getLast?_filter_concat]
  simp only [decide_eq_true_eq, lastFor]

theorem lastIn_eq_some {offsets : List SubscriberOffset} {file : String} {o : SubscriberOffset}
    (h : lastIn offsets file = some o) : o ∈ offsets ∧ fileOf o = file := by
  have hmem := List.mem_of_getLast? h
  rw [List.mem_filter, decide_eq_true_eq] at hmem
  exact hmem

theorem lastFor_eq_some {offsets : List SubscriberOffset} {topic : TopicName}
    {subscriber : SubscriberName} {o : SubscriberOffset} (h : lastFor offsets topic subscriber = some o) :
    o.topic = topic ∧ o.subscriber = subscriber := by
  have hmem := List.mem_of_getLast? h
  rw [List.mem_filter, decide_eq_true_eq] at hmem
  exact hmem.2

theorem lastIn_eq_none_iff {offsets : List SubscriberOffset} {file : String} :
    lastIn offsets file = none ↔ ∀ o ∈ offsets, fileOf o ≠ file := by
  rw [lastIn, List.getLast?_eq_none_iff, List.filter_eq_nil_iff]
  simp only [decide_eq_true_eq, ne_eq]

theorem recalled_concat_self (offsets : List SubscriberOffset) (o : SubscriberOffset) :
    recalled (offsets ++ [o]) o.topic o.subscriber = .ok (some o.lastId) := by
  have hfile : fileOf o = fileName o.topic o.subscriber := rfl
  rw [recalled, lastIn_concat, if_pos hfile]
  exact if_pos ⟨rfl, rfl⟩

/-- Who shares the file of what was committed last is told so. -/
theorem recalled_concat_foreign (offsets : List SubscriberOffset) {o : SubscriberOffset}
    {topic : TopicName} {subscriber : SubscriberName} (hfile : fileOf o = fileName topic subscriber)
    (hother : ¬ (o.topic = topic ∧ o.subscriber = subscriber)) :
    recalled (offsets ++ [o]) topic subscriber
      = .error (.foreign topic subscriber o.topic o.subscriber) := by
  rw [recalled, lastIn_concat, if_pos hfile]
  exact if_neg hother

/-- Where no two share a file, what is in the file is theirs. -/
theorem recall_of_apart {offsets : List SubscriberOffset} {topic : TopicName}
    {subscriber : SubscriberName} (h : FilesApart ((topic, subscriber) :: offsets.map owner)) :
    recalled offsets topic subscriber = .ok ((lastFor offsets topic subscriber).map (·.lastId)) := by
  have hsame : lastIn offsets (fileName topic subscriber) = lastFor offsets topic subscriber := by
    apply congrArg List.getLast?
    apply List.filter_congr
    intro o ho
    rw [decide_eq_decide]
    constructor
    · intro hfile
      have howner := h (owner o) (List.mem_cons_of_mem _ (List.mem_map_of_mem ho)) _
        List.mem_cons_self hfile
      cases howner
      exact ⟨rfl, rfl⟩
    · rintro ⟨rfl, rfl⟩
      rfl
  rw [recalled, hsame]
  cases hlast : lastFor offsets topic subscriber with
  | none => rfl
  | some o =>
    have howner := lastFor_eq_some hlast
    simp only [howner, and_self, if_true]
    rfl

end Offset

/-! ## Operations -/

/-- What is done with a store of offsets. -/
inductive OffsetOperation where
  | commit (o : SubscriberOffset)
  | get (topic : TopicName) (subscriber : SubscriberName)
  | reopen

namespace OffsetOperation

/-- The offset that is committed. -/
def offset? : OffsetOperation → Option SubscriberOffset
  | .commit o => some o
  | _ => none

/-- Whose offset is committed or asked for. -/
def owner? : OffsetOperation → Option (TopicName × SubscriberName)
  | .commit o => some (Offset.owner o)
  | .get topic subscriber => some (topic, subscriber)
  | .reopen => none

/-- The offsets that operations commit, in order. -/
def offsets (ops : List OffsetOperation) : List SubscriberOffset := ops.filterMap offset?

theorem offsets_cons (op : OffsetOperation) (ops : List OffsetOperation) :
    offsets (op :: ops) = op.offset?.toList ++ offsets ops := by
  rw [offsets, offsets, List.filterMap_cons]
  cases op.offset? <;> rfl

theorem mem_offsets_iff {ops : List OffsetOperation} {o : SubscriberOffset} :
    o ∈ offsets ops ↔ .commit o ∈ ops := by
  rw [offsets, List.mem_filterMap]
  constructor
  · rintro ⟨op, hop, hoffset⟩
    cases op with
    | commit o' =>
      cases hoffset
      exact hop
    | get topic subscriber => cases hoffset
    | reopen => cases hoffset
  · exact fun hop => ⟨_, hop, rfl⟩

/-- Those whose offsets are committed or asked for have different files. -/
def Apart (ops : List OffsetOperation) : Prop := Offset.FilesApart (ops.filterMap owner?)

end OffsetOperation

open OffsetOperation (offsets Apart)
open Offset (recalled lastIn lastFor fileOf fileName temporaryName)

/-- How an operation ended, and the id that was found; `none` also stands for an operation that looks for
    nothing. -/
abbrev OffsetAnswer := Except OffsetError (Option MessageId)

namespace FileOffsets

/-- Does an operation: how that ended, and the store after it. -/
def perform (store : FileOffsets) : OffsetOperation → OffsetAnswer × FileOffsets
  | .commit o =>
    let (result, store) := store.put o.committed o.topic o.subscriber o.lastId
    (result.map fun _ => none, store)
  | .get topic subscriber => (store.get topic subscriber, store)
  | .reopen => match FileOffsets.open store.path store.place with
    | .ok opened => (.ok none, opened)
    | .error e => (.error e, store)

/-- The answers to operations, one after the other. -/
def answers (store : FileOffsets) : List OffsetOperation → List OffsetAnswer
  | [] => []
  | op :: ops => (store.perform op).1 :: (store.perform op).2.answers ops

/-- The store after operations. -/
def after (store : FileOffsets) (ops : List OffsetOperation) : FileOffsets :=
  ops.foldl (fun store op => (store.perform op).2) store

/-- A store in an empty directory. -/
def fresh (path : String) : FileOffsets := ⟨path, .directory .empty⟩

end FileOffsets

namespace MemoryOffsets

/-- Does an operation.  Nothing has to be opened. -/
def perform (memory : MemoryOffsets) : OffsetOperation → OffsetAnswer × MemoryOffsets
  | .commit o => (.ok none, memory.put o.committed o.topic o.subscriber o.lastId)
  | .get topic subscriber => (.ok (memory.get topic subscriber), memory)
  | .reopen => (.ok none, memory)

/-- The answers to operations, one after the other. -/
def answers (memory : MemoryOffsets) : List OffsetOperation → List OffsetAnswer
  | [] => []
  | op :: ops => (memory.perform op).1 :: answers (memory.perform op).2 ops

end MemoryOffsets

/-! ## Files in a directory -/

namespace Place

variable {entries : SortedMap Entry} {name newName : String} {contents : Bytes}

theorem read_file (h : entries.get? name = some (.file contents)) :
    (directory entries).read name = .ok contents := by
  have hentries : (directory entries).entries = .ok entries := rfl
  simp only [read, hentries, bind, Except.bind, h]

theorem read_nothing (h : entries.get? name = none) :
    (directory entries).read name = .error .notFound := by
  have hentries : (directory entries).entries = .ok entries := rfl
  simp only [read, hentries, bind, Except.bind, h]

theorem write_file (h : entries.get? name ≠ some .folder) (contents : Bytes) :
    (directory entries).write name contents = .ok (directory (entries.insert name (.file contents))) := by
  have hentries : (directory entries).entries = .ok entries := rfl
  -- by `h` it is not the case of the folder
  simp only [write, hentries, bind, Except.bind]

theorem rename_file (h : entries.get? name = some (.file contents))
    (hnew : entries.get? newName ≠ some .folder) : (directory entries).rename name newName
      = .ok (directory ((entries.erase name).insert newName (.file contents))) := by
  have hentries : (directory entries).entries = .ok entries := rfl
  simp only [rename, hentries, bind, Except.bind, h]
  cases hget : entries.get? newName with
  | none => rfl
  | some entry =>
    cases entry with
    | file _ => rfl
    | folder => exact absurd hget hnew

end Place

/-! ## A directory of offsets -/

/-- A directory with just the files of some commits: under each name there is the record that was
    committed last to it. -/
def Place.Holds (place : Place) (offsets : List SubscriberOffset) : Prop :=
  ∃ entries, place = .directory entries
    ∧ ∀ name, entries.get? name = (lastIn offsets name).map fun o => .file (Offset.encode o)

/-- Where only files are committed, no folder is in the way. -/
theorem Place.ne_folder {entries : SortedMap Entry} {offsets : List SubscriberOffset}
    (h : ∀ name, entries.get? name = (lastIn offsets name).map fun o => .file (Offset.encode o))
    (name : String) : entries.get? name ≠ some .folder := by
  rw [h]
  cases lastIn offsets name with
  | none =>
    intro hfolder
    cases hfolder
  | some o =>
    intro hfolder
    cases hfolder

namespace FileOffsets

variable {store : FileOffsets} {offsets : List SubscriberOffset}

theorem open_of_empty {place : Place} (h : place = .missing ∨ place = .directory .empty)
    (path : String) : FileOffsets.open path place = .ok (fresh path) := by
  rcases h with rfl | rfl
  · rfl
  · rfl

theorem holds_fresh (path : String) : (fresh path).place.Holds [] :=
  ⟨.empty, rfl, fun _ => rfl⟩

/-- What a get finds depends on the file of the two names only. -/
theorem get_of_entry {path : String} {entries : SortedMap Entry} {topic : TopicName}
    {subscriber : SubscriberName} (hentry : entries.get? (fileName topic subscriber)
      = (lastIn offsets (fileName topic subscriber)).map fun o => .file (Offset.encode o))
    (hwritable : ∀ o ∈ offsets, Offset.Writable o) :
    (FileOffsets.mk path (.directory entries)).get topic subscriber
      = recalled offsets topic subscriber := by
  rw [get, load, recalled]
  cases hlast : lastIn offsets (fileName topic subscriber) with
  | none =>
    rw [hlast] at hentry
    simp only [Place.read_nothing hentry]
    rfl
  | some o =>
    rw [hlast] at hentry
    have hdecode := Offset.decode?_encode_iff.mpr (hwritable o (Offset.lastIn_eq_some hlast).1)
    simp only [Place.read_file hentry, hdecode]
    split
    · rfl
    · rfl

/-- What was committed last is in its file. -/
theorem read_of_holds {o : SubscriberOffset} (h : store.place.Holds (offsets ++ [o])) :
    store.place.read (fileName o.topic o.subscriber) = .ok (Offset.encode o) := by
  obtain ⟨entries, hplace, hentries⟩ := h
  have hfile : fileOf o = fileName o.topic o.subscriber := rfl
  have hentry := hentries (fileName o.topic o.subscriber)
  rw [Offset.lastIn_concat, if_pos hfile] at hentry
  rw [hplace]
  exact Place.read_file hentry

/-- An id that is found in the record of its own offset is one that was written whole. -/
theorem writable_of_get {o : SubscriberOffset}
    (hread : store.place.read (fileName o.topic o.subscriber) = .ok (Offset.encode o))
    (hget : store.get o.topic o.subscriber = .ok (some o.lastId)) : Offset.Writable o := by
  simp only [get, load, hread] at hget
  cases hdecode : Offset.decode? (Offset.encode o) with
  | none =>
    rw [hdecode] at hget
    cases hget
  | some o' =>
    simp only [hdecode] at hget
    split at hget
    · next howner =>
      have hid : o'.lastId = o.lastId := Option.some.inj (Except.ok.inj hget)
      exact Offset.writable_of_decode? hdecode howner.1 howner.2 hid
    · cases hget

/-- What is no record is told of. -/
theorem get_of_unread {topic : TopicName} {subscriber : SubscriberName} {contents : Bytes}
    (hread : store.place.read (fileName topic subscriber) = .ok contents)
    (hnone : Offset.decode? contents = none) :
    store.get topic subscriber = .error (.unreadable topic subscriber "not an offset record") := by
  simp only [get, load, hread, hnone]
  rfl

/-- **What a get finds** is what was committed. -/
theorem get_of_holds (h : store.place.Holds offsets) (hwritable : ∀ o ∈ offsets, Offset.Writable o)
    (topic : TopicName) (subscriber : SubscriberName) :
    store.get topic subscriber = recalled offsets topic subscriber := by
  obtain ⟨path, place⟩ := store
  obtain ⟨entries, rfl, hentries⟩ := h
  exact get_of_entry (hentries _) hwritable

/-- The files after a commit: the temporary one has taken the place of the old one. -/
def afterCommit (entries : SortedMap Entry) (o : SubscriberOffset) : SortedMap Entry :=
  ((entries.insert (temporaryName o.topic o.subscriber) (.file (Offset.encode o))).erase
    (temporaryName o.topic o.subscriber)).insert (fileOf o) (.file (Offset.encode o))

/-- The renaming succeeds where no folder is in the way. -/
theorem rename_temporary {entries : SortedMap Entry} (hfree : ∀ name, entries.get? name ≠ some .folder)
    (o : SubscriberOffset) : (Place.directory (entries.insert (temporaryName o.topic o.subscriber)
        (.file (Offset.encode o)))).rename (temporaryName o.topic o.subscriber)
        (fileName o.topic o.subscriber)
      = .ok (.directory (afterCommit entries o)) := by
  have hother : fileName o.topic o.subscriber ≠ temporaryName o.topic o.subscriber :=
    Offset.fileName_ne_temporaryName _ _ _ _
  apply Place.rename_file (SortedMap.get?_insert_self _ _ _)
  rw [SortedMap.get?_insert_ne _ hother]
  exact hfree _

/-- And so does the commit. -/
theorem put_directory {entries : SortedMap Entry} (hfree : ∀ name, entries.get? name ≠ some .folder)
    (path : String) (o : SubscriberOffset) :
    (FileOffsets.mk path (.directory entries)).put o.committed o.topic o.subscriber o.lastId
      = (.ok (), ⟨path, .directory (afterCommit entries o)⟩) := by
  rw [put]
  simp only [Place.write_file (hfree (temporaryName o.topic o.subscriber)), rename_temporary hfree o]

theorem get?_afterCommit (entries : SortedMap Entry) (o : SubscriberOffset) {name : String}
    (hname : name ≠ temporaryName o.topic o.subscriber) : (afterCommit entries o).get? name
      = if fileOf o = name then some (.file (Offset.encode o)) else entries.get? name := by
  rw [afterCommit]
  split
  · next hfile =>
    subst hfile
    exact SortedMap.get?_insert_self _ _ _
  · next hfile =>
    rw [SortedMap.get?_insert_ne _ (Ne.symm hfile), SortedMap.get?_erase_ne _ hname,
      SortedMap.get?_insert_ne _ hname]

theorem get?_afterCommit_temporary (entries : SortedMap Entry) (o : SubscriberOffset) :
    (afterCommit entries o).get? (temporaryName o.topic o.subscriber) = none := by
  have hother : temporaryName o.topic o.subscriber ≠ fileOf o :=
    (Offset.fileName_ne_temporaryName _ _ _ _).symm
  rw [afterCommit, SortedMap.get?_insert_ne _ hother, SortedMap.get?_erase_self]

/-- **What a commit does to the files**: its record is what the file of its names holds, the temporary
    file is nobody's, and no other file has changed. -/
theorem holds_afterCommit {entries : SortedMap Entry}
    (h : (Place.directory entries).Holds offsets) (o : SubscriberOffset) :
    (Place.directory (afterCommit entries o)).Holds (offsets ++ [o]) := by
  obtain ⟨_, ⟨rfl⟩, hentries⟩ := h
  refine ⟨_, rfl, fun name => ?_⟩
  by_cases htemporary : name = temporaryName o.topic o.subscriber
  · subst htemporary
    have hnobody : lastIn (offsets ++ [o]) (temporaryName o.topic o.subscriber) = none := by
      rw [Offset.lastIn_eq_none_iff]
      intro o' _
      exact Offset.fileName_ne_temporaryName _ _ _ _
    rw [get?_afterCommit_temporary, hnobody]
    rfl
  · rw [get?_afterCommit entries o htemporary, Offset.lastIn_concat, hentries]
    split
    · rfl
    · rfl

/-- Opening a store again changes nothing. -/
theorem open_of_holds (h : store.place.Holds offsets) :
    FileOffsets.open store.path store.place = .ok store := by
  obtain ⟨entries, hplace, -⟩ := h
  obtain ⟨path, place⟩ := store
  subst hplace
  rfl

/-- **What an operation does**: afterwards the directory also holds what it has committed, and only a get
    can fail. -/
theorem perform_of_holds (h : store.place.Holds offsets) (op : OffsetOperation) :
    (store.perform op).2.place.Holds (offsets ++ op.offset?.toList)
      ∧ ((∀ topic subscriber, op ≠ .get topic subscriber) → (store.perform op).1 = .ok none) := by
  cases op with
  | commit o =>
    obtain ⟨path, place⟩ := store
    obtain ⟨entries, rfl, hentries⟩ := h
    have hput := put_directory (Place.ne_folder hentries) path o
    rw [perform, hput]
    exact ⟨holds_afterCommit ⟨entries, rfl, hentries⟩ o, fun _ => rfl⟩
  | get topic subscriber =>
    refine ⟨?_, fun hother => absurd rfl (hother topic subscriber)⟩
    show store.place.Holds (offsets ++ [])
    rwa [List.append_nil]
  | reopen =>
    have hopen := open_of_holds h
    rw [perform, hopen]
    refine ⟨?_, fun _ => rfl⟩
    show store.place.Holds (offsets ++ [])
    rwa [List.append_nil]

/-- **What operations do**, from the first to the last. -/
theorem after_of_holds (h : store.place.Holds offsets) (ops : List OffsetOperation) :
    (store.after ops).place.Holds (offsets ++ OffsetOperation.offsets ops) := by
  induction ops generalizing store offsets with
  | nil => rwa [OffsetOperation.offsets, List.filterMap_nil, List.append_nil]
  | cons op ops ih =>
    have hrest := ih (perform_of_holds h op).1
    rwa [List.append_assoc, ← OffsetOperation.offsets_cons] at hrest

end FileOffsets

/-! ## Offsets in memory -/

namespace MemoryOffsets

/-- Memory has what was committed. -/
def Holds (memory : MemoryOffsets) (offsets : List SubscriberOffset) : Prop :=
  ∀ topic subscriber, memory.get topic subscriber = (lastFor offsets topic subscriber).map (·.lastId)

theorem perform_of_holds {memory : MemoryOffsets} {offsets : List SubscriberOffset}
    (h : memory.Holds offsets) (op : OffsetOperation) :
    (memory.perform op).2.Holds (offsets ++ op.offset?.toList) := by
  cases op with
  | commit o =>
    intro topic subscriber
    show (memory.put o.committed o.topic o.subscriber o.lastId).get topic subscriber
      = (lastFor (offsets ++ [o]) topic subscriber).map _
    rw [Offset.lastFor_concat]
    split
    · next howner =>
      obtain ⟨rfl, rfl⟩ := howner
      exact memory.get_put_self _ _ _ _
    · next hother =>
      rw [memory.get_put_ne, h]
      rw [← not_and_or]
      rintro ⟨rfl, rfl⟩
      exact hother ⟨rfl, rfl⟩
  | get topic subscriber =>
    show memory.Holds (offsets ++ [])
    rwa [List.append_nil]
  | reopen =>
    show memory.Holds (offsets ++ [])
    rwa [List.append_nil]

end MemoryOffsets

/-! ## Both stores -/

namespace FileOffsets

open Offset (owner FilesApart Writable)

/-- **Files answer as memory does**, if what they hold is the same and no two share a file. -/
theorem answers_eq {store : FileOffsets} {memory : MemoryOffsets} {offsets : List SubscriberOffset}
    {ops : List OffsetOperation} (hstore : store.place.Holds offsets) (hmemory : memory.Holds offsets)
    (hwritable : ∀ o ∈ offsets ++ OffsetOperation.offsets ops, Writable o)
    (hapart : FilesApart (offsets.map owner ++ ops.filterMap OffsetOperation.owner?)) :
    store.answers ops = memory.answers ops := by
  induction ops generalizing store memory offsets with
  | nil => rfl
  | cons op ops ih =>
    have hnow : (store.perform op).1 = (memory.perform op).1 := by
      obtain ⟨-, hdone⟩ := perform_of_holds hstore op
      cases op with
      | commit o => exact hdone fun _ _ hget => by cases hget
      | reopen => exact hdone fun _ _ hget => by cases hget
      | get topic subscriber =>
        show store.get topic subscriber = .ok (memory.get topic subscriber)
        rw [get_of_holds hstore fun o ho => hwritable o (List.mem_append_left _ ho), hmemory,
          Offset.recall_of_apart]
        apply hapart.mono
        intro p hp
        rcases List.mem_cons.mp hp with rfl | hp
        · exact List.mem_append_right _ List.mem_cons_self
        · exact List.mem_append_left _ hp
    rw [answers, MemoryOffsets.answers, hnow]
    congr 1
    apply ih (perform_of_holds hstore op).1 (MemoryOffsets.perform_of_holds hmemory op)
    · rwa [List.append_assoc, ← OffsetOperation.offsets_cons]
    · apply hapart.mono
      -- whose an offset is now is whose it was to be
      intro p hp
      simp only [List.map_append, List.append_assoc, List.mem_append] at hp ⊢
      rcases hp with hp | hp | hp
      · exact Or.inl hp
      · cases op with
        | commit o =>
          cases List.mem_singleton.mp hp
          exact Or.inr List.mem_cons_self
        | get topic subscriber => cases hp
        | reopen => cases hp
      · obtain ⟨op', hop', hp⟩ := List.mem_filterMap.mp hp
        exact Or.inr (List.mem_filterMap.mpr ⟨op', List.mem_cons_of_mem _ hop', hp⟩)

/-- A store has been a map while operations were done. -/
structure IsMap (first : FileOffsets) (ops : List OffsetOperation) : Prop where
  /-- Commits and opening it again succeed. -/
  succeeds : ∀ op, (∀ topic subscriber, op ≠ .get topic subscriber) →
    ((first.after ops).perform op).1 = .ok none
  /-- A get finds the last id that was committed for its topic and subscriber; or nothing, if none was
      committed to their file; or that the last one was for others. -/
  recalls : ∀ topic subscriber,
    (first.after ops).get topic subscriber = recalled (OffsetOperation.offsets ops) topic subscriber
  /-- All answers have been those of offsets in memory, if no two share a file. -/
  agrees : Apart ops → first.answers ops = MemoryOffsets.answers .empty ops
  /-- Opening it again changes nothing. -/
  reopens : FileOffsets.open (first.after ops).path (first.after ops).place = .ok (first.after ops)
  /-- In the directory there are the files that were committed to, each once. -/
  files : (first.after ops).place.names.Perm ((OffsetOperation.offsets ops).map fileOf).dedup
  /-- There is one file for each topic and subscriber that was committed for, if no two share one. -/
  one_each : Apart ops → (first.after ops).place.names.Perm
    (((OffsetOperation.offsets ops).map owner).dedup.map fun p => fileName p.1 p.2)
  /-- No temporary file is left. -/
  no_temporary : ∀ topic subscriber, temporaryName topic subscriber ∉ (first.after ops).place.names

/-- In a directory of offsets there are their files. -/
theorem names_of_holds {store : FileOffsets} {offsets : List SubscriberOffset}
    (h : store.place.Holds offsets) :
    store.place.names.Nodup ∧ ∀ name, name ∈ store.place.names ↔ name ∈ offsets.map fileOf := by
  obtain ⟨entries, hplace, hentries⟩ := h
  rw [hplace]
  refine ⟨entries.nodup_keys, fun name => ?_⟩
  show name ∈ entries.keys ↔ _
  rw [SortedMap.mem_keys_iff, hentries, List.mem_map]
  constructor
  · rintro ⟨_, hentry⟩
    obtain ⟨o, hlast, -⟩ := Option.map_eq_some_iff.mp hentry
    exact ⟨o, Offset.lastIn_eq_some hlast⟩
  · rintro ⟨o, ho, hfile⟩
    cases hlast : lastIn offsets name with
    | none => exact absurd hfile (Offset.lastIn_eq_none_iff.mp hlast o ho)
    | some o' => exact ⟨_, rfl⟩

/-- The owners of committed offsets are among those of the operations. -/
theorem owners_subset (ops : List OffsetOperation) :
    (OffsetOperation.offsets ops).map owner ⊆ ops.filterMap OffsetOperation.owner? := by
  intro p hp
  obtain ⟨o, ho, rfl⟩ := List.mem_map.mp hp
  obtain ⟨op, hop, hoffset⟩ := List.mem_filterMap.mp ho
  refine List.mem_filterMap.mpr ⟨op, hop, ?_⟩
  cases op with
  | commit o' => cases hoffset; rfl
  | get topic subscriber => cases hoffset
  | reopen => cases hoffset

/-- **Files are a map** while all that was committed can be written. -/
theorem isMap_of_writable (path : String) {ops : List OffsetOperation}
    (hwritable : ∀ o ∈ OffsetOperation.offsets ops, Writable o) : IsMap (fresh path) ops := by
  have hholds := after_of_holds (holds_fresh path) ops
  rw [List.nil_append] at hholds
  obtain ⟨hnodup, hnames⟩ := names_of_holds hholds
  constructor
  case succeeds => exact fun op => (perform_of_holds hholds op).2
  case recalls => exact get_of_holds hholds hwritable
  case agrees =>
    intro hapart
    have hmemory : MemoryOffsets.Holds .empty [] := fun _ _ => rfl
    exact answers_eq (holds_fresh path) hmemory hwritable hapart
  case reopens => exact open_of_holds hholds
  case files =>
    apply (List.perm_ext_iff_of_nodup hnodup (List.nodup_dedup _)).mpr
    intro name
    rw [hnames, List.mem_dedup]
  case one_each =>
    intro hapart
    have howners := Offset.FilesApart.mono hapart (owners_subset ops)
    apply (List.perm_ext_iff_of_nodup hnodup _).mpr
    · intro name
      rw [hnames, List.mem_map, List.mem_map]
      constructor
      · rintro ⟨o, ho, rfl⟩
        exact ⟨owner o, List.mem_dedup.mpr (List.mem_map_of_mem ho), rfl⟩
      · rintro ⟨p, hp, rfl⟩
        obtain ⟨o, ho, rfl⟩ := List.mem_map.mp (List.mem_dedup.mp hp)
        exact ⟨o, ho, rfl⟩
    · apply List.Nodup.map_on _ (List.nodup_dedup _)
      intro p hp q hq
      exact howners p (List.mem_dedup.mp hp) q (List.mem_dedup.mp hq)
  case no_temporary =>
    intro topic subscriber hmem
    obtain ⟨o, -, hfile⟩ := List.mem_map.mp ((hnames _).mp hmem)
    exact Offset.fileName_ne_temporaryName _ _ _ _ hfile

/-- A map has lost nothing of what was committed last. -/
theorem IsMap.writable {path : String} {ops : List OffsetOperation} {o : SubscriberOffset}
    (h : IsMap (fresh path) (ops ++ [.commit o])) : Writable o := by
  have hholds := after_of_holds (holds_fresh path) (ops ++ [.commit o])
  have hoffsets : OffsetOperation.offsets (ops ++ [.commit o]) = OffsetOperation.offsets ops ++ [o] :=
    List.filterMap_append
  have hget := h.recalls o.topic o.subscriber
  rw [List.nil_append, hoffsets] at hholds
  rw [hoffsets, Offset.recalled_concat_self] at hget
  exact writable_of_get (read_of_holds hholds) hget

/-- **Files are a map as long as all that is committed can be written.**  A store that is opened where
    there is no directory yet, or an empty one, is at every moment of some operations a map from topics
    and subscribers to the ids that were committed last (what it finds, what it has answered, and what is
    in its directory), just if each name and id that they commit is shorter than 2³² bytes. -/
theorem isMap_iff_writable {place : Place} (hplace : place = .missing ∨ place = .directory .empty)
    (path : String) (ops : List OffsetOperation) :
    ∃ first, FileOffsets.open path place = .ok first
      ∧ ((∀ before, before <+: ops → IsMap first before)
        ↔ ∀ o ∈ OffsetOperation.offsets ops, Writable o) := by
  refine ⟨fresh path, open_of_empty hplace path, ?_, ?_⟩
  · intro hmap o ho
    obtain ⟨before, behind, hops⟩ := List.append_of_mem (OffsetOperation.mem_offsets_iff.mp ho)
    have hbefore : before ++ [.commit o] <+: ops := ⟨behind, by rw [hops, List.append_assoc]; rfl⟩
    exact (hmap _ hbefore).writable
  · intro hwritable before hbefore
    exact isMap_of_writable path fun o ho => hwritable o ((hbefore.filterMap _).subset ho)

/-! ### Two owners of one file -/

namespace OneFile

open Offset.TwoBorders (long)

/-- The border between a topic and a subscriber stands in two places. -/
def first : SubscriberOffset := ⟨long ++ "\x00" ++ "b", "c", "1", 5⟩

/-- The other one. -/
def second : SubscriberOffset := ⟨long, "b" ++ "\x00" ++ "c", "2", 6⟩

/-- Both are committed, and one asks for its offset in between and one at the end. -/
def operations : List OffsetOperation :=
  [.commit first, .get second.topic second.subscriber, .reopen, .commit second,
    .get second.topic second.subscriber]

theorem writable : ∀ o ∈ OffsetOperation.offsets operations, Writable o := by
  have hfits : ∀ s ∈ [first.topic, first.subscriber, first.lastId, second.topic, second.subscriber,
      second.lastId], Offset.Fits s := by
    show ∀ s ∈ _, Text.Utf8.length s < 2 ^ 32
    decide +kernel
  intro o ho
  rcases List.mem_cons.mp ho with rfl | ho
  · constructor <;> exact hfits _ (by decide +kernel)
  · cases List.mem_singleton.mp ho
    constructor <;> exact hfits _ (by decide +kernel)

theorem shared : fileOf second = fileOf first := by
  have hlong : Offset.IsLong second.topic second.subscriber
      ∧ Offset.IsLong first.topic first.subscriber := by
    show Offset.maxPlainStem < _ ∧ Offset.maxPlainStem < _
    decide +kernel
  have hinput : Offset.digestInput first.topic first.subscriber
      = Offset.digestInput second.topic second.subscriber :=
    Offset.digestInput_eq_iff.mpr (Or.inr (Or.inl ⟨"b", rfl, rfl⟩))
  exact congrArg (· ++ ".offset")
    (Offset.stem_eq_iff.mpr (Or.inr ⟨hlong.1, hlong.2, congrArg _ hinput.symm⟩))

/-- Who shares a file is told so, and is not given the other's id. -/
theorem get_after_operations : ((Place.missing = .missing ∨ Place.missing = .directory .empty)
      ∧ ∀ o ∈ OffsetOperation.offsets operations, Writable o)
    ∧ ∃ opened, FileOffsets.open "offsets" .missing = .ok opened
      ∧ (opened.after operations).get second.topic second.subscriber = .ok (some "2")
      ∧ (opened.after operations).get first.topic first.subscriber
        = .error (.foreign first.topic first.subscriber second.topic second.subscriber) := by
  obtain ⟨opened, hopen, hexact⟩ := isMap_iff_writable (Or.inl rfl) "offsets" operations
  have hmap := hexact.mpr writable operations List.prefix_rfl
  have hother : ¬ (second.topic = first.topic ∧ second.subscriber = first.subscriber) := by
    decide +kernel
  refine ⟨⟨Or.inl rfl, writable⟩, opened, hopen, ?_, ?_⟩
  · rw [hmap.recalls]
    exact Offset.recalled_concat_self [first] second
  · rw [hmap.recalls]
    exact Offset.recalled_concat_foreign [first] shared hother

end OneFile

/-! ### What a map would not do -/

namespace OneRecord

open Offset.Overlong (letters offset)

/-- An offset is committed for a topic of so many letters, and asked for. -/
def operations (n : Nat) : List OffsetOperation := [.commit (offset n), .get (letters n) "s"]

/-- From 2³² letters on the commit succeeds, but its record is not read back. -/
theorem answers_overlong (path : String) {n : Nat} (h : 2 ^ 32 ≤ n) :
    (fresh path).answers (operations n)
      = [.ok none, .error (.unreadable (letters n) "s" "not an offset record")] := by
  obtain ⟨hholds, hdone⟩ := perform_of_holds (holds_fresh path) (.commit (offset n))
  have hcommit := hdone fun _ _ hother => by cases hother
  rw [operations, answers, answers, answers, hcommit]
  generalize ((fresh path).perform (.commit (offset n))).2 = store at hholds
  have hread := read_of_holds hholds
  replace hread : store.place.read (fileName (letters n) "s") = .ok (Offset.encode (offset n)) := hread
  rw [perform, get_of_unread hread (Offset.Overlong.decode?_encode_offset h)]

/-- Memory finds what is committed, however long the topic. -/
theorem answers_memory (n : Nat) :
    MemoryOffsets.answers .empty (operations n) = [.ok none, .ok (some "1")] := by
  rw [operations, MemoryOffsets.answers, MemoryOffsets.answers, MemoryOffsets.answers,
    MemoryOffsets.perform, MemoryOffsets.perform, offset, MemoryOffsets.get_put_self]

/-- There is only one topic and subscriber. -/
theorem apart (n : Nat) : Apart (operations n) := by
  have hone : ∀ p ∈ (operations n).filterMap OffsetOperation.owner?, p = (letters n, "s") := by
    intro p hp
    rcases List.mem_cons.mp hp with rfl | hp
    · rfl
    · exact List.mem_singleton.mp hp
  intro p hp q hq _
  rw [hone p hp, hone q hq]

/-- An id that was committed for a topic of 2³² letters is not found, though nothing else is in the
    directory and memory finds it; and where two topics and subscribers share a file, there are not two
    files. -/
theorem map_falls_short :
    (∃ opened, FileOffsets.open "offsets" .missing = .ok opened ∧ Apart (operations (2 ^ 32))
      ∧ MemoryOffsets.answers .empty (operations (2 ^ 32)) = [.ok none, .ok (some "1")]
      ∧ opened.answers (operations (2 ^ 32))
        = [.ok none, .error (.unreadable (letters (2 ^ 32)) "s" "not an offset record")])
    ∧ ∃ opened, FileOffsets.open "offsets" .missing = .ok opened
      ∧ OneFile.first.topic ≠ OneFile.second.topic
      ∧ (opened.after [.commit OneFile.first, .commit OneFile.second]).place.names
        = [fileOf OneFile.first] := by
  refine ⟨⟨_, rfl, apart _, answers_memory _, answers_overlong _ (Nat.le_refl _)⟩,
    _, rfl, by decide +kernel, ?_⟩
  have hholds := after_of_holds (holds_fresh "offsets") [.commit OneFile.first, .commit OneFile.second]
  obtain ⟨hnodup, hnames⟩ := names_of_holds hholds
  have hfiles : (OffsetOperation.offsets [.commit OneFile.first, .commit OneFile.second]).map fileOf
      = [fileOf OneFile.first, fileOf OneFile.first] := by
    show [fileOf OneFile.first, fileOf OneFile.second] = _
    rw [OneFile.shared]
  rw [List.nil_append, hfiles] at hnames
  apply List.perm_singleton.mp
  apply (List.perm_ext_iff_of_nodup hnodup (List.nodup_singleton _)).mpr
  intro name
  rw [hnames, List.mem_cons, List.mem_singleton, or_self]

end OneRecord
end FileOffsets
end TopicRelay
