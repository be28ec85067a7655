/-
  A commit is done, or it is not.

  It writes its record to a temporary file, and then gives this file the name of the real one.  It can
  fail, or be interrupted, at any point of this:

      unopened     there is no temporary file, or still the one of an earlier commit
      cutOff n     n bytes of the record are in it
      unrenamed    the record is in it
      unsynced     it has got its new name

  specification   for whoever opens the directory then, the commit is done if its file has got its new
                  name, and else nothing has happened (`IsAtomic`)
  main result     so it is with each of any commits, as long as what they write can be read back, and no
                  longer (`isAtomic_iff_writable`)
  crux            nobody reads a temporary file, for no file has the name of one; so what matters of a
                  directory is what it has under the names of files (`Keeps`), and only a renaming changes
                  that (`Keeps.afterAttempt`)

  What was attempted before does not matter either: a commit writes its temporary file anew.
-/
import TopicRelay.Proofs.Offset.Files

namespace TopicRelay

open Offset (encode fileName fileOf lastIn recalled recalled_concat_self temporaryName Writable)

/-! ## Failures -/

/-- Where a commit does not go on, and what the system says.  One that is interrupted there leaves the
    same files, but nobody is told. -/
inductive Fault where
  /-- The temporary file is not opened. -/
  | unopened (reason : String)
  /-- It is opened, and so many bytes of the record are written to it; it may be all of them, if they are
      not synced. -/
  | cutOff (n : Nat) (reason : String)
  /-- The record is written, but the file is not renamed. -/
  | unrenamed (reason : String)
  /-- The file is renamed, but the directory is not synced. -/
  | unsynced (reason : String)
deriving DecidableEq, Repr

namespace Place

/-- Writes a file, if nothing comes between: how that ended, and what there is then. -/
def writeUnder (fault? : Option Fault) (place : Place) (name : String) (contents : Bytes) :
    Except String Unit × Place :=
  match fault? with
  | some (.unopened reason) => (.error reason, place)
  | some (.cutOff n reason) => match place.write name (contents.take n) with
    | .error e => (.error e.message, place)
    | .ok written => (.error reason, written)
  | _ => match place.write name contents with
    | .error e => (.error e.message, place)
    | .ok written => (.ok (), written)

/-- Renames a file, if nothing comes between. -/
def renameUnder (fault? : Option Fault) (place : Place) (name newName : String) :
    Except String Unit × Place :=
  match fault? with
  | some (.unrenamed reason) => (.error reason, place)
  | _ => match place.rename name newName with
    | .error e => (.error e.message, place)
    | .ok renamed => (.ok (), renamed)

/-- Makes sure that a renaming lasts, if nothing comes between. -/
def syncUnder : Option Fault → Except String Unit
  | some (.unsynced reason) => .error reason
  | _ => .ok ()

end Place

namespace FileOffsets

/-- A failure while something was done to a path. -/
def unable (what path reason : String) : OffsetError :=
  .failure ("Unable to " ++ what ++ " " ++ path ++ ": " ++ reason)

/-- Commits an offset, if nothing comes between: how that ended, and the store after it. -/
def putUnder (fault? : Option Fault) (store : FileOffsets) (o : SubscriberOffset) :
    Except OffsetError Unit × FileOffsets :=
  let temporary := temporaryName o.topic o.subscriber
  let name := fileName o.topic o.subscriber
  match store.place.writeUnder fault? temporary (encode o) with
  | (.error reason, place) =>
    (.error (unable "write" (store.pathOf temporary) reason), { store with place := place })
  | (.ok (), place) => match place.renameUnder fault? temporary name with
    | (.error reason, place) =>
      (.error (unable "replace" (store.pathOf name) reason), { store with place := place })
    | (.ok (), place) =>
      ((Place.syncUnder fault?).mapError (unable "sync" store.path), { store with place := place })

/-- **If nothing comes between, it is a put.** -/
theorem putUnder_none (store : FileOffsets) (o : SubscriberOffset) :
    store.putUnder none o = store.put o.committed o.topic o.subscriber o.lastId := by
  cases hwrite : store.place.write (temporaryName o.topic o.subscriber) (encode o) with
  | error e =>
    simp only [putUnder, put, Place.writeUnder, hwrite]
    rfl
  | ok written =>
    simp only [putUnder, put, Place.writeUnder, Place.renameUnder, hwrite]
    cases written.rename (temporaryName o.topic o.subscriber) (fileName o.topic o.subscriber) with
    | error e => rfl
    | ok renamed => rfl

/-! ## Attempts -/

/-- A commit, and what comes between. -/
structure Attempt where
  offset : SubscriberOffset
  fault? : Option Fault

/-- Whether the file is renamed. -/
def Attempt.isDone (a : Attempt) : Bool :=
  match a.fault? with
  | none => true
  | some (.unsynced _) => true
  | some _ => false

/-- The offsets whose files were renamed. -/
def done (as : List Attempt) : List SubscriberOffset :=
  (as.filter Attempt.isDone).map Attempt.offset

theorem done_of_isDone {a : Attempt} (h : a.isDone = true) : done [a] = [a.offset] := by
  rw [done, List.filter_cons, if_pos h]
  rfl

theorem done_of_not_isDone {a : Attempt} (h : a.isDone = false) : done [a] = [] := by
  rw [done, List.filter_cons, h]
  rfl

theorem done_append (as bs : List Attempt) : done (as ++ bs) = done as ++ done bs := by
  rw [done, List.filter_append, List.map_append, ← done, ← done]

/-- The store after an attempt. -/
def attempt (store : FileOffsets) (a : Attempt) : FileOffsets := (store.putUnder a.fault? a.offset).2

/-- The store after attempts. -/
def attemptAll (store : FileOffsets) (as : List Attempt) : FileOffsets := as.foldl attempt store

/-- The files after an attempt. -/
def afterAttempt (entries : SortedMap Entry) (a : Attempt) : SortedMap Entry :=
  let temporary := temporaryName a.offset.topic a.offset.subscriber
  match a.fault? with
  | some (.unopened _) => entries
  | some (.cutOff n _) => entries.insert temporary (.file ((encode a.offset).take n))
  | some (.unrenamed _) => entries.insert temporary (.file (encode a.offset))
  | _ => afterCommit entries a.offset

/-- **What an attempt does** where no folder is in the way: it succeeds if nothing comes between. -/
theorem attempt_directory {entries : SortedMap Entry} (hfree : ∀ name, entries.get? name ≠ some .folder)
    (path : String) (a : Attempt) :
    (FileOffsets.mk path (.directory entries)).attempt a = ⟨path, .directory (afterAttempt entries a)⟩
      ∧ (((FileOffsets.mk path (.directory entries)).putUnder a.fault? a.offset).1 = .ok ()
        ↔ a.fault? = none) := by
  obtain ⟨o, fault?⟩ := a
  have hwrite := fun contents => Place.write_file (hfree (temporaryName o.topic o.subscriber)) contents
  have hrename := rename_temporary hfree o
  cases fault? with
  | none =>
    rw [attempt, putUnder_none, put_directory hfree path o]
    exact ⟨rfl, iff_of_true rfl rfl⟩
  | some fault =>
    have hbroken : ∀ {e : OffsetError}, (Except.error e : Except OffsetError Unit) = .ok ()
        ↔ some fault = none := iff_of_false (fun h => by cases h) fun h => by cases h
    cases fault with
    | unopened reason => exact ⟨rfl, hbroken⟩
    | cutOff n reason =>
      simp only [attempt, putUnder, Place.writeUnder, hwrite]
      exact ⟨rfl, hbroken⟩
    | unrenamed reason =>
      simp only [attempt, putUnder, Place.writeUnder, Place.renameUnder, hwrite]
      exact ⟨rfl, hbroken⟩
    | unsynced reason =>
      simp only [attempt, putUnder, Place.writeUnder, Place.renameUnder, hwrite, hrename]
      exact ⟨rfl, hbroken⟩

/-! ## What a directory keeps -/

/-- Under the name of each file there is the record that was committed last to it, and no folder is in
    the way.  Temporary files may hold anything. -/
structure Keeps (entries : SortedMap Entry) (offsets : List SubscriberOffset) : Prop where
  free : ∀ name, entries.get? name ≠ some .folder
  files : ∀ topic subscriber, entries.get? (fileName topic subscriber)
    = (lastIn offsets (fileName topic subscriber)).map fun o => .file (encode o)

variable {entries : SortedMap Entry} {offsets : List SubscriberOffset}

namespace Keeps

theorem empty : Keeps .empty [] where
  free _ := fun h => by cases h
  files _ _ := rfl

/-- **A temporary file does not matter.** -/
theorem insert_temporary (h : Keeps entries offsets) (topic : TopicName) (subscriber : SubscriberName)
    (contents : Bytes) :
    Keeps (entries.insert (temporaryName topic subscriber) (.file contents)) offsets where
  free name := by
    by_cases hname : name = temporaryName topic subscriber
    · rw [hname, SortedMap.get?_insert_self]
      exact fun hfolder => by cases hfolder
    · rw [SortedMap.get?_insert_ne _ hname]
      exact h.free name
  files t s := by
    rw [SortedMap.get?_insert_ne _ (Offset.fileName_ne_temporaryName t topic s subscriber)]
    exact h.files t s

/-- **A renaming** is a commit. -/
theorem afterCommit (h : Keeps entries offsets) (o : SubscriberOffset) :
    Keeps (afterCommit entries o) (offsets ++ [o]) where
  free name := by
    by_cases hname : name = temporaryName o.topic o.subscriber
    · rw [hname, get?_afterCommit_temporary]
      exact fun hfolder => by cases hfolder
    · rw [get?_afterCommit entries o hname]
      split
      · exact fun hfolder => by cases hfolder
      · exact h.free name
  files t s := by
    rw [get?_afterCommit entries o (Offset.fileName_ne_temporaryName t o.topic s o.subscriber),
      Offset.lastIn_concat, h.files]
    split
    · rfl
    · rfl

/-- **What an attempt does to the files**: it commits its offset, or else nothing. -/
theorem afterAttempt (h : Keeps entries offsets) (a : Attempt) :
    Keeps (afterAttempt entries a) (offsets ++ done [a]) := by
  obtain ⟨o, fault?⟩ := a
  have hnot : offsets ++ [] = offsets := List.append_nil offsets
  cases fault? with
  | none => exact h.afterCommit o
  | some fault =>
    cases fault with
    | unopened reason => exact hnot.symm ▸ h
    | cutOff n reason => exact hnot.symm ▸ h.insert_temporary _ _ _
    | unrenamed reason => exact hnot.symm ▸ h.insert_temporary _ _ _
    | unsynced reason => exact h.afterCommit o

/-- What is done is in its file. -/
theorem record (h : Keeps entries offsets) {a : Attempt} (hdone : a.isDone = true) :
    (FileOffsets.afterAttempt entries a).get? (fileName a.offset.topic a.offset.subscriber)
      = some (.file (encode a.offset)) := by
  have hfile : fileOf a.offset = fileName a.offset.topic a.offset.subscriber := rfl
  have hentry := (h.afterAttempt a).files a.offset.topic a.offset.subscriber
  rwa [done_of_isDone hdone, Offset.lastIn_concat, if_pos hfile] at hentry

/-- **What attempts do to the files**, from the first to the last. -/
theorem attemptAll (h : Keeps entries offsets) (path : String) (as : List Attempt) :
    ∃ entries', (FileOffsets.mk path (.directory entries)).attemptAll as = ⟨path, .directory entries'⟩
      ∧ Keeps entries' (offsets ++ done as) := by
  induction as generalizing entries offsets with
  | nil => exact ⟨entries, rfl, (List.append_nil offsets).symm ▸ h⟩
  | cons a as ih =>
    obtain ⟨entries', hrest, hkeeps⟩ := ih (h.afterAttempt a)
    refine ⟨entries', ?_, ?_⟩
    · rw [FileOffsets.attemptAll, List.foldl_cons, (attempt_directory h.free path a).1]
      exact hrest
    · rwa [List.append_assoc, ← done_append] at hkeeps

end Keeps

/-- **What a get finds.** -/
theorem get_of_keeps (h : Keeps entries offsets) (hwritable : ∀ o ∈ offsets, Writable o) (path : String)
    (topic : TopicName) (subscriber : SubscriberName) :
    (FileOffsets.mk path (.directory entries)).get topic subscriber
      = recalled offsets topic subscriber :=
  get_of_entry (h.files topic subscriber) hwritable

/-! ## What is found -/

theorem recalled_concat_ne (offsets : List SubscriberOffset) {o : SubscriberOffset} {topic : TopicName}
    {subscriber : SubscriberName} (h : fileName topic subscriber ≠ fileOf o) :
    recalled (offsets ++ [o]) topic subscriber = recalled offsets topic subscriber := by
  rw [recalled, recalled, Offset.lastIn_concat, if_neg (Ne.symm h)]

/-- Only a record of others is an error. -/
theorem foreign_of_recalled {topic : TopicName} {subscriber : SubscriberName} {e : OffsetError}
    (h : recalled offsets topic subscriber = .error e) :
    ∃ o ∈ offsets, e = .foreign topic subscriber o.topic o.subscriber
      ∧ fileOf o = fileName topic subscriber ∧ ¬ (o.topic = topic ∧ o.subscriber = subscriber) := by
  rw [recalled] at h
  split at h
  · cases h
  · next o hlast =>
    obtain ⟨ho, hfile⟩ := Offset.lastIn_eq_some hlast
    split at h
    · cases h
    · next hother =>
      cases h
      exact ⟨o, ho, rfl, hfile, hother⟩

/-- A commit was attempted on a store that had had some commits, and the directory was opened again. -/
structure IsAtomic (store : FileOffsets) (offsets : List SubscriberOffset) (a : Attempt)
    (reopened : FileOffsets) : Prop where
  /-- It says that it has succeeded if nothing came between, and only then. -/
  succeeds : (store.putUnder a.fault? a.offset).1 = .ok () ↔ a.fault? = none
  /-- What was found before. -/
  recalled : ∀ topic subscriber, store.get topic subscriber = recalled offsets topic subscriber
  /-- If its file was not renamed, all is found as before. -/
  undone : a.isDone = false →
    ∀ topic subscriber, reopened.get topic subscriber = store.get topic subscriber
  /-- If it was, the new id is found. -/
  done : a.isDone = true →
    reopened.get a.offset.topic a.offset.subscriber = .ok (some a.offset.lastId)
  /-- In either case, what is in other files is found as before. -/
  others : ∀ topic subscriber, fileName topic subscriber ≠ fileOf a.offset →
    reopened.get topic subscriber = store.get topic subscriber
  /-- No record is found that is not whole: who is told of an error shares a file with others, who were
      the last to commit to it. -/
  whole : ∀ topic subscriber e, reopened.get topic subscriber = .error e →
    ∃ o ∈ offsets ++ [a.offset], e = .foreign topic subscriber o.topic o.subscriber
      ∧ fileOf o = fileName topic subscriber ∧ ¬ (o.topic = topic ∧ o.subscriber = subscriber)
  /-- A put succeeds after that, and its id is found. -/
  next : ∀ o, Writable o → ∃ after,
    reopened.put o.committed o.topic o.subscriber o.lastId = (.ok (), after)
      ∧ after.get o.topic o.subscriber = .ok (some o.lastId)

/-- **An attempt on a directory of offsets.** -/
theorem isAtomic_of_keeps (h : Keeps entries offsets) (path : String) {a : Attempt}
    (hwritable : ∀ o ∈ offsets ++ done [a], Writable o) :
    IsAtomic ⟨path, .directory entries⟩ offsets a ⟨path, .directory (afterAttempt entries a)⟩ := by
  have hafter := h.afterAttempt a
  have hget := get_of_keeps h (fun o ho => hwritable o (List.mem_append_left _ ho)) path
  have hget' := get_of_keeps hafter hwritable path
  constructor
  case succeeds => exact (attempt_directory h.free path a).2
  case recalled => exact hget
  case undone =>
    intro hnot topic subscriber
    rw [hget', hget, done_of_not_isDone hnot, List.append_nil]
  case done =>
    intro hdone
    rw [hget', done_of_isDone hdone, recalled_concat_self]
  case others =>
    intro topic subscriber hother
    rw [hget', hget]
    cases hdone : a.isDone with
    | false => rw [done_of_not_isDone hdone, List.append_nil]
    | true => rw [done_of_isDone hdone, recalled_concat_ne _ hother]
  case whole =>
    intro topic subscriber e herror
    rw [hget'] at herror
    obtain ⟨o, ho, hforeign⟩ := foreign_of_recalled herror
    refine ⟨o, List.mem_append.mpr ((List.mem_append.mp ho).imp_right fun hlast => ?_), hforeign⟩
    cases hdone : a.isDone with
    | false =>
      rw [done_of_not_isDone hdone] at hlast
      cases hlast
    | true => rwa [done_of_isDone hdone] at hlast
  case next =>
    intro o ho
    refine ⟨_, put_directory hafter.free path o, ?_⟩
    rw [get_of_keeps (hafter.afterCommit o), recalled_concat_self]
    intro o' ho'
    rcases List.mem_append.mp ho' with hbefore | hlast
    · exact hwritable o' hbefore
    · cases List.mem_singleton.mp hlast
      exact ho

/-- A commit that is attempted after others is done, or it is not, while what they have written can be
    read back. -/
theorem isAtomic_of_writable (path : String) {as : List Attempt} {a : Attempt}
    (hwritable : ∀ o ∈ done (as ++ [a]), Writable o) :
    ∃ reopened, FileOffsets.open path (((fresh path).attemptAll as).attempt a).place = .ok reopened
      ∧ IsAtomic ((fresh path).attemptAll as) (done as) a reopened := by
  obtain ⟨entries, hbefore, hkeeps⟩ := Keeps.empty.attemptAll path as
  rw [List.nil_append] at hkeeps
  rw [done_append] at hwritable
  refine ⟨⟨path, .directory (afterAttempt entries a)⟩, ?_, ?_⟩
  · rw [fresh, hbefore, (attempt_directory hkeeps.free path a).1]
    rfl
  · rw [fresh, hbefore]
    exact isAtomic_of_keeps hkeeps path hwritable

/-- A commit that is done, and whose id is found, was of an offset that can be written. -/
theorem IsAtomic.writable {path : String} {as : List Attempt} {a : Attempt} {reopened : FileOffsets}
    (hdone : a.isDone = true)
    (hopen : FileOffsets.open path (((fresh path).attemptAll as).attempt a).place = .ok reopened)
    (h : IsAtomic ((fresh path).attemptAll as) (FileOffsets.done as) a reopened) :
    Writable a.offset := by
  obtain ⟨entries, hbefore, hkeeps⟩ := Keeps.empty.attemptAll path as
  rw [fresh, hbefore, (attempt_directory hkeeps.free path a).1] at hopen
  cases hopen
  exact writable_of_get (Place.read_file (hkeeps.record hdone)) (h.done hdone)

/-- **A commit is done, or it is not.**  Take any commits that are attempted on a store that was opened
    where there was no directory, or an empty one.  Whatever comes between each of them, whoever opens
    the directory then finds that it has been done or that nothing has happened, whatever temporary files
    the ones before it have left; and this is so just if the names and ids of those that are done are
    shorter than 2³² bytes. -/
theorem isAtomic_iff_writable {place : Place} (hplace : place = .missing ∨ place = .directory .empty)
    (path : String) (as : List Attempt) :
    ∃ first, FileOffsets.open path place = .ok first
      ∧ ((∀ before a, before ++ [a] <+: as → ∃ reopened,
          FileOffsets.open path ((first.attemptAll before).attempt a).place = .ok reopened
            ∧ IsAtomic (first.attemptAll before) (done before) a reopened)
        ↔ ∀ o ∈ done as, Writable o) := by
  refine ⟨fresh path, open_of_empty hplace path, ?_, ?_⟩
  · intro hatomic o ho
    obtain ⟨a, ha, rfl⟩ := List.mem_map.mp ho
    obtain ⟨hmem, hdone⟩ := List.mem_filter.mp ha
    obtain ⟨before, behind, has⟩ := List.append_of_mem hmem
    have hbefore : before ++ [a] <+: as := ⟨behind, by rw [has, List.append_assoc]; rfl⟩
    obtain ⟨reopened, hopen, h⟩ := hatomic before a hbefore
    exact h.writable hdone hopen
  · rintro hwritable before a ⟨behind, rfl⟩
    rw [done_append] at hwritable
    exact isAtomic_of_writable path fun o ho => hwritable o (List.mem_append_left _ ho)

/-! ### A disk that gets full -/

namespace FullDisk

/-- The first offset is committed. -/
def first : Attempt := ⟨⟨"t", "s", "1", 5⟩, none⟩

/-- The record of the second one is cut off. -/
def second : Attempt := ⟨⟨"t", "s", "2", 6⟩, some (.cutOff 3 "No space left on device (os error 28)")⟩

/-- The file of the third one is renamed, but the directory is not synced. -/
def third : Attempt := ⟨⟨"t", "s", "3", 7⟩, some (.unsynced "Input/output error (os error 5)")⟩

theorem writable {id : MessageId} {committed : UInt64} (hid : Offset.Fits id) :
    Writable ⟨"t", "s", id, committed⟩ := by
  refine ⟨?_, ?_, hid⟩
  · show Text.Utf8.length "t" < 2 ^ 32
    decide +kernel
  · show Text.Utf8.length "s" < 2 ^ 32
    decide +kernel

/-- The second commit has left three bytes and changed nothing.  The third one says that it has failed,
    but it is done; and a fourth one does not mind. -/
theorem get_after_failures : ((Place.missing = .missing ∨ Place.missing = .directory .empty)
      ∧ ∀ o ∈ done ([first, second] ++ [third]), Writable o)
    ∧ ∃ opened reopened, FileOffsets.open "offsets" .missing = .ok opened
      ∧ (opened.attemptAll [first, second]).get "t" "s" = .ok (some "1")
      ∧ FileOffsets.open "offsets" ((opened.attemptAll [first, second]).attempt third).place
        = .ok reopened
      ∧ reopened.get "t" "s" = .ok (some "3")
      ∧ ∃ after, reopened.put 8 "t" "s" "4" = (.ok (), after) ∧ after.get "t" "s" = .ok (some "4") := by
  have hfits : ∀ id ∈ ["1", "3", "4"], Offset.Fits id := by
    show ∀ id ∈ _, Text.Utf8.length id < 2 ^ 32
    decide +kernel
  have hwritable : ∀ o ∈ done ([first, second] ++ [third]), Writable o := by
    intro o ho
    rcases List.mem_cons.mp ho with rfl | ho
    · exact writable (hfits "1" (by decide))
    · cases List.mem_singleton.mp ho
      exact writable (hfits "3" (by decide))
  obtain ⟨opened, hopen, hexact⟩ :=
    isAtomic_iff_writable (Or.inl rfl) "offsets" ([first, second] ++ [third])
  obtain ⟨reopened, hreopen, hatomic⟩ := hexact.mpr hwritable [first, second] third List.prefix_rfl
  refine ⟨⟨Or.inl rfl, hwritable⟩, opened, reopened, hopen, ?_, hreopen, hatomic.done rfl,
    hatomic.next ⟨"t", "s", "4", 8⟩ (writable (hfits "4" (by decide)))⟩
  rw [hatomic.recalled]
  exact recalled_concat_self [] first.offset

end FullDisk

/-! ### What an atomic commit would not do -/

namespace NotWhole

open Offset.Overlong (letters offset)

/-- From 2³² letters on, who opens the directory after the commit is told of what is no record. -/
theorem get_overlong {n : Nat} (h : 2 ^ 32 ≤ n) (path : String) :
    ∃ reopened, FileOffsets.open path ((fresh path).attempt ⟨offset n, none⟩).place = .ok reopened
      ∧ reopened.get (letters n) "s" = .error (.unreadable (letters n) "s" "not an offset record") := by
  have hdone : Attempt.isDone ⟨offset n, none⟩ = true := rfl
  have hread : (Place.directory (afterAttempt .empty ⟨offset n, none⟩)).read (fileName (letters n) "s")
      = .ok (encode (offset n)) := Place.read_file (Keeps.empty.record hdone)
  refine ⟨⟨path, .directory (afterAttempt .empty ⟨offset n, none⟩)⟩, ?_, ?_⟩
  · rw [fresh, (attempt_directory Keeps.empty.free path _).1]
    rfl
  · exact get_of_unread hread (Offset.Overlong.decode?_encode_offset h)

/-- The commit of one owner of a shared file, and then one of the other that does not get so far as to
    have a temporary file. -/
theorem get_shared (path : String) (reason : String) :
    ∃ reopened, FileOffsets.open path (((fresh path).attempt ⟨OneFile.first, none⟩).attempt
        ⟨OneFile.second, some (.unopened reason)⟩).place = .ok reopened
      ∧ reopened.get OneFile.second.topic OneFile.second.subscriber
        = .error (.foreign OneFile.second.topic OneFile.second.subscriber
          OneFile.first.topic OneFile.first.subscriber) := by
  have hwritable : ∀ o ∈ done ([⟨OneFile.first, none⟩]
      ++ [⟨OneFile.second, some (.unopened reason)⟩]), Writable o := by
    intro o ho
    cases List.mem_singleton.mp ho
    exact OneFile.writable _ List.mem_cons_self
  obtain ⟨reopened, hopen, hatomic⟩ := isAtomic_of_writable path hwritable
  have hother : ¬ (OneFile.first.topic = OneFile.second.topic
      ∧ OneFile.first.subscriber = OneFile.second.subscriber) := by
    decide +kernel
  refine ⟨reopened, hopen, ?_⟩
  rw [hatomic.undone rfl, hatomic.recalled]
  exact Offset.recalled_concat_foreign [] OneFile.shared.symm hother

/-- A commit for a topic of 2³² letters that nothing has come between leaves a record that is not read
    back; and where a file is shared, one that has not begun leaves its owner with the other's. -/
theorem commit_falls_short :
    (∃ opened reopened, FileOffsets.open "offsets" .missing = .ok opened
      ∧ FileOffsets.open "offsets" (opened.attempt ⟨offset (2 ^ 32), none⟩).place = .ok reopened
      ∧ reopened.get (letters (2 ^ 32)) "s"
        = .error (.unreadable (letters (2 ^ 32)) "s" "not an offset record"))
    ∧ ∃ opened reopened, FileOffsets.open "offsets" .missing = .ok opened
      ∧ FileOffsets.open "offsets" ((opened.attempt ⟨OneFile.first, none⟩).attempt
        ⟨OneFile.second, some (.unopened "Is a directory (os error 21)")⟩).place = .ok reopened
      ∧ reopened.get OneFile.second.topic OneFile.second.subscriber
        = .error (.foreign OneFile.second.topic OneFile.second.subscriber
          OneFile.first.topic OneFile.first.subscriber) := by
  obtain ⟨reopened, hopen, hget⟩ := get_overlong (Nat.le_refl (2 ^ 32)) "offsets"
  obtain ⟨reopened', hopen', hget'⟩ := get_shared "offsets" "Is a directory (os error 21)"
  exact ⟨⟨_, reopened, rfl, hopen, hget⟩, _, reopened', rfl, hopen', hget'⟩

end NotWhole
end FileOffsets
end TopicRelay
