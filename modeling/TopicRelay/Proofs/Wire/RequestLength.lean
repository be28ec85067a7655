/-
  How long the text of a request is.

    ids      every id of a log in memory is written in as many bytes (`length_text_formatId`)
    fetch    each key takes the length of its text and of what is asked for it (`length_print`), so
             asking for fewer keys, or less for each of them, is not longer (`length_print_le`)
    resolve  asking for the topics of some keys is not longer than fetching for them
             (`length_printKeys_le`)
-/
import Mathlib.Algebra.Order.BigOperators.Group.List
import Mathlib.Algebra.Order.Group.Nat
import Mathlib.Data.List.Perm.Subperm
import Mathlib.Data.List.Sort
import TopicRelay.Log.Memory
import TopicRelay.Proofs.SortedMap
import TopicRelay.Proofs.Wire.Weights
import TopicRelay.Wire.ConsumeRequest
import TopicRelay.Wire.Reply

namespace TopicRelay

open Json

/-! ## Ids -/

theorem Text.Numeral.length_escape_padded (width n : Nat) :
    (((padded width n).flatMap Text.Utf8.encodeChar).flatMap Printer.escape).length = width := by
  have hdigit : ∀ d < 10, ((Text.Utf8.encodeChar (digitChar d)).flatMap Printer.escape).length = 1 := by
    decide
  induction width generalizing n with
  | zero => rfl
  | succ width ih =>
    rw [padded, List.flatMap_append, List.flatMap_append, List.length_append, ih,
      List.flatMap_singleton, hdigit _ (Nat.mod_lt n (by decide))]

theorem MemoryLog.length_text_formatId (n : UInt64) : (Printer.text (formatId n)).length = 22 := by
  rw [Printer.text, Printer.length_quoted, Text.Utf8.encode, formatId, String.toList_ofList,
    Text.Numeral.length_escape_padded]

/-! ## Keys -/

/-- The keys of a map that has no others are in the same order. -/
theorem SortedMap.keys_sublist {α β : Type} {m : SortedMap α} {m' : SortedMap β}
    (h : ∀ key ∈ m.keys, key ∈ m'.keys) : m.keys.Sublist m'.keys :=
  have : Std.Antisymm (α := String) (· < ·) :=
    ⟨fun _ _ hlt hgt => absurd (String.lt_trans hlt hgt) (String.lt_irrefl _)⟩
  List.sublist_of_subperm_of_pairwise (m.nodup_keys.subperm h) m.ascending m'.ascending

/-- What each key adds is less for fewer keys. -/
theorem SortedMap.sum_keys_le {α β : Type} {m : SortedMap α} {m' : SortedMap β}
    (h : ∀ key ∈ m.keys, key ∈ m'.keys) (f : String → Nat) :
    (m.keys.map f).sum ≤ (m'.keys.map f).sum :=
  ((keys_sublist h).map f).sum_le_sum fun _ _ => Nat.zero_le _

namespace Wire

/-! ## Requests -/

/-- The length of what is asked for a key. -/
theorem ConsumeRequest.length_print (r : ConsumeRequest) : r.print.length
    = 27 + (Printer.optionalText r.lastMessageId).length + (Printer.natural r.limit.toNat).length := by
  have hlast : (Printer.text "lastMessageId").length = 15 := by decide +kernel
  have hlimit : (Printer.text "limit").length = 7 := by decide +kernel
  simp only [print, Printer.object, Printer.entry, List.map_cons, List.map_nil,
    Printer.commaSeparated, List.length_cons, List.length_append, List.length_nil, hlast, hlimit]
  omega

/-- A list of items with commas between them, if there is one. -/
theorem length_commaSeparated (items : List Bytes) (hne : items ≠ []) :
    (Printer.commaSeparated items).length + 1 = (items.map fun item => item.length + 1).sum := by
  obtain ⟨item, items, rfl⟩ := List.exists_cons_of_ne_nil hne
  rw [Printer.length_commaSeparated_cons, List.map_cons, List.sum_cons]
  omega

namespace ConsumeRequests

/-- The length of an entry whose request takes `n` bytes, with what divides it from the next one. -/
def entryLength (key : TopicKey) (n : Nat) : Nat := (Printer.text key).length + n + 2

/-- **The length of a fetch**, if it asks for a key. -/
theorem length_print {rs : ConsumeRequests} (hne : rs.isEmpty = false) :
    rs.print.length = 1 + (rs.entries.map fun e => entryLength e.1 e.2.print.length).sum := by
  have hitems := length_commaSeparated (rs.entries.map fun e => Printer.entry e.1 e.2.print)
    (fun h => SortedMap.isEmpty_eq_false_iff.mp hne (List.map_eq_nil_iff.mp h))
  have hentry : ∀ e : TopicKey × ConsumeRequest,
      (Printer.entry e.1 e.2.print).length + 1 = entryLength e.1 e.2.print.length := by
    intro e
    rw [Printer.entry, List.length_append, List.length_cons, entryLength]
    omega
  rw [List.map_map, Function.comp_def] at hitems
  simp only [hentry] at hitems
  have hmap : (rs.entries.map fun e => (e.1, e.2.print)).map (fun e => Printer.entry e.1 e.2)
      = rs.entries.map fun e => Printer.entry e.1 e.2.print := List.map_map
  rw [print, Printer.object, hmap, List.length_cons, List.length_append, List.length_singleton,
    ← hitems]
  omega

/-- Fewer keys, with less for each of them. -/
theorem length_print_le {rs full : ConsumeRequests} {n : Nat} (hne : rs.isEmpty = false)
    (hkeys : ∀ key ∈ rs.keys, key ∈ full.keys) (hle : ∀ e ∈ rs.entries, e.2.print.length ≤ n)
    (hfull : ∀ e ∈ full.entries, e.2.print.length = n) : rs.print.length ≤ full.print.length := by
  rw [length_print hne, length_print (SortedMap.isEmpty_of_keys_subset hne hkeys)]
  refine Nat.add_le_add_left ?_ 1
  calc (rs.entries.map fun e => entryLength e.1 e.2.print.length).sum
      ≤ (rs.entries.map fun e => entryLength e.1 n).sum :=
        List.sum_le_sum fun e he => Nat.add_le_add_right (Nat.add_le_add_left (hle e he) _) 2
    _ = (rs.keys.map fun key => entryLength key n).sum := by rw [SortedMap.keys, List.map_map]; rfl
    _ ≤ (full.keys.map fun key => entryLength key n).sum := SortedMap.sum_keys_le hkeys _
    _ = (full.entries.map fun e => entryLength e.1 e.2.print.length).sum := by
        rw [SortedMap.keys, List.map_map]
        exact congrArg List.sum (List.map_congr_left fun e he => by rw [hfull e he]; rfl)

end ConsumeRequests

/-- The length of a question for topics. -/
theorem length_printKeys {keys : TopicKeys} (hne : keys.isEmpty = false) :
    (printKeys keys).length = 1 + (keys.keys.map fun key => (Printer.text key).length + 1).sum := by
  have hitems := length_commaSeparated (keys.keys.map Printer.text)
    (fun h => SortedMap.isEmpty_eq_false_iff.mp hne (List.map_eq_nil_iff.mp (List.map_eq_nil_iff.mp h)))
  rw [List.map_map, Function.comp_def] at hitems
  rw [printKeys, Printer.array, List.length_cons, List.length_append, List.length_singleton, ← hitems]
  omega

/-- A question for fewer topics is not longer. -/
theorem length_printKeys_mono {keys full : TopicKeys} (hne : keys.isEmpty = false)
    (hkeys : ∀ key ∈ keys.keys, key ∈ full.keys) :
    (printKeys keys).length ≤ (printKeys full).length := by
  rw [length_printKeys hne, length_printKeys (SortedMap.isEmpty_of_keys_subset hne hkeys)]
  exact Nat.add_le_add_left (SortedMap.sum_keys_le hkeys _) 1

/-- **A question for topics is not longer than a fetch** for these keys. -/
theorem length_printKeys_le {keys : TopicKeys} {full : ConsumeRequests} (hne : keys.isEmpty = false)
    (hkeys : ∀ key ∈ keys.keys, key ∈ full.keys) : (printKeys keys).length ≤ full.print.length := by
  rw [length_printKeys hne, ConsumeRequests.length_print (SortedMap.isEmpty_of_keys_subset hne hkeys)]
  refine Nat.add_le_add_left ?_ 1
  calc (keys.keys.map fun key => (Printer.text key).length + 1).sum
      ≤ (full.keys.map fun key => (Printer.text key).length + 1).sum := SortedMap.sum_keys_le hkeys _
    _ = (full.entries.map fun e => (Printer.text e.1).length + 1).sum := by
        rw [SortedMap.keys, List.map_map]; rfl
    _ ≤ (full.entries.map fun e => ConsumeRequests.entryLength e.1 e.2.print.length).sum :=
        List.sum_le_sum fun e _ => by
          rw [ConsumeRequests.entryLength]
          omega

end Wire
end TopicRelay
