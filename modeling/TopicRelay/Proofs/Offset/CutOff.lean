/-
  A record that was cut off is no record.

      encode    a record to bytes: the head of an array, then three texts and a number
      decode?   bytes to a record, or nothing; what is behind the record does not matter

  specification   the bytes of a record give the record, alone and with more behind them, and no
                  proper beginning of them gives a record at all (`record_read_when_whole`)
  the crux        a reader takes some bytes and never looks at those behind them (`IsLocal`).  Had it
                  been content with a beginning, it would take the same from the whole and leave the
                  others; but of the whole it leaves nothing (`IsLocal.of_cut`)
  head            the forms of a head differ in how many bytes follow the first one.  Each of them
                  reads so many and no more, so there is one case for each kind of form
-/
import TopicRelay.Offset.Files
import TopicRelay.Proofs.Offset.Record

namespace TopicRelay

/-! ## Readers that do not look ahead -/

/-- A reader that would have read the same if more had followed. -/
def IsLocal {α : Type} (read : Bytes → Option (α × Bytes)) : Prop :=
  ∀ ⦃bs a rest⦄, read bs = some (a, rest) → ∀ more, read (bs ++ more) = some (a, rest ++ more)

/-- **A beginning is not enough** for a reader that takes all of the bytes. -/
theorem IsLocal.of_cut {α : Type} {read : Bytes → Option (α × Bytes)} (hlocal : IsLocal read)
    {bs cut : Bytes} {a : α} (hwhole : read (bs ++ cut) = some (a, [])) (hcut : cut ≠ []) :
    read bs = none := by
  cases hread : read bs with
  | none => rfl
  | some result =>
    have hmore := hlocal hread cut
    rw [hwhole, Option.some.injEq, Prod.mk.injEq] at hmore
    exact absurd (List.append_eq_nil_iff.mp hmore.2.symm).2 hcut

namespace BigEndian

theorem isLocal_split? (count : Nat) : IsLocal (split? count) := by
  intro bs taken rest h more
  rw [split?] at h
  split at h
  · next hlength =>
    obtain ⟨rfl, rfl⟩ := Prod.mk.inj (Option.some.inj h)
    have hsplit := split?_append hlength (bs.drop count ++ more)
    rwa [← List.append_assoc, List.take_append_drop] at hsplit
  · cases h

theorem isLocal_decode? (count : Nat) : IsLocal (decode? count) := by
  intro bs n rest h more
  obtain ⟨s, hs, heq⟩ := Option.map_eq_some_iff.mp h
  obtain ⟨rfl, rfl⟩ := Prod.mk.inj heq
  rw [decode?, isLocal_split? count hs more, Option.map_some]

end BigEndian

namespace MessagePack

/-- No form of a head looks behind its last byte. -/
theorem Form.isLocal_read (form : Form) : IsLocal (form.read ·) := by
  intro bs head rest h more
  show form.read (bs ++ more) = _
  cases form with
  | complete made =>
    obtain ⟨rfl, rfl⟩ := Prod.mk.inj (Option.some.inj h)
    rfl
  | word width made =>
    obtain ⟨w, hw, heq⟩ := Option.map_eq_some_iff.mp h
    obtain ⟨rfl, rfl⟩ := Prod.mk.inj heq
    rw [Form.read, BigEndian.isLocal_decode? width hw more, Option.map_some]
  | sized size made =>
    obtain ⟨s, hs, heq⟩ := Option.map_eq_some_iff.mp h
    obtain ⟨rfl, rfl⟩ := Prod.mk.inj heq
    rw [Form.read, BigEndian.isLocal_split? size hs more, Option.map_some]
  | counted width extra made =>
    simp only [Form.read] at h
    split at h
    · cases h
    · next n counted hn =>
      -- first the length, and then as many bytes of what the length leaves
      obtain ⟨s, hs, heq⟩ := Option.map_eq_some_iff.mp h
      obtain ⟨rfl, rfl⟩ := Prod.mk.inj heq
      simp only [Form.read, BigEndian.isLocal_decode? width hn more,
        BigEndian.isLocal_split? (n + extra) hs more, Option.map_some]

theorem isLocal_head? : IsLocal head? := by
  intro bs head rest h more
  cases bs with
  | nil => cases h
  | cons b bs =>
    obtain ⟨form, hform, hread⟩ := Option.bind_eq_some_iff.mp h
    have hmore : form.read (bs ++ more) = some (head, rest ++ more) := form.isLocal_read hread more
    show (MessagePack.form b).bind (·.read (bs ++ more)) = _
    rw [hform, Option.bind_some, hmore]

end MessagePack

namespace Offset

theorem isLocal_readField (d : Draft) (name : FieldName) : IsLocal (readField d name) := by
  intro bs d' rest h more
  obtain ⟨⟨head, left⟩, hhead, h⟩ := Option.bind_eq_some_iff.mp h
  obtain ⟨set, hset, heq⟩ := Option.bind_eq_some_iff.mp h
  obtain ⟨rfl, rfl⟩ := Prod.mk.inj (Option.some.inj heq)
  simp only [readField, MessagePack.isLocal_head? hhead more, Option.bind_eq_bind,
    Option.bind_some, hset, Option.pure_def]

theorem isLocal_readFields (d : Draft) (names : List FieldName) : IsLocal (readFields d names) := by
  intro bs d' rest h more
  induction names generalizing d bs with
  | nil =>
    obtain ⟨rfl, rfl⟩ := Prod.mk.inj (Option.some.inj h)
    rfl
  | cons name names ih =>
    obtain ⟨⟨next, left⟩, hfield, hrest⟩ := Option.bind_eq_some_iff.mp h
    rw [readFields, isLocal_readField d name hfield more]
    exact ih next hrest

/-! ## Records -/

/-- **A beginning of a record is refused**: its head is that of an array of four items, but the items
    are not all there. -/
theorem decode?_of_cut {o : SubscriberOffset} (h : Writable o) {bs cut : Bytes}
    (hwhole : bs ++ cut = encode o) (hcut : cut ≠ []) : decode? bs = none := by
  cases bs with
  | nil => rfl
  | cons b bs =>
    obtain ⟨rfl, hfields⟩ := List.cons.inj (hwhole.trans (encode_eq o))
    have hread := readFields_fieldBytes h []
    rw [List.append_nil, ← hfields] at hread
    rw [decode?_array, (isLocal_readFields _ _).of_cut hread hcut, Option.bind_none]

/-- **A record is read exactly when it is whole**: from its own bytes, from these and any others
    behind them, and from no proper beginning of them. -/
theorem record_read_when_whole {o : SubscriberOffset} (h : Writable o) :
    decode? (encode o) = some o
    ∧ (∀ more, decode? (encode o ++ more) = some o)
    ∧ ∀ bs, bs <+: encode o → bs ≠ encode o → decode? bs = none := by
  refine ⟨?_, decode?_encode h, ?_⟩
  · have hread := decode?_encode h []
    rwa [List.append_nil] at hread
  · rintro bs ⟨cut, hwhole⟩ hproper
    have hcut : cut ≠ [] := by
      rintro rfl
      rw [List.append_nil] at hwhole
      exact hproper hwhole
    exact decode?_of_cut h hwhole hcut

/-- A text of forty bytes has its length in a byte of its own, and a time takes eight; the last byte of
    the time may not be missing. -/
theorem record_of_forty_bytes :
    let o : SubscriberOffset :=
      ⟨"orders", "billing-and-shipping-in-the-northern-area", "42", 1717718400123⟩
    Writable o ∧ decode? (encode o ++ [0x94]) = some o
      ∧ (encode o).length = 63 ∧ decode? ((encode o).take 62) = none := by
  intro o
  have hw : Writable o := ⟨by unfold Fits; decide +kernel, by unfold Fits; decide +kernel,
    by unfold Fits; decide +kernel⟩
  obtain ⟨-, hmore, hcut⟩ := record_read_when_whole hw
  have hlength : (encode o).length = 63 := by decide +kernel
  refine ⟨hw, hmore [0x94], hlength, hcut _ (List.take_prefix 62 _) ?_⟩
  intro heq
  have := congrArg List.length heq
  rw [List.length_take, hlength] at this
  omega

end Offset

/-! ## Files -/

/-- **A file that was cut off is reported** and not taken for an offset, wherever it ends. -/
theorem FileOffsets.load_of_cut {store : FileOffsets} {topic : TopicName} {subscriber : SubscriberName}
    {o : SubscriberOffset} (h : Offset.Writable o) {bs cut : Bytes}
    (hwhole : bs ++ cut = Offset.encode o) (hcut : cut ≠ [])
    (hfile : store.place.read (Offset.fileName topic subscriber) = .ok bs) :
    store.load topic subscriber = .error (.unreadable topic subscriber "not an offset record") := by
  simp only [FileOffsets.load, hfile, Offset.decode?_of_cut h hwhole hcut]

end TopicRelay
