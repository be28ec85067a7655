/-
  An answer that comes as a whole, while all is well.

  specification   each key is past its batch and has relayed it, and nothing else has happened
                  (`View.RelayedAll`, `Intake.TookAll`)
  for one key     `Intake.acceptAll_of_works`
  for all         one key after the other; none gets into the way of another, for their topics are apart
-/
import TopicRelay.Proofs.Monitor.Intake

namespace TopicRelay.Monitor

open Wire (TopicMessages)

variable {σ : Type} {env : Surroundings σ} {v : View σ} {accepted : TopicName → Prop}
  {ready : Nat → σ → Prop}

/-- Keys that have nothing in common. -/
def Apart (d e : TopicKey × TopicProgress) : Prop :=
  d.1 ≠ e.1 ∧ d.2.localTopic ≠ e.2.localTopic ∧ d.2.remoteTopic ≠ e.2.remoteTopic

/-- The messages of several keys were relayed, and nothing else happened. -/
structure View.RelayedAll (v : View σ) (subscriber : SubscriberName)
    (entries : List (TopicKey × TopicProgress)) (batch : TopicProgress → List Message) (w w' : σ) :
    Prop where
  remote : v.remote w' = v.remote w
  own : ∀ e ∈ entries,
    v.own w' e.2.localTopic = v.own w e.2.localTopic ++ (batch e.2).map (·.payload)
  ownOthers : ∀ t, (∀ e ∈ entries, e.2.localTopic ≠ t) → v.own w' t = v.own w t
  offset : ∀ e ∈ entries, v.offset w' e.2.remoteTopic subscriber
    = lastOf (v.offset w e.2.remoteTopic subscriber) (batch e.2)
  offsetOthers : ∀ t, (∀ e ∈ entries, e.2.remoteTopic ≠ t) →
    v.offset w' t subscriber = v.offset w t subscriber

namespace Intake

/-- Several keys with their messages were taken in. -/
structure TookAll (entries : List (TopicKey × TopicProgress)) (batch : TopicProgress → List Message)
    (i i' : Intake) : Prop where
  resolved : ∀ e ∈ entries, i'.resolved.get? e.1 = some (e.2.past (batch e.2))
  resolvedOthers : ∀ k, (∀ e ∈ entries, e.1 ≠ k) → i'.resolved.get? k = i.resolved.get? k
  received : ∀ e ∈ entries,
    i'.received.get? e.1 = some ((i.received.get? e.1).getD 0 + (batch e.2).length)
  receivedOthers : ∀ k, (∀ e ∈ entries, e.1 ≠ k) → i'.received.get? k = i.received.get? k
  notFound : i'.notFound = i.notFound
  unreadable : i'.unreadable = i.unreadable

theorem TookAll.nil (batch : TopicProgress → List Message) (i : Intake) : TookAll [] batch i i :=
  ⟨fun _ he => (List.not_mem_nil he).elim, fun _ _ => rfl, fun _ he => (List.not_mem_nil he).elim,
    fun _ _ => rfl, rfl, rfl⟩

/-- One key, and then others. -/
theorem TookAll.cons {e : TopicKey × TopicProgress} {entries : List (TopicKey × TopicProgress)}
    {batch : TopicProgress → List Message} {i i₁ i' : Intake} (hne : ∀ d ∈ entries, e.1 ≠ d.1)
    (h : Took e.1 e.2 (batch e.2) i i₁) (h' : TookAll entries batch i₁ i') :
    TookAll (e :: entries) batch i i' := by
  refine ⟨?_, ?_, ?_, ?_, h'.notFound.trans h.notFound, h'.unreadable.trans h.unreadable⟩
  · intro d hd
    rcases List.mem_cons.mp hd with rfl | hd
    · rw [h'.resolvedOthers d.1 fun x hx => (hne x hx).symm]
      exact h.self
    · exact h'.resolved d hd
  · intro k hk
    rw [h'.resolvedOthers k fun d hd => hk d (List.mem_cons_of_mem _ hd),
      h.others k (hk e List.mem_cons_self).symm]
  · intro d hd
    rcases List.mem_cons.mp hd with rfl | hd
    · rw [h'.receivedOthers d.1 fun x hx => (hne x hx).symm]
      exact h.received
    · rw [h'.received d hd, h.receivedOthers d.1 (hne d hd).symm]
  · intro k hk
    rw [h'.receivedOthers k fun d hd => hk d (List.mem_cons_of_mem _ hd),
      h.receivedOthers k (hk e List.mem_cons_self).symm]

/-- **All elements of all keys.** -/
theorem acceptAll_of_apart (hworks : Works env v accepted ready) (subscriber : SubscriberName)
    {entries : List (TopicKey × TopicProgress)} (hapart : entries.Pairwise Apart)
    {batch : TopicProgress → List Message} {reply : TopicKey × TopicProgress → List TopicMessages}
    (hreply : ∀ e ∈ entries, reply e ≠ [] ∧ (∀ x ∈ reply e, x.topic = e.1 ∧ x.error = none)
      ∧ (reply e).flatMap (·.messages) = batch e.2)
    {i : Intake} {w : σ} (hresolved : ∀ e ∈ entries, i.resolved.get? e.1 = some e.2)
    (haccepted : ∀ e ∈ entries, accepted e.2.localTopic)
    (hrow : ∀ e ∈ entries, ∀ id, e.2.lastMessageId = some id →
      v.offset w e.2.remoteTopic subscriber = some id)
    {n : Nat} (hready : ready (n + (entries.flatMap fun e => batch e.2).length) w) :
    ∃ i' w', acceptAll env subscriber (entries.flatMap reply) i w = (.ok (), i', w')
      ∧ ready n w' ∧ TookAll entries batch i i' ∧ v.RelayedAll subscriber entries batch w w' := by
  induction entries generalizing i w with
  | nil =>
    refine ⟨i, w, rfl, hready, .nil batch i, ⟨rfl, ?_, fun _ _ => rfl, ?_, fun _ _ => rfl⟩⟩
      <;> intro e he <;> cases he
  | cons e entries ih =>
    obtain ⟨hhead, htail⟩ := List.pairwise_cons.mp hapart
    obtain ⟨hne, hof, hmessages⟩ := hreply e List.mem_cons_self
    rw [List.flatMap_cons, List.length_append, Nat.add_comm (batch e.2).length, ← Nat.add_assoc]
      at hready
    -- the first key
    obtain ⟨i₁, w₁, hfirst, hready₁, htook, hrelayed⟩ := acceptAll_of_works hworks subscriber hne hof
      (hresolved e List.mem_cons_self) (haccepted e List.mem_cons_self)
      (by rw [hmessages]; exact hready) (hrow e List.mem_cons_self)
    rw [hmessages] at htook hrelayed
    -- it leaves the others where they were
    have hoffset : ∀ d ∈ entries, v.offset w₁ d.2.remoteTopic subscriber
        = v.offset w d.2.remoteTopic subscriber :=
      fun d hd => hrelayed.offsetOthers _ _ (Or.inl (hhead d hd).2.2.symm)
    obtain ⟨i', w', hrest, hready', htookAll, hrelayedAll⟩ := ih htail
      (fun d hd => hreply d (List.mem_cons_of_mem _ hd))
      (fun d hd => by
        rw [htook.others d.1 (hhead d hd).1.symm]
        exact hresolved d (List.mem_cons_of_mem _ hd))
      (fun d hd => haccepted d (List.mem_cons_of_mem _ hd))
      (fun d hd => by
        rw [hoffset d hd]
        exact hrow d (List.mem_cons_of_mem _ hd))
      hready₁
    refine ⟨i', w', ?_, hready', .cons (fun d hd => (hhead d hd).1) htook htookAll,
      ⟨hrelayedAll.remote.trans hrelayed.remote, ?_, ?_, ?_, ?_⟩⟩
    · rw [List.flatMap_cons, acceptAll_append hfirst]
      exact hrest
    · intro d hd
      rcases List.mem_cons.mp hd with rfl | hd
      · rw [hrelayedAll.ownOthers _ fun x hx => (hhead x hx).2.1.symm]
        exact hrelayed.own
      · rw [hrelayedAll.own d hd, hrelayed.ownOthers _ (hhead d hd).2.1.symm]
    · intro t ht
      rw [hrelayedAll.ownOthers t fun d hd => ht d (List.mem_cons_of_mem _ hd),
        hrelayed.ownOthers t (ht e List.mem_cons_self).symm]
    · intro d hd
      rcases List.mem_cons.mp hd with rfl | hd
      · rw [hrelayedAll.offsetOthers _ fun x hx => (hhead x hx).2.2.symm]
        exact hrelayed.offset
      · rw [hrelayedAll.offset d hd, hoffset d hd]
    · intro t ht
      rw [hrelayedAll.offsetOthers t fun d hd => ht d (List.mem_cons_of_mem _ hd),
        hrelayed.offsetOthers t subscriber (Or.inl (ht e List.mem_cons_self).symm)]

end Intake

/-! ## The cycle -/

namespace Tracking

/-- A monitor after a whole answer. -/
def pastAll (t : Tracking) (batch : TopicProgress → List Message) : Tracking :=
  { t with resolved := t.resolved.map fun _ p => { p.past (batch p) with notFoundCount := 0 } }

/-- What a whole answer came to. -/
def summaryOf (t : Tracking) (batch : TopicProgress → List Message) : CycleSummary where
  messageCount := (t.resolved.values.flatMap batch).length
  drain := t.resolved.values.any fun p => t.settings.batchLimit.toNat ≤ (batch p).length
  topicsNotFound := []

/-- The intake of a whole answer, as a map. -/
theorem tookAll_maps {t : Tracking} {batch : TopicProgress → List Message} {i : Intake}
    (h : Intake.TookAll t.resolved.entries batch (.start t.resolved) i) :
    i.resolved = t.resolved.map (fun _ p => p.past (batch p))
    ∧ i.received = t.resolved.map fun _ p => (batch p).length := by
  have hnone : ∀ k, t.resolved.get? k = none → ∀ e ∈ t.resolved.entries, e.1 ≠ k := by
    rintro k hk e he rfl
    rw [SortedMap.get?_eq_some_iff.mpr he] at hk
    cases hk
  constructor
  · refine SortedMap.ext_get? fun k => ?_
    rw [SortedMap.get?_map]
    cases hk : t.resolved.get? k with
    | none =>
      rw [h.resolvedOthers k (hnone k hk)]
      exact hk
    | some p => exact h.resolved (k, p) (SortedMap.get?_eq_some_iff.mp hk)
  · refine SortedMap.ext_get? fun k => ?_
    rw [SortedMap.get?_map]
    cases hk : t.resolved.get? k with
    | none =>
      rw [h.receivedOthers k (hnone k hk)]
      rfl
    | some p =>
      rw [h.received (k, p) (SortedMap.get?_eq_some_iff.mp hk)]
      exact congrArg some (Nat.zero_add _)

/-- The conclusions from a whole answer. -/
theorem conclude_of_tookAll {t : Tracking} {batch : TopicProgress → List Message} {i : Intake}
    (h : Intake.TookAll t.resolved.entries batch (.start t.resolved) i) :
    t.conclude i = (.ok (t.summaryOf batch), t.pastAll batch) := by
  obtain ⟨hresolved, hreceived⟩ := tookAll_maps h
  have hnotFound : i.notFound = SortedMap.empty := h.notFound
  have hunreadable : i.unreadable = SortedMap.empty := h.unreadable
  have hcount : countMissing i.notFound i.resolved = (t.pastAll batch).resolved := by
    refine SortedMap.ext_get? fun k => ?_
    rw [countMissing, hnotFound, hresolved, pastAll, SortedMap.get?_map, SortedMap.get?_map,
      SortedMap.get?_map, Option.map_map]
    rfl
  have hvalues : i.received.values = t.resolved.values.map fun p => (batch p).length := by
    rw [hreceived, SortedMap.values, SortedMap.values, SortedMap.map, List.map_map, List.map_map]
    rfl
  have hsummary : CycleSummary.ofIntake t.settings.batchLimit.toNat i = t.summaryOf batch := by
    rw [CycleSummary.ofIntake, summaryOf, hvalues, hnotFound, List.any_map, List.length_flatMap]
    rfl
  rw [conclude, hcount, hnotFound, hunreadable]
  show (Except.ok (CycleSummary.ofIntake t.settings.batchLimit.toNat i), _) = _
  rw [hsummary]
  rfl

/-- A cycle with nothing to do comes to what an answer for no keys does. -/
theorem pollCycle_of_isEmpty (env : Surroundings σ) {t : Tracking} (h : t.resolved.isEmpty = true)
    (batch : TopicProgress → List Message) (w : σ) :
    t.pollCycle env w = (.ok (t.summaryOf batch), t.pastAll batch, w) := by
  rw [pollCycle, if_pos h]
  rw [SortedMap.isEmpty, List.isEmpty_iff] at h
  have hsame : t.resolved.map (fun _ p => { p.past (batch p) with notFoundCount := 0 })
      = t.resolved := by
    refine SortedMap.ext_entries ?_
    show t.resolved.entries.map _ = t.resolved.entries
    rw [h]
    rfl
  rw [summaryOf, pastAll, hsame, SortedMap.values, h]
  rfl

/-- **A cycle with a whole answer.** -/
theorem pollCycle_of_whole (hworks : Works env v accepted ready) {t : Tracking}
    (hapart : t.resolved.entries.Pairwise Apart)
    (batch : TopicProgress → List Message) {reply : TopicKey × TopicProgress → List TopicMessages}
    (hreply : ∀ e ∈ t.resolved.entries, reply e ≠ []
      ∧ (∀ x ∈ reply e, x.topic = e.1 ∧ x.error = none)
      ∧ (reply e).flatMap (·.messages) = batch e.2)
    (haccepted : ∀ e ∈ t.resolved.entries, accepted e.2.localTopic) {w w₁ : σ}
    (hrow : ∀ e ∈ t.resolved.entries,
      v.offset w e.2.remoteTopic t.settings.subscriber = e.2.lastMessageId)
    {n : Nat} (hready : ready (n + (t.resolved.entries.flatMap fun e => batch e.2).length) w₁)
    (hfetch : env.fetch t.requests w = (⟨t.resolved.entries.flatMap reply, .ok ()⟩, w₁))
    (hremote : v.remote w₁ = v.remote w) (hown : v.own w₁ = v.own w)
    (hoffset : v.offset w₁ = v.offset w) (hne : t.resolved.isEmpty = false) :
    ∃ w', t.pollCycle env w = (.ok (t.summaryOf batch), t.pastAll batch, w') ∧ ready n w'
      ∧ v.RelayedAll t.settings.subscriber t.resolved.entries batch w w' := by
  obtain ⟨i, w', hall, hready', htook, hrelayed⟩ := Intake.acceptAll_of_apart hworks
    t.settings.subscriber hapart hreply (i := .start t.resolved) (w := w₁)
    (fun e he => SortedMap.get?_eq_some_iff.mpr he) haccepted
    (fun e he id hid => by rw [hoffset, hrow e he, hid]) hready
  refine ⟨w', ?_, hready', ?_⟩
  · rw [pollCycle_of_ok hne hfetch hall rfl, conclude_of_tookAll htook]
    rfl
  · obtain ⟨hr, ho, hos, hf, hfs⟩ := hrelayed
    rw [hremote] at hr
    rw [hown] at ho hos
    rw [hoffset] at hf hfs
    exact ⟨hr, ho, hos, hf, hfs⟩

end Tracking
end TopicRelay.Monitor
