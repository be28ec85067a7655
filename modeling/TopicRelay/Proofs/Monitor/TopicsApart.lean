/-
  A cycle relays its topics independently of each other.

  Take the elements of an answer that can all be handled.  Then, for stores that keep topics apart and
  keys that share no topic,

      alone      each key gets where its own elements would have brought it
      relayed    each key has its messages in the log and its last id committed, also when other
                 topics are missing or cannot be read and the cycle fails for that
      in order   another answer with the same elements for each key, in whatever order the keys come,
                 leaves the same log and the same offsets, and comes to the same summary or error

  What a cycle comes to is known from its intake (`Tracking.concluded`), and the intake from the keys
  one by one, so nothing is left to show but what `Independence` has.  The stores in memory keep topics
  apart (`Joint.keepsApart`): the numbers of their messages do not, but a topic has them as ids only.
-/
import TopicRelay.Proofs.Monitor.Independence
import TopicRelay.Proofs.Rehearsal.Joint

namespace TopicRelay.Monitor

open Wire (TopicMessages)

variable {σ τ ρ : Type} {env : Surroundings σ} {c : Cells σ τ ρ}

/-! ## What a cycle comes to -/

namespace Tracking

variable {t : Tracking} {i : Intake} {w w₁ w₂ : σ}

/-- The result of a cycle and the monitor after it, from what it took in and how the answer ended. -/
def concluded (t : Tracking) (i : Intake) : Except Halt Unit → Except Halt CycleSummary × Tracking
  | .error halt => (.error halt, { t with resolved := i.resolved })
  | .ok () => ((t.conclude i).1.mapError .failure, (t.conclude i).2)

theorem pollCycle_of_accepted (hne : t.resolved.isEmpty = false) {es : List TopicMessages}
    {ending : Except Halt Unit} (hfetch : env.fetch t.requests w = (⟨es, ending⟩, w₁))
    (hall : Intake.acceptAll env t.settings.subscriber es (.start t.resolved) w₁ = (.ok (), i, w₂)) :
    t.pollCycle env w = ((t.concluded i ending).1, (t.concluded i ending).2, w₂) := by
  rw [pollCycle, hne]
  simp only [Bool.false_eq_true, if_false, hfetch, Intake.receive, hall]
  rcases ending with halt | _ <;> rfl

/-- Whatever it comes to, a key that is still resolved is as far as it was taken in. -/
theorem narrower_concluded (t : Tracking) (i : Intake) (ending : Except Halt Unit) :
    Narrower (t.concluded i ending).2.resolved i.resolved := by
  rcases ending with halt | _
  · exact .refl _
  · exact (t.conclude_spec i).1

/-- A cycle fails if a topic could not be read. -/
theorem concluded_of_unreadable (t : Tracking) {key : TopicKey} (h : i.unreadable.contains key = true)
    (ending : Except Halt Unit) : ∃ halt, (t.concluded i ending).1 = .error halt := by
  rcases ending with halt | _
  · exact ⟨halt, rfl⟩
  · obtain ⟨a, ha⟩ := SortedMap.contains_iff.mp h
    have hsome : i.unreadable.isEmpty = false := SortedMap.isEmpty_of_get? _ ha
    rw [concluded, conclude]
    simp only
    split
    · exact ⟨_, rfl⟩
    · rw [hsome]
      exact ⟨_, rfl⟩

end Tracking

/-- **Topics are relayed independently.** -/
theorem topics_relayed_apart (hkeeps : KeepsApart env c) {t : Tracking}
    (hne : t.resolved.isEmpty = false) (hnone : Intake.NoneShared t.resolved) {es : List TopicMessages}
    {ending : Except Halt Unit} {w w₁ w₂ : σ} {i : Intake}
    (hfetch : env.fetch t.requests w = (⟨es, ending⟩, w₁))
    (hall : Intake.acceptAll env t.settings.subscriber es (.start t.resolved) w₁ = (.ok (), i, w₂)) :
    ∃ r t', t.pollCycle env w = (r, t', w₂)
      ∧ (∀ key, ∃ i' w', Intake.acceptAll env t.settings.subscriber
            (es.filter fun e => e.topic = key) (.start t.resolved) w₁ = (.ok (), i', w')
          ∧ Intake.Alike c t.settings.subscriber key i w₂ i' w')
      ∧ (∀ key p, t.resolved.get? key = some p →
          c.Relayed t.settings.subscriber p (Intake.soundOf key es) w₁ w₂
          ∧ ∀ p', t'.resolved.get? key = some p' →
            p'.lastMessageId = lastOf p.lastMessageId (Intake.soundOf key es))
      ∧ ((∃ e ∈ es, e.error.isSome = true ∧ e.isNotFound = false) → ∃ halt, r = .error halt)
      ∧ ∀ u u₁ es', env.fetch t.requests u = (⟨es', ending⟩, u₁) → c.Untouched env w₁ u₁ →
          (∀ key, (es'.filter fun e => e.topic = key) = es.filter fun e => e.topic = key) →
          ∃ u₂, t.pollCycle env u = (r, t', u₂) ∧ c.log u₂ = c.log w₂ ∧ c.row u₂ = c.row w₂ := by
  have hstart : Intake.NoneShared (Intake.start t.resolved).resolved := hnone
  refine ⟨_, _, Tracking.pollCycle_of_accepted hne hfetch hall, fun key => ?_, fun key p hp => ?_, ?_,
    fun u u₁ es' hfetch' hsame hparts => ?_⟩
  · exact Intake.acceptAll_alone hkeeps hall hstart (.refl c _ key _ w₁) rfl
  · obtain ⟨hp', hrelayed⟩ := Intake.acceptAll_relays hkeeps hall hstart hp
    refine ⟨hrelayed, fun p' hget => ?_⟩
    obtain ⟨q, hq, -, -, hlast⟩ := t.narrower_concluded i ending key p' hget
    rw [hlast, Option.some.inj (hq.symm.trans hp')]
    rfl
  · rintro ⟨e, he, hreported⟩
    exact t.concluded_of_unreadable
      ((Intake.acceptAll_noted_iff hall e.topic).2.mpr (Or.inr ⟨e, he, rfl, hreported⟩)) ending
  · obtain ⟨u₂, hall', hlog, hrow⟩ := Intake.acceptAll_reordered hkeeps hall hstart hsame hparts
    exact ⟨u₂, Tracking.pollCycle_of_accepted hne hfetch' hall', hlog, hrow⟩

/-! ## Stores in memory -/

/-- What is fetched has nothing to do with it. -/
theorem KeepsApart.withFetch (h : KeepsApart env c)
    (fetch : Wire.ConsumeRequests → σ → Delivery × σ) : KeepsApart { env with fetch := fetch } c :=
  ⟨fun w => ⟨(h.arrive w).stop, (h.arrive w).log, (h.arrive w).row⟩, h.published, h.publishes,
    h.committed, h.commits⟩

end TopicRelay.Monitor

namespace TopicRelay.Rehearsal

open Monitor (Cells Delivery Intake KeepsApart RelaySettings Surroundings Tracking)
open Wire (TopicMessages)

namespace Joint

/-- A topic is its payloads, if it is there, and else whether it could be; a row is the id in it. -/
def cells : Cells Joint (Bool × Option (List Bytes)) (Option MessageId) where
  log w topic := (w.own.autoCreate, (w.own.topics.get? topic).map (List.map (·.payload)))
  row w := w.offsets.get
  payloads x := x.2.getD []
  stored id := id

theorem payloads_cells (w : Joint) (topic : TopicName) :
    cells.payloads (cells.log w topic) = w.own.payloads topic := by
  show ((w.own.topics.get? topic).map (List.map (·.payload))).getD [] = _
  rw [MemoryLog.payloads, MemoryLog.messages]
  cases w.own.topics.get? topic <;> rfl

theorem accepts_of_cells {w u : Joint} {topic : TopicName} (h : cells.log u topic = cells.log w topic)
    (haccepts : w.own.Accepts topic) : u.own.Accepts topic := by
  obtain ⟨hauto, htopic⟩ := Prod.mk.inj h
  refine haccepts.imp hauto.trans fun hw => ?_
  rw [SortedMap.contains, ← Option.isSome_map (f := List.map (·.payload))] at hw ⊢
  rw [htopic]
  exact hw

theorem publish_cells {w w' : Joint} {topic : TopicName} {payload : Bytes} {id : MessageId}
    (h : Joint.publish topic payload w = (.ok id, w')) :
    w.own.Accepts topic ∧ (∀ t, t ≠ topic → cells.log w' t = cells.log w t)
      ∧ cells.log w' topic = (w.own.autoCreate, some (w.own.payloads topic ++ [payload]))
      ∧ w'.offsets = w.offsets := by
  rw [Joint.publish] at h
  split at h
  · cases h
  · next id own hpublish =>
    cases h
    obtain ⟨haccepts, hauto, hself, hothers⟩ := MemoryLog.publish_topics hpublish
    refine ⟨haccepts, fun t ht => ?_, Prod.ext hauto hself, rfl⟩
    refine Prod.ext hauto ?_
    show (own.topics.get? t).map (List.map (·.payload)) = (w.own.topics.get? t).map _
    rw [hothers t ht]

/-- **Stores in memory keep topics apart.** -/
theorem keepsApart (cut : Nat → Bytes → List Bytes) : KeepsApart (surroundings cut) cells where
  arrive _ := ⟨rfl, rfl, rfl⟩
  published {topic payload w id w'} h := by
    obtain ⟨-, hothers, hself, hoffsets⟩ := publish_cells h
    refine ⟨rfl, hothers, ?_, ?_⟩
    · show w'.offsets.get = w.offsets.get
      rw [hoffsets]
    · rw [hself, payloads_cells]
      rfl
  publishes {topic payload w id w' u} h hsame := by
    obtain ⟨haccepts, -, hself, -⟩ := publish_cells h
    obtain ⟨own, hpublish⟩ := MemoryLog.publish_of_accepts (accepts_of_cells hsame haccepts) payload
    have hagain : Joint.publish topic payload u
        = (.ok (MemoryLog.formatId u.own.next), { u with own := own }) := by
      rw [Joint.publish, hpublish]
    refine ⟨_, _, hagain, ?_⟩
    obtain ⟨-, -, hself', -⟩ := publish_cells hagain
    rw [hself', hself, ← payloads_cells, ← payloads_cells, hsame]
    exact congrArg (·, _) (Prod.mk.inj hsame).1
  committed {topic subscriber id w w'} h := by
    cases h
    refine ⟨rfl, rfl, fun t s hts => ?_, ?_⟩
    · exact MemoryOffsets.get_put_ne _ _ hts _
    · exact MemoryOffsets.get_put_self _ _ _ _ _
  commits {topic subscriber id w w' u} h _ := by
    cases h
    refine ⟨_, rfl, ?_⟩
    show (u.offsets.put 0 topic subscriber id).get topic subscriber
      = (w.offsets.put 0 topic subscriber id).get topic subscriber
    rw [MemoryOffsets.get_put_self, MemoryOffsets.get_put_self]

end Joint

namespace Mixed

def first : Message := ⟨MemoryLog.formatId 1, [1]⟩
def second : Message := ⟨MemoryLog.formatId 2, [2]⟩

/-- Two keys with topics of their own. -/
def tracking : Tracking :=
  ((Tracking.new { RelaySettings.default with topics := ["a", "b"] }).adopt "a" "t" none).adopt
    "b" "u" none

/-- Two messages of one key, and the other key cannot be read. -/
def elements : List TopicMessages :=
  [.ofMessages "a" [first], .storeFailure "b" "no disk", .ofMessages "a" [second]]

/-- The same with the other key in front. -/
def reordered : List TopicMessages :=
  [.storeFailure "b" "no disk", .ofMessages "a" [first], .ofMessages "a" [second]]

/-- The first fetch is answered in one order, all others in the other one. -/
def surroundings : Surroundings Joint :=
  { Joint.surroundings fun _ body => [body] with
    fetch := fun _ w => (⟨if w.fetches = 0 then elements else reordered, .ok ()⟩, w) }

/-- Empty stores, after a number of fetches. -/
def begin (fetches : Nat) : Joint :=
  ⟨.new .default (.new true), .new true, SortedMap.empty, fetches⟩

theorem noneShared_tracking : Intake.NoneShared tracking.resolved := by
  have hentries : tracking.resolved.entries
      = [("a", ⟨"t", "a", none, 0⟩), ("b", ⟨"u", "b", none, 0⟩)] := by decide +kernel
  rintro key key' p p' hp hp' hne
  rw [SortedMap.get?_eq_some_iff, hentries] at hp hp'
  simp only [List.mem_cons, List.not_mem_nil, or_false, Prod.mk.injEq] at hp hp'
  rcases hp with ⟨rfl, rfl⟩ | ⟨rfl, rfl⟩ <;> rcases hp' with ⟨rfl, rfl⟩ | ⟨rfl, rfl⟩
  · exact absurd rfl hne
  · decide
  · decide
  · exact absurd rfl hne

theorem filter_reordered (key : TopicKey) :
    (reordered.filter fun e => e.topic = key) = elements.filter fun e => e.topic = key := by
  by_cases ha : "a" = key
  · subst ha
    decide
  · by_cases hb : "b" = key
    · subst hb
      decide
    · simp [reordered, elements, TopicMessages.ofMessages, TopicMessages.storeFailure, ha, hb]

/-- In either order the cycle fails in the same way, and the key that could be read is relayed and
    committed. -/
theorem mixed_relayed_apart :
    (KeepsApart surroundings Joint.cells ∧ tracking.resolved.isEmpty = false
      ∧ Intake.NoneShared tracking.resolved
      ∧ ∃ i w, Intake.acceptAll surroundings tracking.settings.subscriber elements
          (.start tracking.resolved) (begin 0) = (.ok (), i, w))
    ∧ ∃ halt t' w u, tracking.pollCycle surroundings (begin 0) = (.error halt, t', w)
      ∧ tracking.pollCycle surroundings (begin 1) = (.error halt, t', u)
      ∧ w.own.payloads "a" = [[1], [2]] ∧ w.offsets.get "t" "runtime-monitor" = some second.id
      ∧ u.offsets.get = w.offsets.get ∧ ∀ topic, u.own.payloads topic = w.own.payloads topic := by
  have hkeeps : KeepsApart surroundings Joint.cells := (Joint.keepsApart _).withFetch _
  have hne : tracking.resolved.isEmpty = false := by decide +kernel
  obtain ⟨r, i, w, hall⟩ : ∃ r i w, Intake.acceptAll surroundings tracking.settings.subscriber elements
    (.start tracking.resolved) (begin 0) = (r, i, w) := ⟨_, _, _, rfl⟩
  have hok : (Intake.acceptAll surroundings tracking.settings.subscriber elements
    (.start tracking.resolved) (begin 0)).1 = .ok () := rfl
  obtain rfl : r = .ok () := by rw [← hok, hall]
  have hfetch : surroundings.fetch tracking.requests (begin 0) = (⟨elements, .ok ()⟩, begin 0) := rfl
  obtain ⟨r, t', hcycle, -, hrelayed, hfails, hagain⟩ :=
    Monitor.topics_relayed_apart hkeeps hne noneShared_tracking hfetch hall
  obtain ⟨u, hcycle', hlog, hrow⟩ :=
    hagain (begin 1) (begin 1) reordered rfl ⟨rfl, rfl, rfl⟩ filter_reordered
  obtain ⟨halt, rfl⟩ := hfails ⟨.storeFailure "b" "no disk", by decide, rfl, rfl⟩
  obtain ⟨hpublished, hcommitted⟩ := (hrelayed "a" ⟨"t", "a", none, 0⟩ (by decide +kernel)).1
  refine ⟨⟨hkeeps, hne, noneShared_tracking, i, w, hall⟩, halt, t', w, u, hcycle, hcycle', ?_, ?_, hrow,
    fun topic => ?_⟩
  · rw [← Joint.payloads_cells, hpublished]
    decide +kernel
  · exact (hcommitted fun _ h => by cases h).trans (by decide +kernel)
  · rw [← Joint.payloads_cells, ← Joint.payloads_cells, hlog]

end Mixed
end TopicRelay.Rehearsal
