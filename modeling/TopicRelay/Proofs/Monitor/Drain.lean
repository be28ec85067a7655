/-
  When a monitor polls again at once.

  A cycle asks for another one if some key gave as many messages as it was asked for.  The record of the
  cycle shows this (`Drained`): there are elements of the key, without an error, that have so many.

      entered POLLING   fetch   .. handle .. handle ..
                        |-----------------------------|   at least the limit, for some key

  What a cycle counts while it handles an answer is never more than what came (`Tallied`).
-/
import Mathlib.Algebra.Ring.Nat
import TopicRelay.Proofs.Monitor.Recording

namespace TopicRelay.Monitor

open Wire (ConsumeRequests TopicMessages)

/-- How many messages come for a key with a call. -/
def Call.given (key : TopicKey) : Call → Nat
  | .handle (some e) => if e.topic = key ∧ e.error = none then e.messages.length else 0
  | _ => 0

/-- Since polling was entered, as many messages came for some key as were asked for. -/
def Drained (es : List Event) : Prop :=
  ∃ (before : List Event) (calls : List Call) (requests : ConsumeRequests) (key : TopicKey)
      (request : Wire.ConsumeRequest),
    es = before ++ .entered .polling :: calls.map .called ∧ .fetch requests ∈ calls
    ∧ requests.get? key = some request
    ∧ request.limit.toNat ≤ (calls.map (Call.given key)).sum

/-- Since polling was entered, some things were called: this was fetched, and at least so many messages
    came for each key. -/
def Tally (before : List Event) (requests : ConsumeRequests) (count : TopicKey → Nat)
    (es : List Event) : Prop :=
  ∃ calls : List Call, es = before ++ .entered .polling :: calls.map .called
    ∧ .fetch requests ∈ calls ∧ ∀ key, count key ≤ (calls.map (Call.given key)).sum

section Tally

variable {before es : List Event} {requests : ConsumeRequests} {count count' : TopicKey → Nat}

theorem Tally.mono (h : Tally before requests count es) (hcount : ∀ key, count' key ≤ count key) :
    Tally before requests count' es := by
  obtain ⟨calls, hes, hfetch, hle⟩ := h
  exact ⟨calls, hes, hfetch, fun key => Nat.le_trans (hcount key) (hle key)⟩

theorem Tally.concat (h : Tally before requests count es) (c : Call) :
    Tally before requests (fun key => count key + c.given key) (es ++ [.called c]) := by
  obtain ⟨calls, rfl, hfetch, hle⟩ := h
  refine ⟨calls ++ [c], ?_, List.mem_append_left _ hfetch, ?_⟩
  · rw [List.append_assoc, List.cons_append, List.map_append]
    rfl
  · intro key
    rw [List.map_append, List.sum_append, List.map_singleton, List.sum_singleton]
    exact Nat.add_le_add_right (hle key) _

end Tally

variable {σ : Type} {env : Surroundings σ}

/-- What an answer has counted so far has come. -/
structure Tallied (before : List Event) (requests : ConsumeRequests) (i : Intake) (r : Recorded σ) :
    Prop where
  tally : Tally before requests (fun key => (i.received.get? key).getD 0) r.events
  counted : ∀ key n, i.received.get? key = some n → requests.contains key = true
  known : ∀ key p, i.resolved.get? key = some p → requests.contains key = true

/-- **An element** counts no more than it brings. -/
theorem Tallied.accept {before : List Event} {requests : ConsumeRequests} {i i' : Intake}
    {r r' : Recorded σ} (h : Tallied before requests i r) {e : TopicMessages}
    (hnext : r.upcoming.head? = some e) {subscriber : SubscriberName} {x : Except RelayError Unit}
    (haccept : Intake.accept env.recorded subscriber e i (env.recorded.arrive r) = (x, i', r')) :
    Tallied before requests i' r' := by
  have hevents : (env.recorded.arrive r).events = r.events ++ [.called (.handle (some e))] := by
    rw [← hnext]
    rfl
  have hcame : Tally before requests
      (fun key => (i.received.get? key).getD 0 + (Call.handle (some e)).given key) r'.events := by
    refine Intake.accept_keeps (P := fun s => Tally before requests
      (fun key => (i.received.get? key).getD 0 + (Call.handle (some e)).given key) s.events)
      ?_ ?_ (hevents ▸ h.tally.concat _) haccept
    · rintro topic payload s y s' hs ⟨⟩
      exact (hs.concat _).mono fun key => Nat.le_add_right _ _
    · rintro topic id s y s' hs ⟨⟩
      exact (hs.concat _).mono fun key => Nat.le_add_right _ _
  have hknown : ∀ key p, i'.resolved.get? key = some p → requests.contains key = true := by
    intro key p' hp'
    obtain ⟨p, hp, -⟩ := Intake.exists_of_topics (Intake.accept_topics haccept) hp'
    exact h.known key p hp
  rcases Intake.accept_received haccept with hsame | ⟨hsound, ⟨p, hp⟩, hcounted⟩
  · refine ⟨hcame.mono fun key => ?_, ?_, hknown⟩
    · rw [hsame]
      exact Nat.le_add_right _ _
    · rw [hsame]
      exact h.counted
  · refine ⟨hcame.mono fun key => ?_, ?_, hknown⟩
    · rw [hcounted, Intake.count]
      by_cases hkey : key = e.topic
      · rw [hkey, SortedMap.get?_insert_self, Call.given, if_pos ⟨rfl, hsound⟩]
        exact Nat.le_refl _
      · rw [SortedMap.get?_insert_ne i.received hkey]
        exact Nat.le_add_right _ _
    · intro key n hn
      by_cases hkey : key = e.topic
      · rw [hkey]
        exact h.known e.topic p hp
      · rw [hcounted, Intake.count, SortedMap.get?_insert_ne i.received hkey] at hn
        exact h.counted key n hn

/-- **A cycle that asks for another one has drained a topic.** -/
theorem Drained.of_pollCycle {t t' : Tracking} {r r' : Recorded σ} {s : CycleSummary}
    (hcycle : t.pollCycle env.recorded (env.recorded.enter .polling r) = (.ok s, t', r'))
    (hdrain : s.drain = true) : Drained r'.events := by
  rcases Tracking.pollCycle_cases hcycle with
    ⟨-, hidle, -, -⟩ | ⟨d, r₁, x, i, hfetch, hall, ⟨⟨halt, hc⟩, -⟩ | ⟨-, -, hs, -⟩⟩
  · cases hidle
    cases hdrain
  · cases hc
  · have hbegin : Tallied r.events t.requests (.start t.resolved) r₁ ∧ r₁.upcoming = d.elements := by
      obtain ⟨hd, rfl⟩ := Prod.mk.inj hfetch
      refine ⟨⟨⟨[.fetch t.requests], ?_, List.mem_singleton_self _, ?_⟩, ?_, ?_⟩,
        congrArg Delivery.elements hd⟩
      · exact List.append_assoc _ _ _
      · intro key
        exact Nat.zero_le _
      · intro key n hn
        cases hn
      · intro key p hp
        exact Tracking.contains_requests.mpr ⟨p, hp⟩
    have hdone : Tallied r.events t.requests i r' :=
      Intake.acceptAll_recorded (fun hnext h haccept => h.accept hnext haccept) hbegin.2 hbegin.1 hall
    have hsummary : (t.conclude i).1 = .ok s := by
      cases hconclude : (t.conclude i).1 with
      | error e =>
        rw [hconclude] at hs
        cases hs
      | ok s' =>
        rw [hconclude] at hs
        cases hs
        rfl
    rw [Tracking.conclude_ok hsummary] at hdrain
    obtain ⟨n, hn, hlimit⟩ := List.any_eq_true.mp hdrain
    obtain ⟨⟨key, _⟩, hmem, rfl⟩ := List.mem_map.mp hn
    have hreceived := SortedMap.get?_eq_some_iff.mpr hmem
    obtain ⟨p, hp⟩ := Tracking.contains_requests.mp (hdone.counted key _ hreceived)
    obtain ⟨calls, hevents, hasked, hcame⟩ := hdone.tally
    refine ⟨r.events, calls, t.requests, key, _, hevents, hasked, Tracking.get?_requests hp, ?_⟩
    have hkey : (i.received.get? key).getD 0 ≤ _ := hcame key
    rw [hreceived] at hkey
    exact Nat.le_trans (of_decide_eq_true hlimit) hkey

end TopicRelay.Monitor
