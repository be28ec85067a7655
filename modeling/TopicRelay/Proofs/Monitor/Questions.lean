/-
  What a monitor asks of the remote.

    resolve   for the topics of the keys that wait, if there are any
    cycle     for the messages of the keys that are resolved, if there are any

  specification   the questions in the record of a run are those that each thing the monitor did was to
                  ask, by what it knew when it began with it (`asked_performAll`)
  crux            each begins with its question, and nothing else that it calls is one

  Nothing is assumed of the surroundings.
-/
import TopicRelay.Proofs.Monitor.Bookkeeping

namespace TopicRelay.Monitor

open Wire (ConsumeRequests TopicMessages)

variable {σ : Type} {env : Surroundings σ}

/-- What a remote can be asked, but for a shutdown. -/
inductive Question where
  | topics (keys : TopicKeys)
  | messages (requests : ConsumeRequests)
deriving DecidableEq

/-- The question that an event is. -/
def Event.question? : Event → Option Question
  | .called (.resolve keys _) => some (.topics keys)
  | .called (.fetch requests) => some (.messages requests)
  | _ => none

/-- The questions in a record. -/
def asked (es : List Event) : List Question := es.filterMap Event.question?

/-- What is asked, if something is done by a monitor that knows this much. -/
def Deed.questions (t : Tracking) : Deed → List Question
  | .resolve => if t.unresolved.isEmpty then [] else [.topics t.unresolved]
  | .cycle => if t.resolved.isEmpty then [] else [.messages t.requests]
  | .restart => []

theorem mem_questions_resolve_iff {t : Tracking} {q : Question} :
    q ∈ Deed.resolve.questions t ↔ t.unresolved.isEmpty = false ∧ q = .topics t.unresolved := by
  rw [Deed.questions]
  cases t.unresolved.isEmpty <;> simp

theorem mem_questions_cycle_iff {t : Tracking} {q : Question} :
    q ∈ Deed.cycle.questions t ↔ t.resolved.isEmpty = false ∧ q = .messages t.requests := by
  rw [Deed.questions]
  cases t.resolved.isEmpty <;> simp

theorem mem_questions {t : Tracking} {deed : Deed} {q : Question} (h : q ∈ deed.questions t) :
    (t.unresolved.isEmpty = false ∧ q = .topics t.unresolved)
      ∨ (t.resolved.isEmpty = false ∧ q = .messages t.requests) := by
  cases deed with
  | restart => cases h
  | resolve => exact Or.inl (mem_questions_resolve_iff.mp h)
  | cycle => exact Or.inr (mem_questions_cycle_iff.mp h)

/-- What is asked, if one thing is done after the other. -/
def Deed.allQuestions (env : Surroundings σ) : Tracking × σ → List Deed → List Question
  | _, [] => []
  | x, deed :: deeds => deed.questions x.1 ++ allQuestions env (deed.perform env x) deeds

/-! ## One thing -/

theorem asked_note (r : Recorded σ) (c : Call) (w : σ) :
    asked (r.note c w).events = asked r.events ++ (Event.called c).question?.toList := by
  rw [Recorded.events_note, asked, List.filterMap_append, ← asked, List.filterMap_cons]
  cases (Event.called c).question? <;> rfl

/-- **A resolution** asks once, if a key is waiting. -/
theorem asked_resolveTopics {t t' : Tracking} {r r' : Recorded σ} {x : Except Halt Nat}
    (h : t.resolveTopics env.recorded r = (x, t', r')) :
    asked r'.events = asked r.events ++ Deed.questions t .resolve := by
  rw [Deed.questions]
  cases hempty : t.unresolved.isEmpty with
  | true =>
    rw [Tracking.resolveTopics, if_pos hempty] at h
    cases h
    exact (List.append_nil _).symm
  | false =>
    have hquestion : ∀ {answer r₁}, env.recorded.resolve t.unresolved r = (answer, r₁) →
        asked r₁.events = asked r.events ++ [.topics t.unresolved] := by
      rintro answer r₁ ⟨⟩
      exact asked_note r (.resolve t.unresolved _) _
    have hload : ∀ {topic subscriber y} {s s' : Recorded σ},
        env.recorded.offset topic subscriber s = (y, s') → asked s'.events = asked s.events := by
      rintro topic subscriber y s s' ⟨⟩
      exact (asked_note s _ _).trans (List.append_nil _)
    rw [Tracking.resolveTopics, if_neg (Bool.eq_false_iff.mp hempty)] at h
    split at h
    · next heq =>
      cases h
      exact hquestion heq
    · next mapping r₁ heq =>
      rcases hall : Tracking.adoptAll env.recorded 0 mapping.entries t r₁ with ⟨y, t₁, r₂⟩
      simp only [hall] at h
      cases h
      refine Tracking.adoptAll_keeps
        (P := fun _ s => asked s.events = asked r.events ++ [.topics t.unresolved])
        (fun _ _ _ _ _ _ hs heq => (hload heq).trans hs)
        (fun _ _ _ _ _ _ hs _ heq => (hload heq).trans hs) (hquestion heq) hall

/-- While an answer is handled, nothing is asked. -/
theorem asked_acceptAll {subscriber : SubscriberName} {es : List TopicMessages} {i i' : Intake}
    {r r' : Recorded σ} {x : Except RelayError Unit}
    (h : Intake.acceptAll env.recorded subscriber es i r = (x, i', r')) :
    asked r'.events = asked r.events := by
  refine Intake.acceptAll_keeps (P := fun _ s => asked s.events = asked r.events)
    (fun _ s hs => ?_) (fun e _ j s y j' s' hs haccept => ?_) rfl h
  · exact ((asked_note s (.handle s.upcoming.head?) (env.arrive s.world)).trans
      (List.append_nil _)).trans hs
  · refine Intake.accept_keeps (P := fun s => asked s.events = asked r.events) ?_ ?_ hs haccept
    · rintro topic payload s y s' hs ⟨⟩
      exact ((asked_note s _ _).trans (List.append_nil _)).trans hs
    · rintro topic id s y s' hs ⟨⟩
      exact ((asked_note s _ _).trans (List.append_nil _)).trans hs

/-- **A cycle** asks once, if a key is resolved. -/
theorem asked_pollCycle {t t' : Tracking} {r r' : Recorded σ} {x : Except Halt CycleSummary}
    (h : t.pollCycle env.recorded r = (x, t', r')) :
    asked r'.events = asked r.events ++ Deed.questions t .cycle := by
  rw [Deed.questions]
  cases hempty : t.resolved.isEmpty with
  | true =>
    rw [Tracking.pollCycle, if_pos hempty] at h
    cases h
    exact (List.append_nil _).symm
  | false =>
    rcases Tracking.pollCycle_cases h with ⟨hnone, -, -, -⟩ | ⟨d, r₁, y, i, ⟨⟩, hall, -⟩
    · rw [hempty] at hnone
      cases hnone
    · exact (asked_acceptAll hall).trans
        (asked_note r (.fetch t.requests) (env.fetch t.requests r.world).2)

/-! ## A run -/

/-- **What is asked in a run.** -/
theorem asked_performAll (env : Surroundings σ) (deeds : List Deed) (t : Tracking) (r : Recorded σ) :
    asked (Deed.performAll env.recorded (t, r) deeds).2.events
      = asked r.events ++ Deed.allQuestions env (t, r.world) deeds := by
  induction deeds generalizing t r with
  | nil => exact (List.append_nil _).symm
  | cons deed deeds ih =>
    have hone : asked (deed.perform env.recorded (t, r)).2.events
        = asked r.events ++ deed.questions t := by
      cases deed with
      | resolve =>
        rcases hresolve : t.resolveTopics env.recorded r with ⟨y, t', r'⟩
        rw [Deed.perform, hresolve]
        exact asked_resolveTopics hresolve
      | cycle =>
        rcases hcycle : t.pollCycle env.recorded r with ⟨y, t', r'⟩
        rw [Deed.perform, hcycle]
        exact asked_pollCycle hcycle
      | restart => exact (List.append_nil _).symm
    -- the record makes no difference to what is known afterwards
    have hsame : deed.perform env (t, r.world) = ((deed.perform env.recorded (t, r)).1,
        (deed.perform env.recorded (t, r)).2.world) := Deed.performAll_recorded env [deed] t r
    rw [Deed.allQuestions, hsame, ← List.append_assoc, ← hone]
    exact ih _ _

/-- Each of these questions is asked by a monitor that got there. -/
theorem exists_of_mem_allQuestions {deeds : List Deed} {x : Tracking × σ} {q : Question}
    (h : q ∈ Deed.allQuestions env x deeds) :
    ∃ earlier deed, earlier ++ [deed] <+: deeds
      ∧ q ∈ deed.questions (Deed.performAll env x earlier).1 := by
  induction deeds generalizing x with
  | nil => cases h
  | cons deed deeds ih =>
    rcases List.mem_append.mp h with h | h
    · exact ⟨[], deed, List.prefix_append [deed] deeds, h⟩
    · obtain ⟨earlier, deed', hprefix, hq⟩ := ih h
      exact ⟨deed :: earlier, deed', List.cons_prefix_cons.mpr ⟨rfl, hprefix⟩, hq⟩

end TopicRelay.Monitor
