/-
  The rehearsed world heeds stops.

  Its stops come from its clock, and nothing else than a wait looks at the patience of a clock.  So it is
  enough to see that no change of a clock takes a stop back or gives it more patience (`Clock.Heeds`).
-/
import TopicRelay.Proofs.Monitor.Watching
import TopicRelay.Rehearsal.World

namespace TopicRelay.Rehearsal

open Monitor (HeedsStops)
open Wire (ConsumeRequests)

/-- What a wait is after a stop: over at once, or abandoned. -/
theorem Clock.wait_of_stop {c : Clock} (h : c.isStopRequested = true) (delay : Nat) :
    c.wait delay = if delay = 0 ∧ 0 < c.patience then (true, { c with patience := c.patience - 1 })
      else (false, c) := by
  have hover : c.isOver = true := by rw [isOver, h]; rfl
  rw [wait, if_pos hover]

/-- A stop that is requested at one time still is at another, and there is not more patience then. -/
def Clock.Heeds (c c' : Clock) : Prop :=
  c.isStopRequested = true → c'.isStopRequested = true ∧ c'.patience ≤ c.patience

namespace Clock.Heeds

theorem refl (c : Clock) : c.Heeds c := fun h => ⟨h, Nat.le_refl _⟩

theorem trans {c c' c'' : Clock} (h : c.Heeds c') (h' : c'.Heeds c'') : c.Heeds c'' :=
  fun hc => ⟨(h' (h hc).1).1, Nat.le_trans (h' (h hc).1).2 (h hc).2⟩

theorem useStopper (c : Clock) : c.Heeds c.useStopper := by
  intro h
  rw [Clock.useStopper]
  split
  · exact ⟨rfl, Nat.le_refl _⟩
  · exact ⟨h, Nat.le_refl _⟩

theorem wait (delay : Nat) (c : Clock) : c.Heeds (c.wait delay).2 := by
  intro h
  rw [wait_of_stop h]
  split
  · exact ⟨h, Nat.sub_le _ _⟩
  · exact ⟨h, Nat.le_refl _⟩

theorem waitForever (c : Clock) : c.Heeds c.waitForever := by
  intro h
  have hover : c.isOver = true := by rw [isOver, h]; rfl
  rw [Clock.waitForever]
  split
  · rw [if_pos hover]
    exact ⟨h, Nat.le_refl _⟩
  · exact ⟨h, Nat.le_refl _⟩

end Clock.Heeds

namespace World

theorem heeds_change (w : World) (c : Change) : w.clock.Heeds (w.change c).2.clock := by
  cases c with
  | stop => exact .useStopper _
  | release => exact fun h => ⟨h, Nat.le_refl _⟩
  | _ => exact .refl _

theorem heeds_changeAll (w : World) (changes : List Change) :
    w.clock.Heeds (w.changeAll changes).clock := by
  induction changes generalizing w with
  | nil => exact .refl _
  | cons c changes ih => exact (w.heeds_change c).trans (ih _)

theorem heeds_reach (w : World) (occasion : Occasion) (nth : Nat) :
    w.clock.Heeds (w.reach occasion nth).clock :=
  w.heeds_changeAll _

theorem heeds_begin (w : World) (call : Call) : w.clock.Heeds (w.begin call).clock := by
  have hreached := heeds_reach { w with calls := ⟨call, w.phase, w.clock.now⟩ :: w.calls } call.occasion
    (countCalls { w with calls := ⟨call, w.phase, w.clock.now⟩ :: w.calls } call.occasion)
  rw [begin]
  split
  · exact hreached.trans (.useStopper _)
  · exact hreached

theorem heeds_await (w : World) (cue : Cue) : w.clock.Heeds (w.await cue).2.clock := by
  rw [await]
  split
  · exact .waitForever _
  · split
    · exact .refl _
    · exact .wait _ _

theorem heeds_resolve (keys : TopicKeys) (w : World) : w.clock.Heeds (resolve keys w).2.clock := by
  have hbegun := w.heeds_begin (.resolve keys)
  have hawaited := heeds_await { w.begin (.resolve keys) with
    resolveCues := (w.begin (.resolve keys)).resolveCues.tail }
    ((w.begin (.resolve keys)).resolveCues.head?.getD .plain)
  have hdone := hbegun.trans hawaited
  rw [resolve]
  simp only
  split
  · exact hdone
  · split
    · exact hdone
    · exact hdone

theorem heeds_fetch (requests : ConsumeRequests) (w : World) :
    w.clock.Heeds (fetch requests w).2.clock := by
  have hbegun := w.heeds_begin (.fetch requests)
  have hawaited := heeds_await { w.begin (.fetch requests) with
    fetchCues := (w.begin (.fetch requests)).fetchCues.tail }
    ((w.begin (.fetch requests)).fetchCues.head?.getD .plain)
  have hdone := hbegun.trans hawaited
  rw [fetch]
  simp only
  split
  · exact hdone
  · split
    all_goals exact hdone

theorem heeds_shutdown (timeout : Nat) (w : World) : w.clock.Heeds (shutdown timeout w).clock := by
  refine (w.heeds_begin .shutdown).trans ?_
  exact fun h => ⟨h, Nat.le_refl _⟩

theorem heeds_publish (topic : TopicName) (payload : Bytes) (w : World) :
    w.clock.Heeds (publish topic payload w).2.clock := by
  rw [publish]
  split <;> exact .refl _

theorem heeds_commit (topic : TopicName) (subscriber : SubscriberName) (id : MessageId) (w : World) :
    w.clock.Heeds (commit topic subscriber id w).2.clock := by
  rw [commit]
  split <;> exact .refl _

/-- **The world heeds stops**, and its patience is that of its clock. -/
theorem heedsStops : HeedsStops surroundings fun w => w.clock.patience where
  kept := {
    enter := fun _ w => Clock.Heeds.refl w.clock
    resolve := heeds_resolve
    fetch := heeds_fetch
    arrive := fun w => heeds_reach { w with arrivals := w.arrivals + 1 } _ _
    shutdown := heeds_shutdown
    publish := heeds_publish
    offset := fun _ _ w => Clock.Heeds.refl w.clock
    commit := heeds_commit
    draw := fun _ w => Clock.Heeds.refl w.clock
    wait := fun delay w => Clock.Heeds.wait delay w.clock }
  noticed := by
    intro delay w w' hw hwait
    replace hwait : (w.clock.wait delay).1 = true ∧ { w with clock := (w.clock.wait delay).2 } = w' :=
      Prod.mk.inj hwait
    obtain ⟨hwhole, rfl⟩ := hwait
    show (w.clock.wait delay).2.patience < w.clock.patience
    rw [Clock.wait_of_stop hw] at hwhole ⊢
    split at hwhole
    · next hshort =>
      rw [if_pos hshort]
      exact Nat.sub_lt hshort.2 Nat.one_pos
    · cases hwhole

end World
end TopicRelay.Rehearsal
