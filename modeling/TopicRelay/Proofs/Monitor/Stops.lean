/-
  Nothing is relayed after a stop.

      before the first step      the remote is told to shut down, and that is all
      in a wait                  what was waited for is abandoned, and then the same
      between two elements       the next one is not looked at, and then the same
      at a failure               it is not reported, and then the same

  specification   what a watch shows when a stop is requested at any moment, or noticed (`TakesStops`)
  safety          comes from the parts of a step (`Tracking.goOn_watched`) and from the look at the end
                  whether a stop is there (`StaysStopped.of_halted`)
  progress        in a world that heeds stops each step takes the monitor nearer to its end, once a stop
                  is there (`Tracking.step_of_stop`)
-/
import TopicRelay.Proofs.Monitor.LifeCycle
import TopicRelay.Proofs.Monitor.Watching
import TopicRelay.Proofs.Rehearsal.Heeding

namespace TopicRelay.Monitor

variable {σ : Type} {env : Surroundings σ}

/-! ## After a request -/

/-- Twice the same state, in which a stop is requested and there is only so much patience. -/
def Impatient (env : Surroundings σ) (patience : σ → Nat) (n : Nat) (_ : Phase) (w v : σ) : Prop :=
  w = v ∧ env.isStopRequested w = true ∧ patience w ≤ n

theorem HeedsStops.simulates {patience : σ → Nat} (h : HeedsStops env patience) (n : Nat) :
    Simulation env env (Impatient env patience n) fun _ _ => True := by
  have hnext : ∀ {w w' : σ}, (env.isStopRequested w = true →
      env.isStopRequested w' = true ∧ patience w' ≤ patience w) →
      env.isStopRequested w = true ∧ patience w ≤ n → env.isStopRequested w' = true ∧ patience w' ≤ n :=
    fun hkept hw => ⟨(hkept hw.1).1, Nat.le_trans (hkept hw.1).2 hw.2⟩
  constructor
  case isStopRequested =>
    rintro w _ ⟨rfl, -⟩
    rfl
  case drain => exact fun _ _ _ _ _ => trivial
  case enter =>
    rintro p q w _ - - ⟨rfl, hw⟩
    exact ⟨rfl, hnext (h.kept.enter q w) hw⟩
  case resolve =>
    rintro keys p w _ - ⟨rfl, hw⟩
    exact ⟨rfl, rfl, hnext (h.kept.resolve keys w) hw⟩
  case offset =>
    rintro topic subscriber p w _ - ⟨rfl, hw⟩
    exact ⟨rfl, rfl, hnext (h.kept.offset topic subscriber w) hw⟩
  case wait =>
    rintro delay p w _ - ⟨rfl, hw⟩
    exact ⟨rfl, rfl, hnext (h.kept.wait delay w) hw⟩
  case draw =>
    rintro limit p w _ - ⟨rfl, hw⟩
    exact ⟨rfl, rfl, hnext (h.kept.draw limit w) hw⟩
  case fetch =>
    rintro requests w _ ⟨rfl, hw⟩
    exact ⟨rfl, rfl, hnext (h.kept.fetch requests w) hw⟩
  case arrive =>
    rintro w _ ⟨rfl, hw⟩
    exact ⟨rfl, hnext (h.kept.arrive w) hw⟩
  case publish =>
    rintro topic payload w _ ⟨rfl, hw⟩
    exact ⟨rfl, rfl, hnext (h.kept.publish topic payload w) hw⟩
  case commit =>
    rintro topic subscriber id w _ ⟨rfl, hw⟩
    exact ⟨rfl, rfl, hnext (h.kept.commit topic subscriber id w) hw⟩

/-! ## Moments after a request -/

/-- A watch that shows a stop, once it was requested, at every later moment. -/
structure Watched.Latched (env : Surroundings σ) (w : σ) (r : Watched σ) : Prop where
  world : r.world = w
  latched : ∀ before m after, r.moments = before ++ m :: after → env.isStopRequested m.before = true →
    env.isStopRequested r.world = true ∧ ∀ x ∈ m :: after, env.isStopRequested x.after = true

namespace Watched.Latched

variable {w w' : σ} {r : Watched σ}

theorem begin (w : σ) : Latched env w (.begin w) where
  world := rfl
  latched _ _ _ h _ := absurd h.symm (List.append_ne_nil_of_right_ne_nil _ (List.cons_ne_nil _ _))

theorem add (h : Latched env w r) (a : Act)
    (hkept : env.isStopRequested w = true → env.isStopRequested w' = true) :
    Latched env w' (r.add a w') := by
  obtain ⟨rfl, hlatched⟩ := h
  refine ⟨rfl, fun before m after hsplit hm => ?_⟩
  rcases split_concat hsplit with ⟨-, rfl, rfl⟩ | ⟨earlier, hearlier, rfl⟩
  · have hnow := hkept hm
    refine ⟨hnow, fun x hx => ?_⟩
    cases List.mem_singleton.mp hx
    exact hnow
  · obtain ⟨hworld, hall⟩ := hlatched before m earlier hearlier hm
    have hnow := hkept hworld
    refine ⟨hnow, fun x hx => ?_⟩
    rcases List.mem_cons.mp hx with rfl | hx
    · exact hall _ List.mem_cons_self
    · rcases List.mem_append.mp hx with hx | hx
      · exact hall x (List.mem_cons_of_mem _ hx)
      · cases List.mem_singleton.mp hx
        exact hnow

theorem of_mem (h : Latched env w r) {m : Moment σ} (hm : m ∈ r.moments)
    (hrequested : env.isStopRequested m.before = true) : env.isStopRequested r.world = true := by
  obtain ⟨before, after, hsplit⟩ := List.append_of_mem hm
  exact (h.latched before m after hsplit hrequested).1

/-- **A watch cannot be noticed**, and shows a request at every moment after it. -/
theorem simulates
    (h : env.EveryCall fun w w' => env.isStopRequested w = true → env.isStopRequested w' = true) :
    Simulation env env.watched (fun _ => Latched env) fun _ _ => True := by
  constructor
  case isStopRequested =>
    rintro w r ⟨rfl, -⟩
    rfl
  case drain => exact fun _ _ _ _ _ => trivial
  case enter =>
    rintro p q w r - - ⟨rfl, hr⟩
    exact add ⟨rfl, hr⟩ _ (h.enter q _)
  case resolve =>
    rintro keys p w r - ⟨rfl, hr⟩
    exact ⟨rfl, add ⟨rfl, hr⟩ _ (h.resolve keys _)⟩
  case offset =>
    rintro topic subscriber p w r - ⟨rfl, hr⟩
    exact ⟨rfl, add ⟨rfl, hr⟩ _ (h.offset topic subscriber _)⟩
  case wait =>
    rintro delay p w r - ⟨rfl, hr⟩
    exact ⟨rfl, add ⟨rfl, hr⟩ _ (h.wait delay _)⟩
  case draw =>
    rintro limit p w r - ⟨rfl, hr⟩
    exact ⟨rfl, add ⟨rfl, hr⟩ _ (h.draw limit _)⟩
  case fetch =>
    rintro requests w r ⟨rfl, hr⟩
    exact ⟨rfl, add ⟨rfl, hr⟩ _ (h.fetch requests _)⟩
  case arrive =>
    rintro w r ⟨rfl, hr⟩
    exact add ⟨rfl, hr⟩ _ (h.arrive _)
  case publish =>
    rintro topic payload w r ⟨rfl, hr⟩
    exact ⟨rfl, add ⟨rfl, hr⟩ _ (h.publish topic payload _)⟩
  case commit =>
    rintro topic subscriber id w r ⟨rfl, hr⟩
    exact ⟨rfl, add ⟨rfl, hr⟩ _ (h.commit topic subscriber id _)⟩

end Watched.Latched

/-! ## What a watch shows -/

/-- What a monitor does at the end. -/
def Outcome.acts : Outcome → List Act
  | .stopped => [.enter .stopping, .shutdown, .enter .stopped]
  | .failed _ => [.enter .failed]

/-- What is shown by the watch of a monitor that has come to an outcome, or goes on. -/
structure TakesStops (env : Surroundings σ) (outcome? : Option Outcome) (r : Watched σ) : Prop where
  /-- After a stop was noticed there is only the end. -/
  noticed : ∀ before m after, r.moments = before ++ m :: after → m.Notices env →
    outcome? = some .stopped ∧ after.map (·.act) = Outcome.stopped.acts
  /-- After an answer broke off because of a stop, the remote is not asked for anything, unless something
      fails on this side before that is noticed. -/
  broken_off : ∀ before m after, r.moments = before ++ m :: after → m.act = .fetch true →
    (∃ x ∈ after, x.act.isFailure = true) ∨ ∀ x ∈ after, x.act.isQuestion = false
  /-- When the monitor begins to stop, what was published and committed is there, and stays there: also
      everything else that is changed neither by a phase that is entered nor by the shutdown. -/
  kept : ∀ before m after, r.moments = before ++ m :: after → m.act = .enter .stopping →
    ∀ {β : Type} (view : σ → β), (∀ p w, view (env.enter p w) = view w) →
      (∀ timeout w, view (env.shutdown timeout w) = view w) → view r.world = view m.before
  /-- It ends as its outcome says. -/
  ended : ∀ outcome, outcome? = some outcome → outcome.acts <:+ r.moments.map (·.act)

/-- Whether it belongs to the end. -/
def Act.isEnding : Act → Bool
  | .enter _ | .shutdown => true
  | _ => false

theorem Act.isQuestion_of_isEnding {a : Act} (h : a.isEnding = true) : a.isQuestion = false := by
  cases a <;> first | rfl | cases h

theorem Moment.not_notices_of_isEnding {m : Moment σ} (h : m.act.isEnding = true) :
    ¬ m.Notices env := by
  obtain ⟨act, before, after⟩ := m
  cases act <;> first | exact id | cases h

/-- What is done at the end is to enter phases and to tell the remote. -/
theorem Outcome.isEnding_of_mem_acts {outcome : Outcome} {a : Act} (h : a ∈ outcome.acts) :
    a.isEnding = true := by
  have hall : outcome.acts.all Act.isEnding = true := by cases outcome <;> rfl
  exact List.all_eq_true.mp hall a h

/-- Where something stands in a list that was put together: in the one part or in the other. -/
theorem split_append {α : Type} {xs ys before after : List α} {x : α}
    (h : xs ++ ys = before ++ x :: after) :
    (∃ earlier, xs = before ++ x :: earlier ∧ after = earlier ++ ys)
      ∨ ∃ later, before = xs ++ later ∧ ys = later ++ x :: after := by
  rcases List.append_eq_append_iff.mp h with ⟨later, hbefore, hys⟩ | ⟨rest, hxs, hrest⟩
  · exact Or.inr ⟨later, hbefore, hys⟩
  · cases rest with
    | nil => exact Or.inr ⟨[], by rw [hxs, List.append_nil, List.append_nil], hrest.symm⟩
    | cons y earlier =>
      obtain ⟨rfl, hafter⟩ := List.cons.inj hrest
      exact Or.inl ⟨earlier, hxs, hafter⟩

namespace TakesStops

variable {r : Watched σ}

/-- A monitor that goes on has noticed nothing. -/
theorem of_relaying (h : Relaying env False r.moments) : TakesStops env none r where
  noticed before m after hsplit hnotices :=
    absurd hnotices (h.unnoticed m (by rw [hsplit]; exact List.mem_append_right _ List.mem_cons_self))
  broken_off before m after hsplit hfetch :=
    Or.inl ((h.answered before m after hsplit hfetch).resolve_right fun hpending => hpending.1)
  kept before m after hsplit hstopping := by
    have hrunning := h.running m (by rw [hsplit]; exact List.mem_append_right _ List.mem_cons_self)
    rw [hstopping] at hrunning
    cases hrunning
  ended outcome houtcome := by cases houtcome

/-- A stop that is noticed is noticed last. -/
theorem noticed_last {halt : Halt} {before after : List (Moment σ)} {m : Moment σ}
    (h : Stepped env (.error halt : Except Halt Unit) (before ++ m :: after)) (hm : m.Notices env) :
    halt.isStop = true ∧ after = [] := by
  rcases h with h | ⟨hstop, earlier, x, hsplit, -, hearlier⟩
  · exact absurd hm (h.unnoticed m (List.mem_append_right _ List.mem_cons_self))
  · rcases split_concat hsplit.symm with ⟨-, -, rfl⟩ | ⟨rest, rfl, -⟩
    · exact ⟨hstop, rfl⟩
    · have hunnoticed : ¬ m.Notices env := by
        rcases hearlier with hearlier | ⟨hearlier, -⟩
        · exact hearlier.unnoticed m (List.mem_append_right _ List.mem_cons_self)
        · exact hearlier.unnoticed m (List.mem_append_right _ List.mem_cons_self)
      exact absurd hm hunnoticed

/-- After an answer that broke off, elements are handled, or something fails. -/
theorem handled_last {halt : Halt} {before after : List (Moment σ)} {m : Moment σ}
    (h : Stepped env (.error halt : Except Halt Unit) (before ++ m :: after)) (hm : m.act = .fetch true) :
    (∃ x ∈ after, x.act.isFailure = true) ∨ ∀ x ∈ after, x.act.isQuestion = false := by
  have hquestion : ∀ a : Act, a.isHandling = true → a.isQuestion = false := by
    intro a ha
    cases a <;> first | rfl | cases ha
  rcases h with h | ⟨-, earlier, x, hsplit, hx, hearlier⟩
  · exact (h.answered before m after rfl hm).imp_right fun hrest x hx => hquestion _ (hrest.2 x hx)
  · rcases split_concat hsplit.symm with ⟨-, rfl, -⟩ | ⟨rest, rfl, rfl⟩
    · rw [Moment.Notices, hm] at hx
      cases hx
    · have hrest : (∃ y ∈ rest, y.act.isFailure = true)
          ∨ (∀ y ∈ rest, y.act.isHandling = true) ∧ x.act = .handle := by
        rcases hearlier with hearlier | ⟨hearlier, hhandle⟩
        · exact Or.inl ((hearlier.answered before m rest rfl hm).resolve_right fun hc => hc.1)
        · exact (hearlier.answered before m rest rfl hm).imp_right fun hc => ⟨hc.2, hhandle⟩
      rcases hrest with ⟨y, hy, hfailed⟩ | ⟨hhandling, hhandle⟩
      · exact Or.inl ⟨y, List.mem_append_left _ hy, hfailed⟩
      · refine Or.inr fun y hy => ?_
        rcases List.mem_append.mp hy with hy | hy
        · exact hquestion _ (hhandling y hy)
        · cases List.mem_singleton.mp hy
          rw [hhandle]
          rfl

/-- Until the end the monitor does not begin to stop. -/
theorem not_stopping {halt : Halt} {ms : List (Moment σ)}
    (h : Stepped env (.error halt : Except Halt Unit) ms) : ∀ m ∈ ms, m.act.isStopping = false := by
  intro m hm
  rcases h with h | ⟨-, earlier, x, rfl, hx, hearlier⟩
  · exact h.running m hm
  · rcases List.mem_append.mp hm with hm | hm
    · rcases hearlier with hearlier | ⟨hearlier, -⟩
      · exact hearlier.running m hm
      · exact hearlier.running m hm
    · cases List.mem_singleton.mp hm
      exact hx.isStopping

/-- A monitor begins to stop with the first thing that it does at the end. -/
theorem nil_of_stopping {outcome : Outcome} {later acts : List Act}
    (h : outcome.acts = later ++ .enter .stopping :: acts) : later = [] := by
  cases later with
  | nil => rfl
  | cons a later =>
    have hmem : .enter .stopping ∈ outcome.acts.tail := by
      rw [h]
      exact List.mem_append_right _ List.mem_cons_self
    cases outcome with
    | stopped => exact absurd hmem (by decide)
    | failed e => cases hmem

/-- **The end**, when it follows on something that has halted. -/
theorem of_ended {halt : Halt} {outcome : Outcome} {tail : List (Moment σ)} {w : σ}
    (h : Stepped env (.error halt : Except Halt Unit) r.moments)
    (htail : tail.map (·.act) = outcome.acts) (hstop : halt.isStop = true → outcome = .stopped)
    (hkept : ∀ first rest, tail = first :: rest → first.act = .enter .stopping →
      ∀ {β : Type} (view : σ → β), (∀ p w, view (env.enter p w) = view w) →
        (∀ timeout w, view (env.shutdown timeout w) = view w) → view w = view first.before) :
    TakesStops env (some outcome) ⟨w, r.moments ++ tail⟩ := by
  have hending : ∀ x ∈ tail, x.act.isEnding = true := by
    intro x hx
    have hmem : x.act ∈ outcome.acts := by
      rw [← htail]
      exact List.mem_map_of_mem hx
    exact Outcome.isEnding_of_mem_acts hmem
  constructor
  case noticed =>
    intro before m after hsplit hm
    rcases split_append hsplit with ⟨earlier, hms, rfl⟩ | ⟨later, -, hlater⟩
    · rw [hms] at h
      obtain ⟨hstopped, rfl⟩ := noticed_last h hm
      obtain rfl := hstop hstopped
      exact ⟨rfl, htail⟩
    · have hend := hending m (by rw [hlater]; exact List.mem_append_right _ List.mem_cons_self)
      exact absurd hm (Moment.not_notices_of_isEnding hend)
  case broken_off =>
    intro before m after hsplit hm
    rcases split_append hsplit with ⟨earlier, hms, rfl⟩ | ⟨later, -, hlater⟩
    · rw [hms] at h
      rcases handled_last h hm with ⟨x, hx, hfailed⟩ | hquestion
      · exact Or.inl ⟨x, List.mem_append_left _ hx, hfailed⟩
      · refine Or.inr fun x hx => ?_
        rcases List.mem_append.mp hx with hx | hx
        · exact hquestion x hx
        · exact Act.isQuestion_of_isEnding (hending x hx)
    · have hend := hending m (by rw [hlater]; exact List.mem_append_right _ List.mem_cons_self)
      rw [hm] at hend
      cases hend
  case kept =>
    intro before m after hsplit hm β view henter hshutdown
    rcases split_append hsplit with ⟨earlier, hms, rfl⟩ | ⟨later, rfl, hlater⟩
    · have hrunning := not_stopping h m (by rw [hms]; exact List.mem_append_right _ List.mem_cons_self)
      rw [hm] at hrunning
      cases hrunning
    · have hfirst : later = [] := by
        have hcut : outcome.acts = later.map (·.act) ++ .enter .stopping :: after.map (·.act) := by
          rw [← htail, hlater, List.map_append, List.map_cons, hm]
        apply List.map_eq_nil_iff.mp
        exact nil_of_stopping hcut
      subst hfirst
      exact hkept m after hlater hm view henter hshutdown
  case ended =>
    rintro _ ⟨⟩
    rw [List.map_append, htail]
    exact List.suffix_append _ _

/-- A failure is reported only if no stop is there. -/
theorem failure?_eq_some {halt : Halt} {w : σ} {e : RelayError}
    (h : Tracking.failure? env halt w = some e) :
    halt.isStop = false ∧ env.isStopRequested w = false := by
  rw [Tracking.failure?.eq_def] at h
  split at h
  · cases h
  · cases h
  · next hstopped =>
    split at h
    · cases h
    · next hgoes => exact ⟨decide_eq_false hstopped, Bool.eq_false_iff.mpr hgoes⟩

end TakesStops

/-- What is shown besides if no call takes a stop back: a request is there at every moment after it, and
    then the monitor does not fail. -/
structure StaysStopped (env : Surroundings σ) (outcome? : Option Outcome) (r : Watched σ) : Prop
    extends TakesStops env outcome? r where
  latched : r.Latched env r.world
  never_failed : (∃ m ∈ r.moments, env.isStopRequested m.before = true) →
    ∀ outcome, outcome? = some outcome → outcome = .stopped

namespace StaysStopped

variable {r : Watched σ}

/-- A monitor that goes on has noticed nothing. -/
theorem of_relaying (h : Relaying env False r.moments) (hr : r.Latched env r.world) :
    StaysStopped env none r :=
  ⟨.of_relaying h, hr, fun _ outcome houtcome => by cases houtcome⟩

/-- **The end of a monitor that has halted.**  If a stop is there, its outcome is that. -/
theorem of_halted {halt : Halt} {w : σ} (h : Stepped env (.error halt : Except Halt Unit) r.moments)
    (hr : r.Latched env w) (timeout : Nat)
    (hkept : env.EveryCall fun w w' => env.isStopRequested w = true → env.isStopRequested w' = true) :
    ∃ outcome r', Tracking.finish env timeout halt w = (outcome, r'.world)
      ∧ Tracking.finish env.watched timeout halt r = (outcome, r')
      ∧ StaysStopped env (some outcome) r' := by
  obtain rfl := hr.world
  have hsame : Tracking.failure? env.watched halt r = Tracking.failure? env halt r.world := rfl
  rw [Tracking.finish, Tracking.finish, hsame]
  cases hcase : Tracking.failure? env halt r.world with
  | none =>
    have hstopping := hr.add (.enter .stopping) (hkept.enter .stopping r.world)
    have htold := hstopping.add .shutdown (hkept.shutdown timeout _)
    have hend := htold.add (.enter .stopped) (hkept.enter .stopped _)
    refine ⟨.stopped, _, rfl, rfl, ?_, hend, fun _ _ houtcome => (Option.some.inj houtcome).symm⟩
    show TakesStops env _ ⟨_, ((r.moments ++ [_]) ++ [_]) ++ [_]⟩
    rw [List.append_assoc, List.append_assoc]
    refine .of_ended h rfl (fun _ => rfl) ?_
    rintro first rest ⟨⟩ - β view henter hshutdown
    exact (henter _ _).trans ((hshutdown _ _).trans (henter _ _))
  | some e =>
    obtain ⟨hnostop, hgoes⟩ := TakesStops.failure?_eq_some hcase
    have hend := hr.add (.enter .failed) (hkept.enter .failed r.world)
    refine ⟨.failed e, _, rfl, rfl, ?_, hend, ?_⟩
    · refine .of_ended h rfl ?_ ?_
      · intro hisStop
        rw [hnostop] at hisStop
        cases hisStop
      · rintro first rest ⟨⟩ hfirst
        cases hfirst
    · -- with a request at any moment there would be one now
      rintro ⟨m, hm, hrequested⟩
      rcases List.mem_append.mp hm with hm | hm
      · rw [hr.of_mem hm hrequested] at hgoes
        cases hgoes
      · cases List.mem_singleton.mp hm
        rw [hrequested] at hgoes
        cases hgoes

end StaysStopped

/-! ## Until the end -/

namespace Tracking

variable {patience : σ → Nat}

/-- How many more steps a monitor takes at most, once a stop is there. -/
def stepsLeft (patience : Nat) : Stage → Nat
  | .starting => 2 * patience + 3
  | .polling => 2 * patience + 2
  | .resting _ => 2 * patience + 1

/-- An element that comes after a stop ends the answer. -/
theorem acceptAll_of_stop (h : HeedsStops env patience) {subscriber : SubscriberName}
    {es : List Wire.TopicMessages} {i i' : Intake} {w w' : σ} (hw : env.isStopRequested w = true)
    (hall : Intake.acceptAll env subscriber es i w = (.ok (), i', w')) : i' = i := by
  cases es with
  | nil =>
    cases hall
    rfl
  | cons e es =>
    have harrived := (h.kept.arrive w hw).1
    rw [Intake.acceptAll, Intake.accept, if_pos harrived] at hall
    cases hall

/-- A cycle that begins after a stop drains nothing. -/
theorem drain_of_stop (h : HeedsStops env patience) {t t' : Tracking} {w w' : σ} {s : CycleSummary}
    (hw : env.isStopRequested w = true) (hcycle : t.pollCycle env w = (.ok s, t', w')) :
    s.drain = false := by
  rcases pollCycle_cases hcycle with ⟨-, hs, -, -⟩ | ⟨d, w₁, r₁, i, hfetch, hall, hend⟩
  · cases hs
    rfl
  · have hw₁ := (h.kept.fetch t.requests w hw).1
    rw [hfetch] at hw₁
    rcases hend with ⟨⟨halt, hhalt⟩, -⟩ | ⟨rfl, -, hs, -⟩
    · cases hhalt
    · obtain rfl := acceptAll_of_stop h hw₁ hall
      have hsummary : (t.conclude (.start t.resolved)).1 = .ok s := by
        cases hc : (t.conclude (.start t.resolved)).1 with
        | error e =>
          rw [hc] at hs
          cases hs
        | ok s' =>
          rw [hc] at hs
          cases hs
          rfl
      rw [conclude_ok hsummary]
      rfl

/-- A wait after a stop takes up some patience. -/
theorem waitThen_of_stop (h : HeedsStops env patience) {delay n : Nat} {stage next : Stage}
    {t t' : Tracking} {w w' : σ} (hw : env.isStopRequested w = true ∧ patience w ≤ n)
    (hwait : waitThen env delay stage t w = (.ok next, t', w')) : next = stage ∧ patience w' < n := by
  rw [waitThen] at hwait
  split at hwait
  · cases hwait
  · next hone =>
    cases hwait
    exact ⟨rfl, Nat.lt_of_lt_of_le (h.noticed hw.1 hone) hw.2⟩

theorem startStep_of_stop (h : HeedsStops env patience) {next : Stage} {t t' : Tracking} {w w' : σ}
    (hw : env.isStopRequested w = true) (hstep : startStep env t w = (.ok next, t', w')) :
    stepsLeft (patience w') next < stepsLeft (patience w) .starting := by
  have hsim := h.simulates (patience w)
  have hresolved := (hsim.resolveTopics (p := .starting) (by decide) t ⟨rfl, hw, Nat.le_refl _⟩).2.2
  rw [startStep] at hstep
  rcases hresolve : t.resolveTopics env w with ⟨(e | _) | n, t₁, w₁⟩
  · rw [hresolve] at hstep hresolved
    have hrested := (hsim.restAfter (p := .starting) (by decide) e t₁ hresolved).2.2
    rcases hrest : t₁.restAfter env e w₁ with ⟨_ | delay, t₂, w₂⟩
    · simp only [hrest] at hstep
      cases hstep
    · simp only [hrest] at hstep hrested
      obtain ⟨rfl, hless⟩ := waitThen_of_stop h hrested.2 hstep
      simp only [stepsLeft]
      omega
  · rw [hresolve] at hstep
    cases hstep
  · rw [hresolve] at hresolved
    simp only [hresolve] at hstep
    split at hstep
    · obtain ⟨rfl, hless⟩ := waitThen_of_stop h hresolved.2 hstep
      simp only [stepsLeft]
      omega
    · cases hstep
      have hle : patience w' ≤ patience w := hresolved.2.2
      simp only [stepsLeft]
      omega

theorem pollStep_of_stop (h : HeedsStops env patience) {next : Stage} {t t' : Tracking} {w w' : σ}
    (hw : env.isStopRequested w = true) (hstep : pollStep env t w = (.ok next, t', w')) :
    stepsLeft (patience w') next < stepsLeft (patience w) .polling := by
  have hsim := h.simulates (patience w)
  have hentered := hsim.enter (p := .starting) (q := .polling) (by decide)
    (fun hagain => by cases hagain) ⟨rfl, hw, Nat.le_refl _⟩
  have hpolled := (hsim.pollCycle t hentered).2.2
  rw [pollStep] at hstep
  rcases hcycle : t.pollCycle env (env.enter .polling w) with ⟨(e | _) | s, t₁, w₁⟩
  · rw [hcycle] at hstep hpolled
    have hrested := (hsim.restAfter (p := .polling) (by decide) e t₁ hpolled).2.2
    rcases hrest : t₁.restAfter env e w₁ with ⟨_ | delay, t₂, w₂⟩
    · simp only [hrest] at hstep
      cases hstep
    · simp only [hrest] at hstep hrested
      cases hstep
      have hle : patience w' ≤ patience w := hrested.2.2
      simp only [stepsLeft]
      omega
  · rw [hcycle] at hstep
    cases hstep
  · rw [hcycle] at hstep hpolled
    cases hstep
    rw [drain_of_stop h hentered.2.1 hcycle]
    have hle : patience w' ≤ patience w := hpolled.2.2
    simp only [Bool.false_eq_true, if_false, stepsLeft]
    omega

theorem restStep_of_stop (h : HeedsStops env patience) {delay : Nat} {next : Stage} {t t' : Tracking}
    {w w' : σ} (hw : env.isStopRequested w = true)
    (hstep : restStep env delay t w = (.ok next, t', w')) :
    stepsLeft (patience w') next < stepsLeft (patience w) (.resting delay) := by
  have hsim := h.simulates (patience w)
  have hentered := hsim.enter (p := .polling) (q := .backoff) (by decide)
    (fun _ hagain => by cases hagain) ⟨rfl, hw, Nat.le_refl _⟩
  have hresolved := (hsim.resolveTopics (p := .backoff) (by decide) t hentered).2.2
  have hwaits : ∃ t₁, waitThen env delay .polling t₁ (t.resolveTopics env (env.enter .backoff w)).2.2
      = (.ok next, t', w') := by
    rw [restStep] at hstep
    rcases hresolve : t.resolveTopics env (env.enter .backoff w) with ⟨(e | _) | n, t₁, w₁⟩
    · rw [hresolve] at hstep
      exact ⟨t₁, hstep⟩
    · rw [hresolve] at hstep
      cases hstep
    · rw [hresolve] at hstep
      exact ⟨t₁, hstep⟩
  obtain ⟨t₁, hwait⟩ := hwaits
  obtain ⟨rfl, hless⟩ := waitThen_of_stop h hresolved.2 hwait
  simp only [stepsLeft]
  omega

/-- **A step after a stop** takes the monitor nearer to its end. -/
theorem step_of_stop (h : HeedsStops env patience) {stage next : Stage} {t t' : Tracking} {w w' : σ}
    (hw : env.isStopRequested w = true) (hstep : step env stage t w = (.ok next, t', w')) :
    stepsLeft (patience w') next < stepsLeft (patience w) stage := by
  cases stage with
  | starting => exact startStep_of_stop h hw hstep
  | polling => exact pollStep_of_stop h hw hstep
  | resting delay => exact restStep_of_stop h hw hstep

/-- A stop stays requested through a step, however it ends. -/
theorem isStopRequested_step (h : HeedsStops env patience) (stage : Stage) (t : Tracking) {w : σ}
    (hw : env.isStopRequested w = true) : env.isStopRequested (step env stage t w).2.2 = true := by
  have hsim := h.simulates (patience w)
  have hnow : ∀ p, Impatient env patience (patience w) p w w := fun _ => ⟨rfl, hw, Nat.le_refl _⟩
  have hdue : Simulation.Due (Impatient env patience (patience w)) (fun _ _ => True) (.ok stage) w w := by
    cases stage with
    | starting => exact hnow .starting
    | polling => exact Or.inl (hnow .starting)
    | resting delay => exact hnow .polling
  have hstep := (hsim.step stage t hdue).2.2
  cases hresult : (step env stage t w).1 with
  | ok next =>
    rw [hresult] at hstep
    obtain ⟨p, -, hstop, -⟩ := hstep.of_ok
    exact hstop
  | error halt =>
    rw [hresult] at hstep
    obtain ⟨p, ⟨-, hstop, -⟩, -⟩ := hstep.of_error
    exact hstop

/-- **After a stop a monitor halts**, within as many steps as are left. -/
theorem goOn_of_stop (h : HeedsStops env patience) {fuel : Nat} {stage : Stage} {t : Tracking} {w : σ}
    (hw : env.isStopRequested w = true) (hfuel : stepsLeft (patience w) stage ≤ fuel) :
    ∃ halt t' w', goOn env fuel stage t w = (.error halt, t', w') ∧ env.isStopRequested w' = true := by
  induction fuel generalizing stage t w with
  | zero => cases stage <;> cases hfuel
  | succ fuel ih =>
    have hkept := isStopRequested_step h stage t hw
    rw [goOn]
    rcases hstep : step env stage t w with ⟨halt | next, t₁, w₁⟩
    · rw [hstep] at hkept
      exact ⟨halt, t₁, w₁, rfl, hkept⟩
    · rw [hstep] at hkept
      have hless := step_of_stop h hw hstep
      exact ih hkept (by omega)

/-! ## A run -/

/-- **The watch of a run**, after any number of steps. -/
theorem soFar_watched
    (h : env.EveryCall fun w w' => env.isStopRequested w = true → env.isStopRequested w' = true)
    (timeout fuel : Nat) (t : Tracking) (w : σ) :
    ∃ outcome? t' r, soFar env timeout fuel t w = (outcome?, t', r.world)
      ∧ soFar env.watched timeout fuel t (.begin w) = (outcome?, t', r)
      ∧ StaysStopped env outcome? r := by
  have hnothing : Relaying env False (Watched.begin w).moments := .nil
  have hbegin : (Watched.begin w).Latched env w := .begin w
  have hsame : (env.watched.isStopRequested (.begin w) || env.watched.isDeserted (.begin w))
      = (env.isStopRequested w || env.isDeserted w) := rfl
  rw [soFar, soFar, hsame]
  split
  · have hhalted : Stepped env (.error .abandoned : Except Halt Unit) (Watched.begin w).moments :=
      Or.inl (hnothing.mono False.elim)
    obtain ⟨outcome, r, hw, hr, hstays⟩ := StaysStopped.of_halted hhalted hbegin timeout h
    rw [hw, hr]
    exact ⟨_, _, r, rfl, rfl, hstays⟩
  · have hentered : Relaying env False (env.watched.enter .starting (.begin w)).moments :=
      hnothing.enter rfl
    have hstarting := hbegin.add (.enter .starting) (h.enter .starting w)
    cases t.obstacle? with
    | some e =>
      have hhalted : Stepped env (.error (.failure e) : Except Halt Unit)
          (env.watched.enter .starting (.begin w)).moments := Or.inl (hentered.mono False.elim)
      obtain ⟨outcome, r, hw, hr, hstays⟩ := StaysStopped.of_halted hhalted hstarting timeout h
      replace hr : finish env.watched timeout (.failure e) (env.watched.enter .starting (.begin w)) = _ := hr
      simp only [hw, hr]
      exact ⟨_, _, r, rfl, rfl, hstays⟩
    | none =>
      have hgone := (Watched.Latched.simulates h).goOn fuel .starting t
        (w := env.enter .starting w) (v := env.watched.enter .starting (.begin w)) hstarting
      obtain ⟨next, ⟨t₁, w₁⟩, ⟨_, r₁⟩, hw, hr, rfl, hdue⟩ := hgone.exists
      have hstepped := goOn_watched hentered hr
      rw [hw] at hdue
      simp only [hw, hr]
      cases next with
      | ok stage =>
        obtain ⟨p, hnow⟩ := hdue.of_ok
        have hworld : r₁.world = w₁ := hnow.world
        subst hworld
        exact ⟨none, t₁, r₁, rfl, rfl, .of_relaying hstepped hnow⟩
      | error halt =>
        obtain ⟨p, hnow, -⟩ := hdue.of_error
        obtain ⟨outcome, r, hw, hr, hstays⟩ := StaysStopped.of_halted hstepped hnow timeout h
        simp only [hw, hr]
        exact ⟨_, _, r, rfl, rfl, hstays⟩

/-- A run that has a stop at its beginning does not begin. -/
theorem soFar_of_stop (timeout fuel : Nat) (t : Tracking) {w : σ} (hw : env.isStopRequested w = true) :
    ∃ r, soFar env.watched timeout fuel t (.begin w) = (some .stopped, t, r)
      ∧ r.moments.map (·.act) = Outcome.stopped.acts := by
  have hover : (env.watched.isStopRequested (.begin w) || env.watched.isDeserted (.begin w)) = true := by
    show (env.isStopRequested w || env.isDeserted w) = true
    rw [hw]
    rfl
  rw [soFar, if_pos hover]
  exact ⟨_, rfl, rfl⟩

/-- A run that goes on although a stop is there ends as stopped, within as many steps as are left. -/
theorem run_of_stop {patience : σ → Nat} (h : HeedsStops env patience) {timeout fuel : Nat}
    {t t' : Tracking} {w w' : σ} (hsofar : soFar env timeout fuel t w = (none, t', w'))
    (hw' : env.isStopRequested w' = true) :
    ∃ t'' w'', run env timeout (fuel + stepsLeft (patience w') .starting) t w
      = some (.stopped, t'', w'') := by
  rw [soFar] at hsofar
  rw [run]
  split at hsofar
  · cases hsofar
  · next hgoes =>
    rw [if_neg hgoes]
    cases hobstacle : t.obstacle? with
    | some e =>
      rw [hobstacle] at hsofar
      cases hsofar
    | none =>
      simp only [hobstacle] at hsofar
      rcases hgone : goOn env fuel .starting t (env.enter .starting w) with ⟨halt | stage, t₁, w₁⟩
      · rw [hgone] at hsofar
        cases hsofar
      · rw [hgone] at hsofar
        cases hsofar
        have hleft : stepsLeft (patience w') stage ≤ stepsLeft (patience w') .starting := by
          cases stage <;> simp only [stepsLeft] <;> omega
        obtain ⟨halt, t₂, w₂, hhalts, hstop⟩ := goOn_of_stop h hw' hleft
        have hall : goOn env (fuel + stepsLeft (patience w') .starting) .starting t
            (env.enter .starting w) = (.error halt, t₂, w₂) := by
          rw [goOn_add, hgone]
          exact hhalts
        have hnone : failure? env halt w₂ = none := by
          rw [failure?.eq_def]
          split
          · rfl
          · rfl
          · rw [if_pos hstop]
        simp only [relay_eq_goOn, hall, Option.map_some, finish, hnone]
        exact ⟨_, _, rfl⟩

/-- A run that has ended ends the same way if it may take more steps. -/
theorem run_add {timeout fuel : Nat} {t : Tracking} {w : σ} {ended : Outcome × Tracking × σ}
    (h : run env timeout fuel t w = some ended) (more : Nat) :
    run env timeout (fuel + more) t w = some ended := by
  rw [run] at h ⊢
  split at h
  · next hover => rwa [if_pos hover]
  · next hgoes =>
    rw [if_neg hgoes]
    cases hobstacle : t.obstacle? with
    | some e => rwa [hobstacle] at h
    | none =>
      simp only [hobstacle, relay_eq_goOn] at h ⊢
      rw [goOn_add]
      rcases hgone : goOn env fuel .starting t (env.enter .starting w) with ⟨halt | stage, t₁, w₁⟩
      · rwa [hgone] at h
      · rw [hgone] at h
        cases h

end Tracking

/-- How a run takes stops, of which the watch shows what it has done so far. -/
structure StopsRun (env : Surroundings σ) (patience : σ → Nat) (timeout fuel : Nat) (t : Tracking) (w : σ)
    (outcome? : Option Outcome) (r : Watched σ) : Prop extends TakesStops env outcome? r where
  /-- A stop before the first step: the remote is told to shut down, and that is all. -/
  at_once : env.isStopRequested w = true →
    outcome? = some .stopped ∧ r.moments.map (·.act) = Outcome.stopped.acts
  /-- A stop before an element is handled, at whatever moment it was requested: there is only the end.  So
      nothing is published or committed for this element or a later one. -/
  unhandled : ∀ before m after, r.moments = before ++ m :: after → m.act = .handle →
    (∃ x ∈ before ++ [m], env.isStopRequested x.before = true) ∨ env.isStopRequested m.after = true →
      outcome? = some .stopped ∧ after.map (·.act) = Outcome.stopped.acts
  /-- A stop before anything that was done, be it the report of a failure: the run does not fail. -/
  never_failed : (∃ m ∈ r.moments, env.isStopRequested m.before = true) →
    ∀ outcome, outcome? = some outcome → outcome = .stopped
  /-- And it ends, after some more steps. -/
  ends : (∃ m ∈ r.moments, env.isStopRequested m.before = true) →
    ∃ t' w', Tracking.run env timeout (fuel + Tracking.stepsLeft (patience r.world) .starting) t w
      = some (.stopped, t', w')

/-- **Nothing is relayed after a stop.**  In any world that heeds stops, and after any number of steps of a
    run: wherever a stop was requested or noticed, nothing more was done than what belongs to the end, what
    was done before has stayed, and the run ends as stopped. -/
theorem run_stops {patience : σ → Nat} (h : HeedsStops env patience) (timeout fuel : Nat)
    (t : Tracking) (w : σ) :
    ∃ outcome? t' r, Tracking.soFar env.watched timeout fuel t (.begin w) = (outcome?, t', r)
      ∧ Tracking.run env timeout fuel t w = outcome?.map (fun outcome => (outcome, t', r.world))
      ∧ StopsRun env patience timeout fuel t w outcome? r := by
  have hlatch : env.EveryCall fun w w' => env.isStopRequested w = true → env.isStopRequested w' = true :=
    h.kept.mono fun hkept hw => (hkept hw).1
  obtain ⟨outcome?, t', r, hw, hr, hstays⟩ := Tracking.soFar_watched hlatch timeout fuel t w
  have hrun : Tracking.run env timeout fuel t w
      = outcome?.map (fun outcome => (outcome, t', r.world)) := by
    rw [Tracking.run_eq_soFar, hw]
  refine ⟨outcome?, t', r, hr, hrun, hstays.toTakesStops, ?_, ?_, hstays.never_failed, ?_⟩
  · intro hrequested
    obtain ⟨r', hr', hacts⟩ := Tracking.soFar_of_stop timeout fuel t hrequested
    rw [hr] at hr'
    cases hr'
    exact ⟨rfl, hacts⟩
  · intro before m after hsplit hhandle hrequested
    apply hstays.noticed before m after hsplit
    rw [Moment.Notices, hhandle]
    rcases hrequested with ⟨x, hx, hrequested⟩ | hrequested
    · rcases List.mem_append.mp hx with hx | hx
      · obtain ⟨earlier, rest, rfl⟩ := List.append_of_mem hx
        rw [List.append_assoc, List.cons_append] at hsplit
        exact (hstays.latched.latched _ _ _ hsplit hrequested).2 m
          (List.mem_cons_of_mem _ (List.mem_append_right _ List.mem_cons_self))
      · cases List.mem_singleton.mp hx
        exact (hstays.latched.latched _ _ _ hsplit hrequested).2 m List.mem_cons_self
    · exact hrequested
  · intro hrequested
    obtain ⟨m, hm, hbefore⟩ := hrequested
    cases outcome? with
    | some outcome =>
      obtain rfl := hstays.never_failed ⟨m, hm, hbefore⟩ outcome rfl
      exact ⟨_, _, Tracking.run_add hrun _⟩
    | none => exact Tracking.run_of_stop h hw (hstays.latched.of_mem hm hbefore)

/-! ### A stop between two elements -/

namespace StopBetween

open Rehearsal (Change Cue Hook World)
open Wire (TopicMessages)

/-- One topic. -/
def settings : RelaySettings := { RelaySettings.default with topics := ["a"] }

/-- An answer with two elements is there, and somebody requests a stop before the second is handled. -/
def begin : World where
  clock := { Rehearsal.Clock.new with hasStopper := true }
  topics := SortedMap.empty.insert "a" "t"
  remote := FaultyLog.sound (.new true)
  maxPerRead := 100
  chunkSize := 8192
  resolveCues := []
  fetchCues := [{ Cue.plain with elements := some [
    ⟨"a", [⟨"1", [1]⟩, ⟨"2", [2]⟩], none⟩, ⟨"a", [⟨"3", [3]⟩], none⟩] }]
  shutdownCues := []
  ownLog := FaultyLog.sound (.new true)
  offsets := .sound .empty
  hooks := [⟨.arrival, 2, [.stop]⟩]
  callLimit := 100
  arrivals := 0
  phase := .starting
  calls := []
  published := []
  committed := []

/-- What the watch shows when the run is over. -/
def final : Option Outcome × Tracking × Watched World :=
  Tracking.soFar World.surroundings.watched 5000 2 (.new settings) (.begin begin)

/-- The first element was relayed, and the second was not. -/
theorem relayed_before_stop :
    HeedsStops World.surroundings (fun w => w.clock.patience)
    ∧ StopsRun World.surroundings (fun w => w.clock.patience) 5000 2 (.new settings) begin
      (some .stopped) final.2.2
    ∧ (final.2.2.moments.map (·.act)).drop 4
      = [.fetch false, .handle, .publish true, .publish true, .commit true, .handle,
        .enter .stopping, .shutdown, .enter .stopped]
    ∧ final.2.2.world.published = [("a", [2]), ("a", [1])] := by
  obtain ⟨outcome?, t', r, hr, -, hstops⟩ :=
    run_stops World.heedsStops 5000 2 (.new settings) begin
  replace hr : final = (outcome?, t', r) := hr
  have houtcome : final.1 = some .stopped := by decide +kernel
  refine ⟨World.heedsStops, ?_, by decide +kernel, by decide +kernel⟩
  rw [hr] at houtcome ⊢
  obtain rfl : outcome? = some .stopped := houtcome
  exact hstops

end StopBetween
end TopicRelay.Monitor
