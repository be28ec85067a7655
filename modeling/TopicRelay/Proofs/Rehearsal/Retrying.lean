/-
  What a monitor makes of a refusal.

      AsksOverHttp    the monitor asks with requests, and is told what its client makes of the replies
      Comes           a reply is that of an endpoint, or says that it failed; there may also be none

  specification   a refusal reaches the monitor with its status and message.  One that calls the request
                  malformed ends the run with them; one that says that the endpoint failed is borne,
                  unless as many failures as are put up with were counted before (`refusal_reaches_monitor`)
  the crux        a rest passes over every refusal, so the monitor would ask the same again; but beyond
                  its start it asks only for keys that an endpoint has accepted (`KnowsKeys.step`), and
                  these are never called malformed (`Comes.not_malformed`)

  After it stands a monitor that puts up with no failure at all, and gives up at the first one.
-/
import TopicRelay.Proofs.Endpoint.Refused
import TopicRelay.Proofs.Monitor.Adoption
import TopicRelay.Proofs.Monitor.LastAttempt
import TopicRelay.Proofs.Rehearsal.Agreement

namespace TopicRelay

open Endpoint (Api Brings Heard Refusal)
open Monitor
open Wire (ErrorCode)

/-! ## Keys that an endpoint accepts -/

/-- Nothing about a question for the topics of these keys is malformed. -/
structure Answerable (keys : TopicKeys) : Prop where
  valid : ∀ key ∈ keys.keys, Wire.TopicKey.isValid key = true
  /-- Its length can be announced. -/
  length : (Wire.printKeys keys).length ≤ 0xFFFFFFFFFFFFFFFF

namespace Answerable

theorem of_isEmpty {keys : TopicKeys} (h : keys.isEmpty = true) : Answerable keys := by
  have hnone : keys.keys = [] := List.map_eq_nil_iff.mpr (List.isEmpty_iff.mp h)
  refine ⟨fun key hkey => ?_, ?_⟩
  · rw [hnone] at hkey
    cases hkey
  · rw [Wire.printKeys, hnone]
    decide

/-- Fewer keys are accepted too. -/
theorem subset {keys full : TopicKeys} (h : Answerable full)
    (hkeys : ∀ key ∈ keys.keys, key ∈ full.keys) : Answerable keys := by
  cases hempty : keys.isEmpty with
  | true => exact of_isEmpty hempty
  | false =>
    exact ⟨fun key hkey => h.valid key (hkeys key hkey),
      (Wire.length_printKeys_mono hempty hkeys).trans h.length⟩

variable {τ : Type} {api : Api τ} {keys : TopicKeys}

theorem of_status (read : LogReader τ)
    (h : (api.handle read (Client.topicsRequest "" keys)).1.status = 200) : Answerable keys := by
  obtain ⟨hvalid, hfits⟩ := (api.status_topics_iff read keys).mp h
  exact ⟨hvalid, hfits.trans (Nat.le_of_lt_succ api.settings.server.maxRequestBytes.toNat_lt)⟩

/-- The worst that an endpoint can say is that there are too many of them. -/
theorem handle (h : Answerable keys) (read : LogReader τ) (api : Api τ) :
    (api.handle read (Client.topicsRequest "" keys)).1.status = 200
      ∨ (api.handle read (Client.topicsRequest "" keys)).1 = Refusal.bodyTooLarge.response := by
  rcases Nat.lt_or_ge api.settings.server.maxRequestBytes.toNat (Wire.printKeys keys).length
    with hlong | hfits
  · have hbody : api.readBody Wire.keysReader (Client.topicsRequest "" keys)
        = .error (if _ then _ else _) := Endpoint.Api.readBody_of_long _ Wire.Path.topics hlong
    rw [if_neg (Nat.not_lt.mpr h.length)] at hbody
    rw [Endpoint.Api.handle_topicsRequest, Endpoint.Api.withBody, hbody]
    exact Or.inr rfl
  · exact Or.inl ((api.status_topics_iff read keys).mpr ⟨h.valid, hfits⟩)

end Answerable

/-! ## Asking over HTTP -/

/-- What can come of a request to an endpoint: nothing, or a reply.  That is the answer of the endpoint,
    or says that it has failed.  The network cuts its body into pieces, or breaks it off. -/
inductive Comes (r : Http.Request) : Exchange → Prop where
  | unreachable (reason : String) : Comes r (.unreachable reason)
  | silent : Comes r .silent
  | answered {τ : Type} (read : LogReader τ) (api : Api τ) (pieces : List Bytes) (isWhole : Bool)
    (h : isWhole = true → pieces.flatten = (api.handle read r).1.body) :
    Comes r (.replied ⟨UInt16.ofNat (api.handle read r).1.status, pieces, isWhole⟩)
  | failed (pieces : List Bytes) (isWhole : Bool)
    (h : isWhole = true → pieces.flatten = Refusal.internal.response.body) :
    Comes r (.replied ⟨UInt16.ofNat Refusal.internal.response.status, pieces, isWhole⟩)

namespace Comes

variable {keys : TopicKeys} {x : Exchange} {refusal : Refusal}

/-- **Topics are named only for keys that the endpoint has accepted.** -/
theorem answerable (h : Comes (Client.topicsRequest "" keys) x) {mapping : TopicMapping}
    (htopics : Client.topics x = .ok mapping) : Answerable keys := by
  have hnot (refused : Refusal) (pieces : List Bytes) (isWhole : Bool) :
      Client.topics (.replied ⟨UInt16.ofNat refused.response.status, pieces, isWhole⟩)
        ≠ .ok mapping := by
    intro hok
    obtain ⟨e, he⟩ :=
      Endpoint.received_refusal "Timed out resolving topics" refused pieces isWhole
    rw [Client.topics, he] at hok
    cases hok
  cases h with
  | unreachable => cases htopics
  | silent => cases htopics
  | answered read api pieces isWhole =>
    rcases api.handle_refuses read (Client.topicsRequest "" keys) with hstatus | ⟨refused, hrefused⟩
    · exact .of_status read hstatus
    · rw [hrefused] at htopics
      exact absurd htopics (hnot refused pieces isWhole)
  | failed pieces isWhole => exact absurd htopics (hnot .internal pieces isWhole)

/-- **Such keys are never called malformed.** -/
theorem not_malformed (h : Comes (Client.topicsRequest "" keys) x) (hkeys : Answerable keys)
    (hbrings : Brings x refusal) : refusal.code ≠ ErrorCode.malformedRequest := by
  obtain ⟨-, pieces, -, rfl⟩ := hbrings
  intro hcode
  have hstatus : ∀ n ∈ [200, 413, 500], UInt16.ofNat n ≠ UInt16.ofNat refusal.response.status := by
    show ∀ n ∈ [200, 413, 500], UInt16.ofNat n ≠ UInt16.ofNat refusal.status
    rcases Refusal.status_of_malformed hcode with h | h | h <;> rw [h] <;> decide
  generalize hsame : UInt16.ofNat refusal.response.status = status at h hstatus
  cases h with
  | answered read api =>
    rcases hkeys.handle read api with hanswered | hlarge
    · rw [hanswered] at hstatus
      exact hstatus 200 (by decide) rfl
    · rw [hlarge] at hstatus
      exact hstatus 413 (by decide) rfl
  | failed => exact hstatus 500 (by decide) rfl

end Comes

variable {σ : Type} {env : Surroundings σ} {send : Http.Request → σ → Option Exchange}

/-- A monitor that asks over HTTP: what comes of a request decides what it is told, and there is no
    telling what it would have been told if a stop came first. -/
structure AsksOverHttp (env : Surroundings σ) (send : Http.Request → σ → Option Exchange) : Prop where
  resolve : ∀ keys w, (env.resolve keys w).1 = match send (Client.topicsRequest "" keys) w with
    | none => .error .abandoned
    | some x => (Client.topics x).mapError .failure
  fetch : ∀ requests w x, send (Client.fetchRequest "" requests) w = some x →
    (env.fetch requests w).1 = Client.delivery x
  comes : ∀ r w x, send r w = some x → Comes r x

namespace Monitor

/-! ## What is asked in a step -/

/-- What is done in a step. -/
def Stage.deed : Stage → Deed
  | .starting | .resting _ => .resolve
  | .polling => .cycle

/-- What is around the monitor when it asks in a step. -/
def Stage.enter (env : Surroundings σ) : Stage → σ → σ
  | .starting, w => w
  | .polling, w => env.enter .polling w
  | .resting _, w => env.enter .backoff w

/-- Something is asked in a step, and this comes of it. -/
def Tells (env : Surroundings σ) (send : Http.Request → σ → Option Exchange) (stage : Stage)
    (t : Tracking) (w : σ) (x : Exchange) : Prop :=
  ∃ q ∈ stage.deed.questions t, send q.request (stage.enter env w) = some x

variable {stage stage' : Stage} {t t' t₁ : Tracking} {w w' w₁ : σ} {x : Exchange}

/-- **What is told in an attempt makes it fail**, if it is an error. -/
theorem Tells.attempt? (hasks : AsksOverHttp env send) (h : Tells env send stage t w x)
    (hattempt : ∀ delay, stage ≠ .resting delay) {e : RelayError} (he : Heard x e) :
    Tracking.attempt? env stage t w = some (.failed e) := by
  obtain ⟨q, hq, hx⟩ := h
  cases stage with
  | resting delay => exact absurd rfl (hattempt delay)
  | starting =>
    obtain ⟨hsome, rfl⟩ := mem_questions_resolve_iff.mp hq
    have hanswer : (env.resolve t.unresolved w).1 = .error (.failure e) := by
      rw [hasks.resolve, show send (Client.topicsRequest "" t.unresolved) w = some x from hx]
      simp only [he.topics]
      rfl
    rw [Tracking.attempt?, Tracking.resolveTopics, if_neg (Bool.eq_false_iff.mp hsome)]
    rcases hresolve : env.resolve t.unresolved w with ⟨answer, w₁⟩
    rw [hresolve] at hanswer
    cases hanswer
    rfl
  | polling =>
    obtain ⟨hsome, rfl⟩ := mem_questions_cycle_iff.mp hq
    have hfetch : (env.fetch t.requests (env.enter .polling w)).1 = ⟨[], .error (.failure e)⟩ :=
      (hasks.fetch _ _ x hx).trans he.messages
    rw [Tracking.attempt?, Tracking.pollCycle_of_failed hsome hfetch]

/-! ## What is known of the keys -/

/-- Beyond its start, a monitor asks only for keys that an endpoint has accepted. -/
def KnowsKeys (stage : Stage) (t : Tracking) : Prop := stage = .starting ∨ Answerable t.unresolved

/-- A resolution that succeeds shows that they are accepted. -/
theorem Tracking.answerable_of_resolveTopics (hasks : AsksOverHttp env send) {n : Nat}
    (h : t.resolveTopics env w = (.ok n, t₁, w₁)) : Answerable t₁.unresolved := by
  refine Answerable.subset ?_ (unresolved_resolveTopics h)
  rcases resolveTopics_spec h with
    ⟨hempty, -⟩ | ⟨halt, -, hr, -⟩ | ⟨mapping, w₂, loaded, broken?, hanswer, -⟩
  · exact .of_isEmpty hempty
  · cases hr
  · have htold := hasks.resolve t.unresolved w
    rw [hanswer] at htold
    split at htold
    · cases htold
    · next x hx =>
      cases htopics : Client.topics x with
      | error e =>
        rw [htopics] at htold
        cases htold
      | ok mapping' => exact (hasks.comes _ _ x hx).answerable htopics

/-- **Each step** keeps it so. -/
theorem KnowsKeys.step (hasks : AsksOverHttp env send) (h : KnowsKeys stage t)
    (hstep : Tracking.step env stage t w = (.ok stage', t', w')) : KnowsKeys stage' t' := by
  cases stage with
  | starting =>
    rw [Tracking.step, Tracking.startStep] at hstep
    split at hstep
    · cases hstep
    · next hresolve =>
      have hknown := Tracking.answerable_of_resolveTopics hasks hresolve
      split at hstep
      · obtain ⟨-, hx | hx⟩ := Tracking.waitThen_cases hstep <;> cases hx
        exact Or.inl rfl
      · cases hstep
        exact Or.inr hknown
    · split at hstep
      · cases hstep
      · obtain ⟨-, hx | hx⟩ := Tracking.waitThen_cases hstep <;> cases hx
        exact Or.inl rfl
  | polling =>
    refine Or.inr ?_
    rw [Tracking.unresolved_pollStep hstep]
    exact h.resolve_left fun hc => by cases hc
  | resting delay =>
    have hknown := h.resolve_left fun hc => by cases hc
    rw [Tracking.step, Tracking.restStep] at hstep
    split at hstep
    · cases hstep
    · next hresolve =>
      obtain ⟨rfl, -⟩ := Tracking.waitThen_cases hstep
      exact Or.inr (hknown.subset (Tracking.unresolved_resolveTopics hresolve))

/-! ## A run -/

namespace Underway

variable {settings : RelaySettings} {w₀ : σ} {n : Nat} {refusal : Refusal}

theorem knowsKeys (h : Underway env settings w₀ n stage t w) (hasks : AsksOverHttp env send) :
    KnowsKeys stage t :=
  h.keeps (Or.inl rfl) fun hknows hstep => hknows.step hasks hstep

/-- **A monitor does not ask again what was called malformed.**  Its run ends with that. -/
theorem ends_of_malformed (h : Underway env settings w₀ n stage t w) (hasks : AsksOverHttp env send)
    (htells : Tells env send stage t w x) (hbrings : Brings x refusal)
    (hcode : refusal.code = ErrorCode.malformedRequest) (shutdownTimeout : Nat) :
    (Tracking.soFar env shutdownTimeout (n + 1) (.new settings) w₀).1
        = some (.failed (.rejected (UInt16.ofNat refusal.status) refusal.message))
      ∨ (Tracking.soFar env shutdownTimeout (n + 1) (.new settings) w₀).1 = some .stopped := by
  have hattempt : ∀ delay, stage ≠ .resting delay := by
    rintro delay rfl
    obtain ⟨q, hq, hx⟩ := htells
    obtain ⟨-, rfl⟩ := mem_questions_resolve_iff.mp hq
    have hknown := (h.knowsKeys hasks).resolve_left fun hc => by cases hc
    exact (hasks.comes _ _ x hx).not_malformed hknown hbrings hcode
  have hblames : refusal.status < 500 := by
    rcases Refusal.status_of_malformed hcode with h | h | h <;> rw [h] <;> decide
  have hfailed := htells.attempt? hasks hattempt hbrings.heard
  rw [Refusal.heard_of_blame hblames] at hfailed
  exact h.ends hfailed rfl shutdownTimeout

/-- **A monitor bears a failure of the endpoint**, unless it is one too many. -/
theorem goesOn_of_failure (h : Underway env settings w₀ n stage t w) (hasks : AsksOverHttp env send)
    (htells : Tells env send stage t w x) (hbrings : Brings x refusal) (hfails : refusal.status = 500)
    (shutdownTimeout : Nat) :
    (Tracking.soFar env shutdownTimeout (n + 1) (.new settings) w₀).1 = none
      ∨ (Tracking.soFar env shutdownTimeout (n + 1) (.new settings) w₀).1 = some .stopped
      ∨ counted (Tracking.attemptsSoFar env n (.new settings) w₀) = settings.maxConsecutiveFailures.toNat
        ∧ ∃ count, count.toNat = settings.maxConsecutiveFailures.toNat + 1
          ∧ (Tracking.soFar env shutdownTimeout (n + 1) (.new settings) w₀).1
            = some (.failed (.tooManyFailures count refusal.heard.message)) := by
  by_cases hrest : ∃ delay, stage = .resting delay
  · obtain ⟨delay, rfl⟩ := hrest
    rcases h.rests shutdownTimeout with hgoes | hstopped
    · exact Or.inl hgoes
    · exact Or.inr (Or.inl hstopped)
  · have hfailed := htells.attempt? hasks (not_exists.mp hrest) hbrings.heard
    have hpasses : refusal.heard.isRetryable = true := by
      rw [Refusal.heard_of_failure hfails]
      rfl
    exact h.goesOn hfailed hpasses shutdownTimeout

end Underway

/-- **A monitor never gives up at once because the endpoint failed**: it does not fail at a reply that
    says so, as long as it has counted no failure before. -/
def NeverAtOnce (env : Surroundings σ) (send : Http.Request → σ → Option Exchange)
    (settings : RelaySettings) (w₀ : σ) : Prop :=
  ∀ n stage t w, Underway env settings w₀ n stage t w →
    counted (Tracking.attemptsSoFar env n (.new settings) w₀) = 0 →
    ∀ x, Tells env send stage t w x → Brings x .internal → ∀ shutdownTimeout e,
      (Tracking.soFar env shutdownTimeout (n + 1) (.new settings) w₀).1 ≠ some (.failed e)

/-- This is so if some failures are put up with. -/
theorem neverAtOnce_of_pos (hasks : AsksOverHttp env send) {settings : RelaySettings}
    (hmany : settings.maxConsecutiveFailures ≠ 0) (w₀ : σ) : NeverAtOnce env send settings w₀ := by
  intro n stage t w hway hnone x htells hbrings shutdownTimeout e hfailed
  rcases hway.goesOn_of_failure hasks htells hbrings rfl shutdownTimeout with hgoes | hstopped | ⟨hall, -⟩
  · rw [hgoes] at hfailed
    cases hfailed
  · rw [hstopped] at hfailed
    cases hfailed
  · exact hmany (UInt32.toNat_inj.mp (hall.symm.trans hnone))

/-- **A refusal reaches the monitor unchanged**, whatever is in its message:

    * what an endpoint does not answer, it refuses;
    * if it refuses a request, its client is told the status and the message, and that trying again does
      not help; if it has failed, that this may pass;
    * a monitor that asks such endpoints, in a run of any length, ends with this error if its request was
      called malformed, unless a stop was requested by then.  If the endpoint has failed, it goes on,
      unless it had counted as many failures before as it puts up with. -/
theorem refusal_reaches_monitor (hasks : AsksOverHttp env send) :
    (∀ {τ : Type} (read : LogReader τ) (api : Api τ) (r : Http.Request),
      (api.handle read r).1.status = 200
        ∨ ∃ refusal : Refusal, (api.handle read r).1 = refusal.response)
    ∧ (∀ (refusal : Refusal) (x : Exchange), Brings x refusal →
      let rejected := RelayError.rejected (UInt16.ofNat refusal.status) refusal.message
      let failed := RelayError.transient ("Status 500 Internal Server Error: " ++ refusal.message)
      (400 ≤ refusal.status ∧ refusal.status < 500 ∧ Heard x rejected ∧ rejected.isRetryable = false)
        ∨ (refusal.status = 500 ∧ Heard x failed ∧ failed.isRetryable = true))
    ∧ ∀ settings w₀ n stage t w, Underway env settings w₀ n stage t w →
      ∀ (x : Exchange) (refusal : Refusal), Tells env send stage t w x → Brings x refusal →
        ∀ shutdownTimeout,
          let outcome? := (Tracking.soFar env shutdownTimeout (n + 1) (.new settings) w₀).1
          (refusal.code = ErrorCode.malformedRequest →
            outcome? = some (.failed (.rejected (UInt16.ofNat refusal.status) refusal.message))
              ∨ outcome? = some .stopped)
          ∧ (refusal.status = 500 → outcome? = none ∨ outcome? = some .stopped
              ∨ counted (Tracking.attemptsSoFar env n (.new settings) w₀)
                  = settings.maxConsecutiveFailures.toNat
                ∧ ∃ count, count.toNat = settings.maxConsecutiveFailures.toNat + 1
                  ∧ outcome? = some (.failed (.tooManyFailures count refusal.heard.message))) := by
  refine ⟨fun read api r => api.handle_refuses read r, fun refusal x hbrings => ?_, ?_⟩
  · have hheard := hbrings.heard
    rcases refusal.status_cases with ⟨hfrom, hblames, -⟩ | ⟨hfails, -⟩
    · rw [Refusal.heard_of_blame hblames] at hheard
      exact Or.inl ⟨hfrom, hblames, hheard, rfl⟩
    · rw [Refusal.heard_of_failure hfails] at hheard
      exact Or.inr ⟨hfails, hheard, rfl⟩
  · intro settings w₀ n stage t w hway x refusal htells hbrings shutdownTimeout
    exact ⟨fun hcode => hway.ends_of_malformed hasks htells hbrings hcode shutdownTimeout,
      fun hfails => hway.goesOn_of_failure hasks htells hbrings hfails shutdownTimeout⟩

/-! ### A key with a quote in it, and an endpoint that fails first -/

namespace FailsFirst

/-- A key with a quote, a backslash, a control character and a letter that is not ASCII. -/
def key : TopicKey := "\"\\\t\u00fc"

/-- How many failures are put up with. -/
def settings (m : UInt32) : RelaySettings :=
  { RelaySettings.default with topics := [key], maxConsecutiveFailures := m }

/-- What comes of a request after some others: the endpoint has failed at first, and then is there. -/
def reply (r : Http.Request) : Nat → Exchange
  | 0 => .replied ⟨500, [Refusal.internal.response.body], true⟩
  | _ + 1 => (Rehearsal.Loopback.exchange Endpoint.memoryReader (fun body => [body]) r (taking 65536)).1

/-- A monitor that asks this endpoint; the requests are counted. -/
def surroundings : Surroundings Nat where
  isStopRequested _ := false
  isDeserted _ := false
  enter _ n := n
  resolve keys n := ((Client.topics (reply (Client.topicsRequest "" keys) n)).mapError .failure, n + 1)
  fetch requests n := (Client.delivery (reply (Client.fetchRequest "" requests) n), n + 1)
  arrive n := n
  shutdown _ n := n
  publish _ _ n := (.ok OneEach.first.id, n)
  offset _ _ n := (.ok none, n)
  commit _ _ _ n := (.ok (), n)
  draw _ n := (0, n)
  wait _ n := (true, n)

theorem asksOverHttp : AsksOverHttp surroundings fun r n => some (reply r n) where
  resolve _ _ := rfl
  fetch _ _ _ h := by
    cases h
    rfl
  comes r n x h := by
    cases h
    cases n with
    | zero => exact .failed _ true fun _ => List.append_nil _
    | succ n => exact .answered Endpoint.memoryReader (taking 65536) _ true fun _ => List.append_nil _

theorem isEmpty_keys (m : UInt32) : (settings m).keys.isEmpty = false :=
  (by decide +kernel : (settings 0).keys.isEmpty = false)

theorem underway_begin (m : UInt32) :
    Underway surroundings (settings m) 0 0 .starting (.new (settings m)) 0 := by
  have hproblem : (settings m).problem? = none := (by decide +kernel : (settings 0).problem? = none)
  refine ⟨rfl, ?_, rfl⟩
  rw [Tracking.obstacle?, Tracking.new, hproblem]
  simp only [isEmpty_keys, Bool.false_and, Bool.false_eq_true, if_false]

/-- The first question is for the key, and the endpoint fails. -/
theorem tells_first (m : UInt32) : Tells surroundings (fun r n => some (reply r n)) .starting
    (.new (settings m)) 0 (reply (Client.topicsRequest "" (settings m).keys) 0) :=
  ⟨.topics (settings m).keys, mem_questions_resolve_iff.mpr ⟨isEmpty_keys m, rfl⟩, rfl⟩

theorem brings_first (r : Http.Request) : Brings (reply r 0) .internal :=
  ⟨by decide +kernel, _, List.append_nil _, rfl⟩

/-- What the endpoint says of the key. -/
def said : String := "'\"\\\t\u00fc' is not a valid topic key"

/-- The monitor after the first failure, if it goes on. -/
def tracking : Tracking :=
  (Tracking.goOn surroundings 1 .starting (.new (settings 1)) 0).2.1

/-- **The failure is borne, and the refusal is not.**  Its message comes through as it is. -/
theorem refusal_reaches_monitor_quoted :
    AsksOverHttp surroundings (fun r n => some (reply r n))
    ∧ (Tracking.soFar surroundings 5000 1 (.new (settings 1)) 0).1 = none
    ∧ ∃ x, Tells surroundings (fun r n => some (reply r n)) .starting tracking 1 x
      ∧ Brings x (.malformed said) ∧ Client.topics x = .error (.rejected 400 said)
      ∧ (Tracking.soFar surroundings 5000 2 (.new (settings 1)) 0).1
        = some (.failed (.rejected 400 said)) := by
  obtain ⟨-, hclient, hrun⟩ := refusal_reaches_monitor asksOverHttp
  have hnext : Underway surroundings (settings 1) 0 1 .starting tracking 1 :=
    ⟨rfl, by decide +kernel, Prod.ext (by decide +kernel) (Prod.ext rfl (by decide +kernel))⟩
  have hkeys : .topics (settings 1).keys ∈ Deed.resolve.questions tracking := by decide +kernel
  have hrefused : Brings (reply (Client.topicsRequest "" (settings 1).keys) 1) (.malformed said) :=
    ⟨by decide +kernel, [(Refusal.malformed said).response.body], List.append_nil _, by decide +kernel⟩
  have hfirst : (Tracking.soFar surroundings 5000 1 (.new (settings 1)) 0).1 = none := by
    have hborne :=
      (hrun _ _ _ _ _ _ (underway_begin 1) _ _ (tells_first 1) (brings_first _) 5000).2 rfl
    rcases hborne with hgoes | hstopped | ⟨hmany, -⟩
    · exact hgoes
    · exact absurd hstopped (by decide +kernel)
    · exact absurd hmany (by decide)
  refine ⟨asksOverHttp, hfirst, _, ⟨_, hkeys, rfl⟩, hrefused, ?_, ?_⟩
  · rcases hclient _ _ hrefused with ⟨-, -, hheard, -⟩ | ⟨hfails, -⟩
    · exact hheard.topics
    · exact absurd hfails (by decide)
  · have hended := (hrun _ _ _ _ _ _ hnext _ _ ⟨_, hkeys, rfl⟩ hrefused 5000).1 rfl
    exact hended.resolve_right (by decide +kernel)

/-- **Where no failure is put up with, the first one is too many**, also if it is that of an endpoint. -/
theorem not_neverAtOnce :
    ¬ NeverAtOnce surroundings (fun r n => some (reply r n)) (settings 0) 0 := by
  intro hnever
  have hborne := hnever 0 _ _ _ (underway_begin 0) rfl _ (tells_first 0) (brings_first _) 5000
  exact hborne (.tooManyFailures 1
    "Transient failure: Status 500 Internal Server Error: Internal error") (by decide +kernel)

end FailsFirst

end Monitor
end TopicRelay
