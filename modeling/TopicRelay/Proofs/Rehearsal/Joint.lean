/-
  A world without faults, but with a network.

  A monitor fetches from an endpoint as its client does: with requests and responses, and with the
  bodies of the responses cut in any way.  The stores of this side are in memory.  Here nothing fails
  of its own accord; what the endpoint refuses, and what is too long to be read, fails all the same.
-/
import TopicRelay.Offset.Memory
import TopicRelay.Proofs.Endpoint.Exchange
import TopicRelay.Proofs.Log.Memory
import TopicRelay.Proofs.Monitor.WholeAnswer
import TopicRelay.Proofs.Offset.Memory

namespace TopicRelay.Rehearsal

open Endpoint (Api answerOf memoryReader)
open Monitor (Client.maxReplyLength Delivery Halt Surroundings Tracking View Works)
open Wire (ConsumeRequests Decoder)

/-- An endpoint, and the stores of a monitor. -/
structure Joint where
  api : Api MemoryLog
  own : MemoryLog
  offsets : MemoryOffsets
  /-- How many fetches there were. -/
  fetches : Nat

namespace Joint

/-- Publishes to the log of this side. -/
def publish (topic : TopicName) (payload : Bytes) (w : Joint) : Except LogError MessageId × Joint :=
  match w.own.publish topic payload with
  | .error e => (.error e, w)
  | .ok (id, own) => (.ok id, { w with own := own })

/-- Asks the endpoint for topics, over a network that cuts the response. -/
def resolve (cut : Nat → Bytes → List Bytes) (keys : TopicKeys) (w : Joint) :
    Except Halt TopicMapping × Joint :=
  match Loopback.resolve memoryReader (cut w.fetches) keys w.api with
  | (result, api) => (result.mapError .failure, { w with api := api })

/-- Asks it for messages. -/
def fetch (cut : Nat → Bytes → List Bytes) (requests : ConsumeRequests) (w : Joint) :
    Delivery × Joint :=
  match Loopback.fetch memoryReader (cut w.fetches) requests w.api with
  | (delivery, api) => (delivery, { w with api := api, fetches := w.fetches + 1 })

/-- The world as a monitor sees it, with a network that cuts responses with `cut n` after `n`
    fetches. -/
def surroundings (cut : Nat → Bytes → List Bytes) : Surroundings Joint where
  isStopRequested _ := false
  isDeserted _ := false
  enter _ w := w
  resolve := resolve cut
  fetch := fetch cut
  arrive w := w
  shutdown _ w := w
  publish := publish
  offset topic subscriber w := (.ok (w.offsets.get topic subscriber), w)
  commit topic subscriber id w := (.ok (), { w with offsets := w.offsets.put 0 topic subscriber id })
  draw _ w := (0, w)
  wait _ w := (true, w)

/-- How to look into it. -/
def view : View Joint where
  remote w := w.api.log.messages
  own w := w.own.payloads
  offset w := w.offsets.get

/-! ## Its stores -/

/-- The stores of this side take all that they took in another state, and the endpoint is the same. -/
structure Ready (w₀ w : Joint) : Prop where
  api : w.api = w₀.api
  accepts : ∀ topic, w₀.own.Accepts topic → w.own.Accepts topic

/-- **The stores work.** -/
theorem works (cut : Nat → Bytes → List Bytes) (w₀ : Joint) :
    Works (surroundings cut) view w₀.own.Accepts (fun _ w => Ready w₀ w) where
  arrive _ := rfl
  goesOn _ := rfl
  publish {n w topic} payload h htopic := by
    obtain ⟨own, hpublish⟩ := MemoryLog.publish_of_accepts (h.accepts topic htopic) payload
    obtain ⟨-, hself, hothers, haccepts, -⟩ := MemoryLog.publish_ok hpublish
    refine ⟨MemoryLog.formatId w.own.next, { w with own := own }, ?_,
      ⟨h.api, fun t ht => haccepts t (h.accepts t ht)⟩, rfl, ?_, ?_, rfl⟩
    · show Joint.publish topic payload w = _
      rw [Joint.publish, hpublish]
    · show own.payloads topic = w.own.payloads topic ++ [payload]
      rw [MemoryLog.payloads, MemoryLog.payloads, hself, List.map_append]
      rfl
    · intro t ht
      show own.payloads t = w.own.payloads t
      rw [MemoryLog.payloads, MemoryLog.payloads, hothers t ht]
  commit {n w} topic subscriber id h := by
    refine ⟨_, rfl, ⟨h.api, h.accepts⟩, rfl, rfl, ?_, ?_⟩
    · exact MemoryOffsets.get_put_self _ _ _ _ _
    · intro t s hts
      exact MemoryOffsets.get_put_ne _ _ hts _

/-! ## Its network -/

/-- What has to fit for a resolution to succeed. -/
structure ResolutionFits (keys : TopicKeys) (w : Joint) : Prop where
  request : (Wire.printKeys keys).length ≤ w.api.settings.server.maxRequestBytes.toNat
  reply : (Wire.printMapping (w.api.resolver.resolveAll keys)).length ≤ Client.maxReplyLength

/-- **A resolution.**  The endpoint gives the topics that it has for the keys. -/
theorem resolve_of_fits {cut : Nat → Bytes → List Bytes} (hcut : ∀ n body, (cut n body).flatten = body)
    {keys : TopicKeys} {w : Joint} (hvalid : ∀ key ∈ keys.keys, Wire.TopicKey.isValid key = true)
    (hfits : ResolutionFits keys w) :
    ∃ api', (surroundings cut).resolve keys w
        = (.ok (w.api.resolver.resolveAll keys), { w with api := api' })
      ∧ api'.settings = w.api.settings ∧ api'.log = w.api.log := by
  obtain ⟨api', hresolve, hsettings, hlog⟩ := Endpoint.resolve_loopback memoryReader hvalid
    hfits.request hfits.reply (hcut w.fetches)
  refine ⟨api', ?_, hsettings, hlog⟩
  show Joint.resolve cut keys w = _
  rw [Joint.resolve, hresolve]
  rfl

/-- **A resolution that succeeds** is one that fits. -/
theorem fits_of_resolve {cut : Nat → Bytes → List Bytes} (hcut : ∀ n body, (cut n body).flatten = body)
    {keys : TopicKeys} {w w' : Joint} {mapping : TopicMapping}
    (hvalid : ∀ key ∈ keys.keys, Wire.TopicKey.isValid key = true)
    (hresolve : (surroundings cut).resolve keys w = (.ok mapping, w')) : ResolutionFits keys w := by
  have hthis : Joint.resolve cut keys w = (.ok mapping, w') := hresolve
  rw [Joint.resolve] at hthis
  generalize hloopback : Loopback.resolve memoryReader (cut w.fetches) keys w.api = outcome at hthis
  obtain ⟨result, api'⟩ := outcome
  cases result with
  | error e => cases hthis
  | ok mapping =>
    obtain ⟨hrequest, hreply⟩ := Endpoint.fits_of_resolve_loopback hvalid (hcut w.fetches) hloopback
    exact ⟨hrequest, hreply⟩

/-- What has to fit for a fetch to succeed. -/
structure Fits (t : Tracking) (w : Joint) : Prop where
  request : t.requests.print.length ≤ w.api.settings.server.maxRequestBytes.toNat
  elements : ∀ e ∈ answerOf w.api.resolver w.api.log w.api.settings.relay.maxMessagesPerRead t.requests,
    e.print.length ≤ Decoder.defaultLimit

/-- **A fetch.**  The answer of the endpoint comes as a whole. -/
theorem fetch_of_fits {cut : Nat → Bytes → List Bytes} (hcut : ∀ n body, (cut n body).flatten = body)
    {t : Tracking} {w : Joint} (hasc : ∀ topic, Log.Ascending (w.api.log.messages topic))
    (hproblem : ConsumeRequests.problem? w.api.settings.relay.maxLimit t.requests = none)
    (hfits : Fits t w) :
    ∃ api', (surroundings cut).fetch t.requests w
        = (⟨answerOf w.api.resolver w.api.log w.api.settings.relay.maxMessagesPerRead t.requests,
            .ok ()⟩, { w with api := api', fetches := w.fetches + 1 })
      ∧ api'.settings = w.api.settings ∧ api'.log = w.api.log := by
  obtain ⟨api', hfetch, hsettings, hlog⟩ := Endpoint.fetch_loopback hasc hproblem hfits.request
    hfits.elements (hcut w.fetches)
  refine ⟨api', ?_, hsettings, hlog⟩
  show Joint.fetch cut t.requests w = _
  rw [Joint.fetch, hfetch]

end Joint
end TopicRelay.Rehearsal
