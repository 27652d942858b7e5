import SoapNode.Proofs.Server
import SoapNode.Proofs.Stage.Layers

/-!
# What a server answers again and again

Where handlers and operations are functions of their arguments, the answer of a server to a request is
that of a new server. Whatever the requests before it have left in the chains of the pool is started
afresh.
-/

namespace SoapNode

open Assembly

variable {World : Type}

namespace Server

structure Arrival where
  body : Bytes
  contentType : Option String
  action : Option String
  deriving DecidableEq, Repr

/-- The answers to requests that are handled one after another. -/
def answers (s : Server World) : List Arrival → List (Except RuntimeError (Option WireMessage))
  | [] => []
  | r :: rs =>
    let (answer, s) := s.handle r.body r.contentType r.action
    answer :: s.answers rs

variable {b : Binding World} {e : Endpoint World} {c : AssemblySettings} {clock : Instant}

/-- The sites of a server under fixed settings, whatever its world. -/
def likeness (b : Binding World) (clock : Instant) : Likeness (HandlerExchange World) (Site World) :=
  Site.likeness b clock false (fun _ _ => True)

theorem plain_serverLayers {ids : Bool} {R : World → World → Prop} :
    ∀ l ∈ serverLayers b c, l.Plain (Site.likeness b clock ids R) := by
  have hdump : ∀ l ∈ dumpLayer .server c, l.Plain (Site.likeness b clock ids R) := by
    intro l hl
    obtain ⟨-, rfl⟩ := List.mem_ite_nil_right.mp hl |>.imp_right List.mem_singleton.mp
    exact .stage ⟨Dump.uniform .server, fun _ _ => rfl⟩ rfl
  intro l hl
  unfold serverLayers at hl
  split at hl
  · rcases List.mem_append.mp hl with hl | hl
    · exact hdump l hl
    · rw [List.mem_singleton.mp hl]
      exact .handlers .server
  · rename_i v _
    simp only [securityLayer, addressingLayer, mustUnderstandLayer, List.mem_append, List.mem_cons,
      List.mem_ite_nil_right, List.not_mem_nil, or_false] at hl
    rcases hl with ((hl | ⟨-, rfl⟩) | ⟨-, rfl⟩) | rfl | rfl
    · exact hdump l hl
    · exact .stage ⟨Security.uniform .server _ _, fun _ _ => rfl⟩ rfl
    · exact .stage ⟨Addressing.uniform_server v _, fun _ _ => rfl⟩ rfl
    · exact .stage ⟨MustUnderstand.uniform .server _, fun _ _ => rfl⟩ rfl
    · exact .handlers .server

theorem template_new (hb : ∀ h ∈ b.handlerConfig.chain, h.Functional)
    (he : ∀ o ∈ e.operations, o.Functional) (world : World) :
    Template (likeness b clock) (Server.new b e c clock world).plant
      (Server.new b e c clock world).pool.pipeline.head :=
  Layer.template_build hb b.kind plain_serverLayers ⟨Invoker.uniform he, fun _ _ => rfl⟩ _

/-- A server that has handled any requests since it was new. -/
structure Worn (b : Binding World) (clock : Instant) (s₀ s : Server World) : Prop where
  kind : s.kind = s₀.kind
  maxBodySize : s.maxBodySize = s₀.maxBodySize
  stocked : Stocked s₀.plant s₀.pool.pipeline.head s.pool s.plant
  binding : s.site.binding = b
  clock_eq : s.site.clock = clock

variable {s₀ s : Server World}

theorem Worn.handle (htemplate : Template (likeness b clock) s₀.plant s₀.pool.pipeline.head)
    (h : Worn b clock s₀ s) (h₀ : Worn b clock s₀ s₀) (body : Bytes) (contentType action : Option String) :
    (s.handle body contentType action).1 = (s₀.handle body contentType action).1 ∧
      Worn b clock s₀ (s.handle body contentType action).2 := by
  have hprocess {s : Server World} (h : Worn b clock s₀ s) (packet : Packet) :=
    h.stocked.process htemplate ⟨h₀.binding, h.binding, h₀.clock_eq, h.clock_eq, nofun, trivial⟩ packet
  obtain ⟨plant, pool, kind, maxBodySize⟩ := s
  obtain rfl : kind = s₀.kind := h.kind
  obtain rfl : maxBodySize = s₀.maxBodySize := h.maxBodySize
  unfold Server.handle
  dsimp only
  split
  · exact ⟨rfl, h⟩
  · split
    · exact ⟨rfl, h⟩
    · rename_i m _
      obtain ⟨hresult, hstocked, halike⟩ := hprocess h (requestPacket m action)
      obtain ⟨hresult₀, -, -⟩ := hprocess h₀ (requestPacket m action)
      rw [hresult₀, ← hresult]
      exact ⟨rfl, rfl, rfl, hstocked, halike.binding_eq', halike.clock_eq'⟩

theorem worn_new (b : Binding World) (e : Endpoint World) (c : AssemblySettings) (clock : Instant)
    (world world' : World) : Worn b clock (new b e c clock world) (new b e c clock world') := by
  have hbuilt : Layer.build b.kind (serverLayers b c) (Invoker.stage e) (.empty (.new b clock world')) = _ :=
    Layer.build_modifyWorld b.kind (serverLayers b c) (Invoker.stage e) (.empty (.new b clock world))
      (fun _ => .new b clock world')
  have hserver : new b e c clock world' = { new b e c clock world with
      plant := (new b e c clock world).plant.modifyWorld (fun _ => .new b clock world') } := by
    simp only [new, serverChain, hbuilt]
  refine ⟨by rw [hserver], by rw [hserver], ?_, by rw [site_new]; rfl, by rw [site_new]; rfl⟩
  rw [hserver]
  exact .ofHead ⟨List.prefix_rfl, Nat.le_refl _⟩

/-- Each of the requests that a server handles in turn gets the answer of a new server. -/
theorem answers_new (hb : ∀ h ∈ b.handlerConfig.chain, h.Functional) (he : ∀ o ∈ e.operations, o.Functional)
    (world world' : World) (requests : List Arrival) :
    (new b e c clock world).answers requests =
      requests.map (fun r => ((new b e c clock world').handle r.body r.contentType r.action).1) := by
  have htemplate : Template (likeness b clock) (new b e c clock world).plant
      (new b e c clock world).pool.pipeline.head :=
    template_new hb he world
  have hnew := worn_new b e c clock world
  suffices ∀ s, Worn b clock (new b e c clock world) s → s.answers requests =
      requests.map (fun r => ((new b e c clock world').handle r.body r.contentType r.action).1) from this _ (hnew world)
  induction requests with
  | nil => exact fun _ _ => rfl
  | cons r rs ih =>
    intro s hs
    obtain ⟨hanswer, hworn⟩ := hs.handle htemplate (hnew world) r.body r.contentType r.action
    obtain ⟨hanswer', -⟩ := (hnew world').handle htemplate (hnew world) r.body r.contentType r.action
    rw [answers, List.map_cons, hanswer', ← hanswer, ← ih _ hworn]

/-- A handler that counts its calls, and lets every request through. -/
def countingHandler : Handler Nat where
  kind := .logical
  headers := []
  onMessage _ p n := (.ok true, p, n + 1)
  onFault _ p n := (.ok true, p, n + 1)
  onClose _ p n := (p, n + 1)

def countingEndpoint : Endpoint Nat :=
  ⟨.soap11, [⟨"note", some ⟨"urn:notes", "Note"⟩, none, false, fun input n => (.ok input, n + 1)⟩],
    ⟨.v11, [.payload .v11 [(⟨"urn:notes", "Note"⟩, "note")]]⟩⟩

def countingServer (calls : Nat) : Server Nat :=
  new ⟨.soap11, [], ⟨some .v11, [countingHandler], []⟩⟩ countingEndpoint {} ⟨0, 0⟩ calls

/-- A note, an empty body, and the note again. -/
def noteRequests : List Arrival :=
  let note := Utf8.encode ("<s:Envelope xmlns:s=\"http://schemas.xmlsoap.org/soap/envelope/\"><s:Body>" ++
    "<n:Note xmlns:n=\"urn:notes\"/></s:Body></s:Envelope>")
  [⟨note, some "text/xml", none⟩, ⟨[], none, none⟩, ⟨note, some "text/xml", none⟩]

theorem functional_countingHandler : ∀ h ∈ [countingHandler], h.Functional := by
  rw [List.forall_mem_singleton]
  exact ⟨fun _ _ _ _ _ => ⟨rfl, rfl, trivial⟩, fun _ _ _ _ _ => ⟨rfl, rfl, trivial⟩,
    fun _ _ _ _ _ => ⟨rfl, trivial⟩⟩

theorem functional_countingEndpoint : ∀ o ∈ countingEndpoint.operations, o.Functional := by
  rw [show countingEndpoint.operations = [_] from rfl, List.forall_mem_singleton]
  exact fun _ _ _ _ => ⟨rfl, trivial⟩

theorem answers_new_counting :
    (∀ h ∈ [countingHandler], h.Functional) ∧ (∀ o ∈ countingEndpoint.operations, o.Functional) ∧
      (countingServer 0).answers noteRequests =
        noteRequests.map (fun r => ((countingServer 7).handle r.body r.contentType r.action).1) :=
  ⟨functional_countingHandler, functional_countingEndpoint,
    answers_new functional_countingHandler functional_countingEndpoint 0 7 _⟩

end Server

end SoapNode
