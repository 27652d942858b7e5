import SoapNode.Proofs.Endpoint
import SoapNode.Proofs.Stage.BuiltIn
import SoapNode.Server

/-!
# A server without handlers

The chains of such a server have the stages of its binding and settings, and every request leaves it
ready for the next one. A request that can be read and dispatched runs its operation once, and the reply
is the encoded answer of that operation.
-/

namespace SoapNode

open Assembly

variable {World : Type}

namespace Server

def stages (b : Binding World) (c : AssemblySettings) (e : Endpoint World) : List (SiteStage World) :=
  (serverLayers b c).flatMap (Layer.stages b.kind) ++ [Invoker.stage e]

variable {b : Binding World} {c : AssemblySettings} {e : Endpoint World} {s : Server World}

theorem stages_bare (hkind : b.kind = .xmlHttp) : stages b c e =
    (if c.dump then [Dump.stage .server] else []) ++
      [HandlerStage.stage ⟨.logical, .server, false⟩, Invoker.stage e] := by
  have hversion : b.version? = none := by rw [Binding.version?, hkind]; rfl
  rw [stages, serverLayers, hversion, hkind, dumpLayer]
  cases c.dump <;> rfl

theorem stages_soap {v : SoapVersion} (hkind : b.kind = .ofVersion v) :
    stages b c e = (if c.dump then [Dump.stage .server] else []) ++
      ((if c.security.enabled then [Security.stage .server (some v) c.security] else []) ++
        ((if b.hasAddressing then [Addressing.stage .server v c.requireAddressing] else []) ++
          [MustUnderstand.stage .server (stageHeaders b c), HandlerStage.stage ⟨.soap, .server, true⟩,
            HandlerStage.stage ⟨.logical, .server, true⟩, Invoker.stage e])) := by
  have hversion : b.version? = some v := by rw [Binding.version?, hkind, BindingKind.version?_ofVersion]
  simp only [stages, serverLayers, hversion, hkind, dumpLayer, securityLayer, addressingLayer]
  cases v <;> cases c.dump <;> cases c.security.enabled <;> cases b.hasAddressing <;> rfl

theorem copied_stages : ∀ st ∈ stages b c e, ∀ w s, st.copied w s = s := by
  intro st hst
  rcases List.mem_append.mp hst with hst | hst
  · obtain ⟨l, hl, hst⟩ := List.mem_flatMap.mp hst
    exact (Layer.builtIn_server l hl).copied st hst
  · rw [List.mem_singleton.mp hst]
    exact fun _ _ => rfl

theorem keeps_stages (hchain : b.handlerConfig.chain = []) :
    ∀ st ∈ stages b c e, st.Keeps (Quiet b (fun _ _ => True)) := by
  intro st hst
  rcases List.mem_append.mp hst with hst | hst
  · obtain ⟨l, hl, hst⟩ := List.mem_flatMap.mp hst
    exact (Layer.builtIn_server l hl).keeps hchain (fun _ => True) st hst
  · rw [List.mem_singleton.mp hst]
    exact Invoker.keeps_quiet e

/-- Whether a request without an action is refused. -/
def demandsAction (b : Binding World) (c : AssemblySettings) : Bool :=
  b.version?.isSome && b.hasAddressing && c.requireAddressing

section Line

variable {payload : Option Element} {answer : Option (Option Element)} {J J' : Nat → World → Prop} {good : Prop}

theorem line_bare (hkind : b.kind = .xmlHttp) (hchain : b.handlerConfig.chain = [])
    (hlast : Stage.Line [Invoker.stage e] (Quiet.With b (Packet.Bears none (some payload)) J)
      (Quiet.Gives b good (Packet.Sends none answer) J')) :
    Stage.Line (stages b c e) (Quiet.With b (Packet.Bears none (some payload)) J)
      (Quiet.Gives b good (Packet.Sends none answer) J') := by
  rw [stages_bare hkind]
  exact Dump.line_optional (fun _ hp => hp.copy) (fun _ hp => hp.copy) c.dump .server
    (.pass (HandlerStage.passes_quiet hchain _ _ J J' good) hlast)

theorem line_soap {v : SoapVersion} (hkind : b.kind = .ofVersion v) (hsecurity : c.security.enabled = false)
    (hchain : b.handlerConfig.chain = [])
    (hlast : Stage.Line [Invoker.stage e] (Quiet.With b (Packet.Bears (some v) (some payload)) J)
      (Quiet.Gives b good (Packet.Sends (some v) answer) J')) :
    Stage.Line (stages b c e)
      (Quiet.With b (Addressing.Asks (some v) payload (demandsAction b c)) J)
      (Quiet.Gives b good (Packet.Sends (some v) answer) J') := by
  have hversion : b.version? = some v := by rw [Binding.version?, hkind, BindingKind.version?_ofVersion]
  have hmust : Stage.Line
      [MustUnderstand.stage .server (stageHeaders b c), HandlerStage.stage ⟨.soap, .server, true⟩,
        HandlerStage.stage ⟨.logical, .server, true⟩, Invoker.stage e]
      (Quiet.With b (Packet.Bears (some v) (some payload)) J) (Quiet.Gives b good (Packet.Sends (some v) answer) J') :=
    .pass (MustUnderstand.passes_server hversion payload _ J J' good)
      (.pass (HandlerStage.passes_quiet hchain _ _ J J' good)
        (.pass (HandlerStage.passes_quiet hchain _ _ J J' good) hlast))
  have hdemands : demandsAction b c = (b.hasAddressing && c.requireAddressing) := by
    rw [demandsAction, hversion]
    rfl
  rw [stages_soap hkind, hdemands, hsecurity, if_neg Bool.false_ne_true, List.nil_append]
  cases haddressing : b.hasAddressing with
  | false =>
    exact (Dump.line_optional (fun _ hp => hp.copy) (fun _ hp => hp.copy) c.dump .server hmust).mono
      (fun _ _ hp => ⟨hp.1.bears, hp.2⟩)
  | true =>
    refine Dump.line_optional (fun _ hp => hp.bears.copy) (fun _ hp => hp.copy) c.dump .server ?_
    exact .pass (Addressing.passes_server payload c.requireAddressing answer J J' good) hmust

theorem line_stages (hsecurity : c.security.enabled = false) (hchain : b.handlerConfig.chain = [])
    (hlast : Stage.Line [Invoker.stage e] (Quiet.With b (Packet.Bears b.version? (some payload)) J)
      (Quiet.Gives b good (Packet.Sends b.version? answer) J')) :
    Stage.Line (stages b c e)
      (Quiet.With b (Addressing.Asks b.version? payload (demandsAction b c)) J)
      (Quiet.Gives b good (Packet.Sends b.version? answer) J') := by
  rcases b.kind.bare_or_soap with hkind | ⟨v, hkind⟩
  · have hversion : b.version? = none := by rw [Binding.version?, hkind]; rfl
    rw [hversion] at hlast ⊢
    exact (line_bare hkind hchain hlast).mono (fun _ _ hp => ⟨hp.1.bears, hp.2⟩)
  · have hversion : b.version? = some v := by rw [Binding.version?, hkind, BindingKind.version?_ofVersion]
    rw [hversion] at hlast ⊢
    exact line_soap hkind hsecurity hchain hlast

end Line

/-- A server of this binding, these settings and this endpoint that has served any number of requests. -/
structure Ready (b : Binding World) (c : AssemblySettings) (e : Endpoint World) (s : Server World) : Prop where
  kind_eq : s.kind = b.kind
  size_eq : s.maxBodySize = c.maxBodySize
  serving : TubePool.Serving (stages b c e) s.pool s.plant
  quiet : Quiet b (fun _ _ => True) s.plant.store

/-- The world of the operations. -/
def world (s : Server World) : World := s.plant.store.world.world

theorem site_new (b : Binding World) (e : Endpoint World) (c : AssemblySettings) (clock : Instant) (world : World) :
    (new b e c clock world).site = .new b clock world :=
  (Layer.build_linked b.kind (serverLayers b c) (Invoker.stage e) _).2.world

theorem ready_new (b : Binding World) (e : Endpoint World) (c : AssemblySettings) (clock : Instant) (world : World) :
    (new b e c clock world).Ready b c e := by
  obtain ⟨hserving, hquiet⟩ := Layer.build_new b.kind (serverLayers b c) (Invoker.stage e) b clock
    (J := fun _ => True) (trivial : (fun _ => True) world)
  exact ⟨rfl, rfl, hserving, hquiet⟩

theorem Ready.process (h : s.Ready b c e) (hchain : b.handlerConfig.chain = []) (packet : Packet) :
    ∃ (head : TubeId) (p' : SitePlant World) (pool' : TubePool), Linked p'.tubes head (stages b c e) ∧
      Quiet b (fun _ w => w = s.world) p'.store ∧
      s.pool.process packet s.plant = ((p'.run (.ofHead head) packet).1, pool', (p'.run (.ofHead head) packet).2.2) ∧
      ({ s with pool := pool', plant := (p'.run (.ofHead head) packet).2.2 } : Server World).Ready b c e := by
  obtain ⟨head, p', pool', hlinked, hbefore, hprocess, hserving, hafter⟩ :=
    h.serving.process_quiet copied_stages (keeps_stages hchain) h.quiet packet
  exact ⟨head, p', pool', hlinked, ⟨hbefore.binding_eq, hbefore.idle, hbefore.condition.2⟩, hprocess, h.kind_eq,
    h.size_eq, hserving, hafter⟩

/-- Whatever a server is asked, it is ready again. -/
theorem Ready.handle (h : s.Ready b c e) (hchain : b.handlerConfig.chain = []) (body : Bytes)
    (contentType action : Option String) : (s.handle body contentType action).2.Ready b c e := by
  rw [Server.handle]
  split
  · exact h
  · split
    · exact h
    · rename_i m hdecode
      obtain ⟨head, p', pool', -, -, hprocess, hready⟩ := h.process hchain (requestPacket m action)
      rw [hprocess]
      exact hready

/-- The reply for a packet that came back. -/
def replyTo (kind : BindingKind) (response : Packet) : Except RuntimeError (Option WireMessage) :=
  match response.message with
  | none => .ok none
  | some m => (Codec.encode m).1.map (fun body => some ⟨body, Codec.contentType kind response.soapAction⟩)

/-- A request that the codec reads runs the operation that claims its payload, once, and the reply is the answer. -/
theorem Ready.handle_bears (h : s.Ready b c e) (hsecurity : c.security.enabled = false)
    (hchain : b.handlerConfig.chain = []) {operations : List (Operation World)}
    (hbuild : Endpoint.build b.kind operations = .ok e) {o : Operation World} (ho : o ∈ operations)
    (honly : ∀ o' ∈ operations, o'.key = o.key → o' = o) {payload : Option Element}
    (hkey : Element.keyOf payload = o.key) {body : Bytes} (hsize : body.length ≤ c.maxBodySize)
    {contentType : Option String} {m : Message} (hdecode : Codec.decode b.kind body contentType = .ok m)
    (hbears : m.Bears b.version? payload)
    (haction : demandsAction b c = true → (m.headers.find? (Addressing.name "Action")).isSome = true)
    (action : Option String) :
    ∃ response s', s.handle body contentType action = (replyTo b.kind response, s') ∧ s'.Ready b c e ∧
      s'.world = (o.run payload s.world).2 ∧
      response.Sends b.version? (Invoker.answered b.kind o.oneWay (o.run payload s.world).1) := by
  obtain ⟨head, p', pool', hlinked, hquiet, hprocess, hready⟩ := h.process hchain (requestPacket m action)
  have hlast := Stage.Line.last (Invoker.answers_quiet hbuild ho honly hkey b s.world)
  obtain ⟨_, store, hrun, hstore, hpacket⟩ := (line_stages hsecurity hchain hlast).run hlinked
    (p := requestPacket m action) (s := p'.store) ⟨⟨m, rfl, hbears, haction⟩, hquiet⟩
  obtain ⟨response, rfl, hsends⟩ := hpacket trivial
  have hplant : p'.run (.ofHead head) (requestPacket m action) = (.ok response, .ofHead head, { p' with store }) := by
    rw [Plant.run, hrun]
  rw [hplant] at hprocess hready
  refine ⟨response, { s with pool := pool', plant := { p' with store } }, ?_, hready, hstore.condition, hsends⟩
  rw [Server.handle, if_neg (by rw [h.size_eq]; omega), h.kind_eq, hdecode]
  simp only [hprocess, replyTo]
  cases response.message <;> rfl

end Server

end SoapNode
