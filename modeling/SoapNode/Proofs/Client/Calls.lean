import SoapNode.Proofs.Client.Replies
import SoapNode.Proofs.Client.Stages

/-!
# A call through a client and a server

Whatever was asked before, a call runs the operation that claims its payload, once, on the payload as it
is delivered, and the caller gets what the operation gave.
-/

namespace SoapNode

variable {World : Type}

namespace Client

def server (client : Client (Server World)) : Server World := client.site.world

/-- A client of a new server, after any calls and any requests of others to the server. -/
inductive Reached (cb : Binding (Server World)) (cc : AssemblySettings) (sb : Binding World) (sc : AssemblySettings)
    (e : Endpoint World) : Client (Server World) → Prop where
  | new (address : Option String) (clock clock' : Instant) (world : World) :
    Reached cb cc sb sc e (new cb cc Transport.toServer address clock (Server.new sb e sc clock' world))
  | invoke {client : Client (Server World)} (h : Reached cb cc sb sc e client) (call : Call)
    (payload : Option Element) :
    Reached cb cc sb sc e (client.invoke call payload).2
  | callRecord {client : Client (Server World)} (h : Reached cb cc sb sc e client) (call : Call) (root : String)
    (fields : List (String × FieldValue)) (schema : List (String × FieldKind)) :
    Reached cb cc sb sc e (client.callRecord call root fields schema).2
  | request {client : Client (Server World)} (h : Reached cb cc sb sc e client) (body : Bytes)
    (contentType action : Option String) :
    Reached cb cc sb sc e (client.modifySite (·.modifyWorld (fun server => (server.handle body contentType action).2)))

/-- A client whose chains have the stages of its binding, in front of a server that is ready. -/
structure Ready (cb : Binding (Server World)) (cc : AssemblySettings) (sb : Binding World) (sc : AssemblySettings)
    (e : Endpoint World) (client : Client (Server World)) : Prop where
  kind_eq : client.kind = cb.kind
  serving : TubePool.Serving (stages cb cc Transport.toServer) client.pool client.plant
  quiet : Quiet cb (fun _ server => server.Ready sb sc e) client.plant.store

/-- The message of a call as the transport gets it. -/
def requestMessage (client : Client World) (call : Call) (payload : Option Element) : Message :=
  let m := Message.ofPayload client.kind.version? (.ofElement payload)
  sentMessage client.site.binding (Site.idText client.site.issued) (client.requestPacket call m) m

theorem requestMessage_new (b : Binding World) (c : AssemblySettings) (t : Transport World) (address : Option String)
    (clock : Instant) (world : World) (call : Call) (payload : Option Element) :
    (new b c t address clock world).requestMessage call payload =
      let m := Message.ofPayload b.version? (.ofElement payload)
      sentMessage b (Site.idText 0)
        ((((Packet.ofMessage m).setSoapAction call.action).setEndpointAddress address).setExpectsReply
        (!call.oneWay)) m := by
  rw [requestMessage, site_new]
  rfl

section Calls

variable {cb : Binding (Server World)} {sb : Binding World} {cc sc : AssemblySettings} {e : Endpoint World}
  {client : Client (Server World)} {call : Call} {payload : Option Element}

theorem ready_new (address : Option String) (clock clock' : Instant) (world : World) :
    (new cb cc Transport.toServer address clock (Server.new sb e sc clock' world)).Ready cb cc sb sc e := by
  obtain ⟨hserving, hquiet⟩ :=
    Layer.build_new cb.kind (Assembly.clientLayers cb cc) (Transport.stage cb.kind Transport.toServer) cb
      clock (J := fun server => server.Ready sb sc e) (Server.ready_new sb e sc clock' world)
  exact ⟨rfl, hserving, hquiet⟩

theorem invoke_eq (client : Client World) (call : Call) (payload : Option Element) :
    client.invoke call payload =
      (told (client.exchange call (.ofPayload client.kind.version? (.ofElement payload))).1,
        (client.exchange call (.ofPayload client.kind.version? (.ofElement payload))).2) := by
  cases payload <;> rfl

/-- What is sent names its action where the server asks for one. -/
theorem find?_action_of_demands (p : Packet) (id : String) (hversion : cb.version? = sb.version?)
    (hrequired : sb.hasAddressing = true → sc.requireAddressing = true →
      cb.hasAddressing = true ∧ p.soapAction.isSome = true)
    (hdemands : Server.demandsAction sb sc = true) (m : Message) :
    ((sentMessage cb id p m).headers.find? (Addressing.name "Action")).isSome = true := by
  simp only [Server.demandsAction, Bool.and_eq_true] at hdemands
  obtain ⟨⟨henvelopes, haddressing⟩, hrequire⟩ := hdemands
  obtain ⟨hadds, hnamed⟩ := hrequired haddressing hrequire
  exact find?_sentMessage (hversion ▸ henvelopes) hadds hnamed id

variable (hchain : cb.handlerConfig.chain = []) (hchain' : sb.handlerConfig.chain = [])

include hchain hchain'

theorem keeps_toServer :
    ∀ st ∈ stages cb cc Transport.toServer, st.Keeps (Quiet cb (fun _ server => server.Ready sb sc e)) :=
  keeps_stages hchain (fun request action _ _ hready => hready.handle hchain' request.body _ action)

theorem Ready.exchange (h : client.Ready cb cc sb sc e) (call : Call) (m : Message) :
    (client.exchange call m).2.Ready cb cc sb sc e := by
  obtain ⟨head, p', pool', -, -, hprocess, hserving, hquiet⟩ := h.serving.process_quiet copied_stages
    (keeps_toServer hchain hchain') h.quiet (client.requestPacket call m)
  rw [Client.exchange, hprocess]
  exact ⟨h.kind_eq, hserving, hquiet⟩

theorem Reached.ready (h : client.Reached cb cc sb sc e) : client.Ready cb cc sb sc e := by
  induction h with
  | new address clock clock' world => exact ready_new address clock clock' world
  | invoke _ call payload ih =>
    rw [invoke_eq]
    exact ih.exchange hchain hchain' call _
  | callRecord _ call root fields schema ih =>
    rw [Client.callRecord]
    split
    · exact ih
    · exact ih.exchange hchain hchain' call _
  | request _ body contentType action ih =>
    have hready := ih.quiet.condition.handle hchain' body contentType action
    exact ⟨ih.kind_eq, ⟨ih.serving.unclosed, ih.serving.template, ih.serving.idle, ih.serving.staged⟩,
      ih.quiet.binding_eq, ih.quiet.idle, hready⟩

variable (hsecurity : cc.security.enabled = false) (hsecurity' : sc.security.enabled = false)

include hsecurity hsecurity'

/-- A call runs the operation that claims its payload, once. If the answer can be written, the response
that is unpacked has it. -/
theorem Ready.exchange_answers (h : client.Ready cb cc sb sc e) (hkind : cb.kind = sb.kind)
    {operations : List (Operation World)} (hbuild : Endpoint.build sb.kind operations = .ok e) {o : Operation World}
    (ho : o ∈ operations) (honly : ∀ o' ∈ operations, o'.key = o.key → o' = o) (htwoWay : call.oneWay = false)
    {m : Message} (hm : m.Sendable sb.version? payload) (hwritable : ∀ e ∈ payload, e.Writable)
    (hkey : Element.keyOf payload = o.key)
    (hrequired : sb.hasAddressing = true → sc.requireAddressing = true →
      cb.hasAddressing = true ∧ call.action.isSome = true)
    (hsize : ∀ body,
      (Codec.encode (sentMessage cb (Site.idText client.site.issued) (client.requestPacket call m) m)).1 = .ok body →
        body.length ≤ sc.maxBodySize) :
    (client.exchange call m).2.server.world =
        (o.run (payload.map (Element.delivered sb.version?)) client.server.world).2 ∧
      let answer := Invoker.answered sb.kind o.oneWay
        (o.run (payload.map (Element.delivered sb.version?)) client.server.world).1
      ((∀ payload ∈ answer, ∀ e ∈ payload, e.Writable) →
        ∃ response, (client.exchange call m).1 = unpack call response ∧
          response.Bears sb.version? (answer.map (Option.map (Element.delivered sb.version?)))) := by
  have hversion : cb.version? = sb.version? := by rw [Binding.version?, Binding.version?, hkind]
  have hexpects : (client.requestPacket call m).isOneWay = false := by
    show decide (some (!call.oneWay) = some false) = false
    rw [htwoWay]
    rfl
  have hnames := fun hdemands => find?_action_of_demands (client.requestPacket call m)
    (Site.idText client.site.issued) hversion hrequired hdemands m
  obtain ⟨response, server', hexchange, -, hworld, hanswer⟩ :=
    Transport.exchange_toServer h.quiet.condition hsecurity' hchain'
      hbuild ho honly hkey hwritable (message_sentPacket (b := cb) rfl _) (sendable_sentMessage hm _)
      ((isOneWay_sentPacket _).trans hexpects) hsize hnames
  obtain ⟨head, p', pool', hlinked, hbefore, hprocess, -, -⟩ := h.serving.process_quiet copied_stages
    (keeps_toServer hchain hchain') h.quiet (client.requestPacket call m)
  rw [← hkind] at hexchange
  have hlast := Stage.Line.last (Transport.answers_quiet (b := cb) hexchange hanswer)
  rw [← hversion] at hlast hm
  obtain ⟨result, store, hrun, hstore, hpacket⟩ := (line_stages hsecurity hchain rfl hm hlast).run hlinked
    (p := client.requestPacket call m) (s := p'.store) ⟨rfl, hbefore⟩
  have hplant : p'.run (.ofHead head) (client.requestPacket call m) = (result, .ofHead head, { p' with store }) := by
    rw [Plant.run, hrun]
  rw [hplant] at hprocess
  rw [Client.exchange, hprocess]
  constructor
  · show store.world.world.world = _
    rw [hstore.condition]
    exact hworld
  · intro answer hgood
    rw [hversion] at hpacket
    obtain ⟨response, rfl, hbears⟩ := hpacket hgood
    exact ⟨response, rfl, hbears⟩

/-- A two-way call runs the operation that alone claims the name of its payload, once and nothing else, on
the payload up to `norm`, and the caller gets what the operation gave. -/
theorem invoke_toServer (h : client.Reached cb cc sb sc e)
    (hkind : cb.kind = sb.kind) {operations : List (Operation World)}
    (hbuild : Endpoint.build sb.kind operations = .ok e) {o : Operation World} (ho : o ∈ operations)
    (honly : ∀ o' ∈ operations, o'.key = o.key → o' = o) (htwoWay : call.oneWay = false)
    (hwritable : ∀ e ∈ payload, e.Writable) (hkey : Element.keyOf payload = o.key)
    (hrequired : sb.hasAddressing = true → sc.requireAddressing = true →
      cb.hasAddressing = true ∧ call.action.isSome = true)
    (hsize : ∀ body, (Codec.encode (client.requestMessage call payload)).1 = .ok body →
      body.length ≤ sc.maxBodySize) :
    ∃ input, input.map Element.erase = payload.map (·.norm.erase) ∧
      (client.invoke call payload).2.server.world = (o.run input client.server.world).2 ∧
      Expected sb.kind o.oneWay (client.invoke call payload).1 (o.run input client.server.world).1 := by
  have hready := h.ready hchain hchain'
  have hversion : client.kind.version? = sb.version? := by rw [hready.kind_eq, hkind, Binding.version?]
  have hsendable := Message.sendable_ofPayload client.kind.version? payload
  rw [hversion] at hsendable
  rw [requestMessage, hversion, show client.site.binding = cb from hready.quiet.binding_eq] at hsize
  obtain ⟨hworld, hanswer⟩ :=
    hready.exchange_answers hchain hchain' hsecurity hsecurity' hkind hbuild ho honly htwoWay
      hsendable hwritable hkey hrequired hsize
  rw [invoke_eq, hversion]
  exact ⟨_, erase_delivered_option sb.version? payload, hworld, expected_told htwoWay hanswer⟩

end Calls

/-- A first call of a counting operation, with addressing and dumps on. -/
theorem invoke_toServer_note :
    let note : Element := ((Element.named ⟨"urn:notes", "note"⟩).pushText "a").pushText "<b>"
    let receipt : Element := (Element.named ⟨"urn:notes", "receipt"⟩).pushText " "
    let add : Operation Nat := ⟨"add", some note.name, none, false, fun _ n => (.ok (some receipt), n + 1)⟩
    let server := Server.new ((Binding.new .soap12).withFeature addressingFeature)
      ⟨.soap12, [add], Endpoint.dispatcherOf .v12 [add]⟩ { requireAddressing := true } ⟨0, 0⟩ 0
    let client := Client.new ((Binding.new .soap12).withFeature addressingFeature) { dump := true } Transport.toServer
      (some "urn:notes") ⟨0, 0⟩ server
    let call : Call := ⟨some "urn:notes:add", false⟩
    (client.invoke call (some note)).2.server.world = 1 ∧
      ∃ reply, (client.invoke call (some note)).1 = .ok reply ∧
          reply.map Element.erase = some receipt.norm.erase := by
  intro note receipt add server client call
  have hsize : ∀ body, (Codec.encode (client.requestMessage call (some note))).1 = .ok body →
      body.length ≤ 1048576 := by
    have hlength : (Codec.encode (client.requestMessage call (some note))).1.toOption.all
        (·.length ≤ 1048576) = true := by
      rw [show client.requestMessage _ _ = _ from requestMessage_new _ _ _ _ _ _ _ _]
      decide +kernel
    intro body hbody
    rw [hbody] at hlength
    exact of_decide_eq_true hlength
  obtain ⟨input, -, hworld, hexpected⟩ := @invoke_toServer Nat _ _ _ _ _ client call (some note)
    rfl rfl rfl rfl (.new (some "urn:notes") ⟨0, 0⟩ ⟨0, 0⟩ 0) rfl [add] rfl add List.mem_cons_self
    (fun _ h _ => List.mem_singleton.mp h) rfl (by decide) rfl (fun _ _ => ⟨by decide, rfl⟩) hsize
  have hzero : client.server.world = 0 := by
    rw [Client.server, show client.site = _ from site_new _ _ _ _ _ _]
    exact congrArg Site.world (Server.site_new _ _ _ _ _)
  rw [hzero] at hworld
  exact ⟨hworld, hexpected (by decide) (by decide)⟩

end Client

end SoapNode
