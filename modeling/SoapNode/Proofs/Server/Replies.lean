import SoapNode.Proofs.Server
import SoapNode.Proofs.Stage.Screens

/-!
# Every request gets a reply

Whatever bytes a server is asked with, it replies. The reply can be decoded as the server itself decodes
what it gets; unless an operation succeeded it tells a fault in the version of the binding. No reply at all
means that a one-way operation succeeded.
-/

namespace SoapNode

variable {World : Type}

/-- The reply is decoded, under its own content type, to a message that tells a fault. -/
def WireMessage.TellsFault (kind : BindingKind) (r : WireMessage) : Prop :=
  ∃ m element f, Codec.decode kind r.body (some r.contentType) = .ok m ∧ m.readElement.1 = .ok (some element) ∧
    SoapFault.ofElement element = .ok f ∧ f.version = kind.faultVersion

/-- The reply is decoded, under its own content type, to a message with this payload. -/
def WireMessage.TellsAnswer (kind : BindingKind) (r : WireMessage) (payload : Option Element) : Prop :=
  ∃ m, Codec.decode kind r.body (some r.contentType) = .ok m ∧
    m.readElement.1 = .ok (payload.map (Element.delivered kind.version?))

theorem BindingKind.eq_faultVersion_of_version? {kind : BindingKind} :
    ∀ v ∈ kind.version?, v = kind.faultVersion := by
  intro v hv
  rw [faultVersion, hv]
  rfl

theorem WireMessage.TellsAnswer.fault {kind : BindingKind} {r : WireMessage} {f : ProtocolFault}
    (htellable : f.Tellable) (hversion : f.version = kind.faultVersion)
    (h : r.TellsAnswer kind (some (SoapFault.ofProtocol f).toElement)) : r.TellsFault kind := by
  obtain ⟨m, hdecode, hread⟩ := h
  have hof : (SoapFault.ofProtocol f).version = kind.faultVersion := (ProtocolFault.version_ofProtocol f).trans hversion
  have hreceived : (SoapFault.ofProtocol f).received.version = (SoapFault.ofProtocol f).version := by
    cases SoapFault.ofProtocol f <;> rfl
  refine ⟨m, _, _, hdecode, hread, SoapFault.ofElement_delivered htellable.writable ?_, hreceived.trans hof⟩
  rw [hof]
  exact BindingKind.eq_faultVersion_of_version?

/-- What the operations have to give so that it can be written. -/
structure Operation.Presentable (v : SoapVersion) (o : Operation World) : Prop where
  output : ∀ input world e, (o.run input world).1 = .ok (some e) → e.Writable
  fault : ∀ input world f, (o.run input world).1 = .error (.fault f) → (f.forVersion v).Tellable

/-- What an operation fails with is told as a fault. -/
theorem Operation.Presentable.tellsFault {kind : BindingKind} {o : Operation World}
    (ho : o.Presentable kind.faultVersion) {input : Option Element} {world : World} {cause : ServiceError}
    (failure : (o.run input world).1 = .error cause) {p : Packet}
    (answers : p.Encodes kind.version? (Invoker.answered kind o.oneWay (.error cause))) : p.TellsFault kind := by
  cases cause with
  | fault f => exact ⟨_, ho.fault input world f failure, rfl, answers⟩
  | failed reason =>
    exact ⟨_, (ProtocolFault.tellable_server kind.faultVersion reason).forVersion rfl, rfl, answers⟩

namespace Server

open Assembly

variable {b : Binding World} {c : AssemblySettings} {e : Endpoint World} {s : Server World}
  {m : Message} {world : World}

/-- A server of these settings, after any requests, while its clock and the world may go on by themselves. -/
inductive Reached (b : Binding World) (c : AssemblySettings) (e : Endpoint World) : Server World → Prop where
  | new (clock : Instant) (world : World) : Reached b c e (Server.new b e c clock world)
  | handle {s : Server World} (h : Reached b c e s) (body : Bytes) (contentType action : Option String) :
    Reached b c e (s.handle body contentType action).2
  | meanwhile {s : Server World} (h : Reached b c e s) (clock : Instant) (world : World) :
    Reached b c e (s.modifySite (fun site => { site with clock, world }))

theorem Reached.ready (h : s.Reached b c e) (hchain : b.handlerConfig.chain = []) : s.Ready b c e := by
  induction h with
  | new clock world => exact ready_new b e c clock world
  | handle _ body contentType action ih => exact ih.handle hchain body contentType action
  | meanwhile _ clock world ih =>
    exact ⟨ih.kind_eq, ih.size_eq, ⟨ih.serving.unclosed, ih.serving.template, ih.serving.idle, ih.serving.staged⟩,
      ih.quiet.binding_eq, ih.quiet.idle, trivial⟩

theorem screens_bare (hkind : b.kind = .xmlHttp) (hchain : b.handlerConfig.chain = []) (hkept : m.payload.Kept) :
    Stage.Line (stages b c e) (Packet.Arrives b m world) (Outcome.On b e m world) := by
  rw [stages_bare hkind]
  exact .optional (Dump.screens hkept .server) (.screen (HandlerStage.screens hchain _) (Invoker.line_last hkept))

theorem screens_soap {v : SoapVersion} (hkind : b.kind = .ofVersion v) (heq : e.kind = b.kind)
    (hchain : b.handlerConfig.chain = []) (hspan : (span? c.security.maxTimestampAge).isSome = true)
    (hkept : m.payload.Kept) :
    Stage.Line (stages b c e) (Packet.Arrives b m world) (Outcome.On b e m world) := by
  have hversion : b.version? = some v := by rw [Binding.version?, hkind, BindingKind.version?_ofVersion]
  have hendpoint : e.kind = .ofVersion v := heq.trans hkind
  rw [stages_soap hkind]
  refine .optional (Dump.screens hkept .server) (.optional (Security.screens hspan hendpoint)
    (.optional (Addressing.screens c.requireAddressing hendpoint) ?_))
  exact .screen (MustUnderstand.screens _ hendpoint hversion) (.screen (HandlerStage.screens hchain _)
    (.screen (HandlerStage.screens hchain _) (Invoker.line_last hkept)))

/-- What `handle` makes of the result of an exchange. -/
def told (s : Server World) : Except RuntimeError Packet → Except RuntimeError (Option WireMessage)
  | .ok response => replyTo s.kind response
  | .error cause => s.faultReply (.ofError s.kind.faultVersion cause)

/-- The exchange of a request that can be decoded has an outcome, and the reply tells it. -/
theorem Ready.handle_outcome (h : s.Ready b c e) (hchain : b.handlerConfig.chain = [])
    (hline : Stage.Line (stages b c e) (Packet.Arrives b m s.world) (Outcome.On b e m s.world)) {body : Bytes}
    (hsize : body.length ≤ c.maxBodySize) {contentType : Option String}
    (hdecode : Codec.decode b.kind body contentType = .ok m) (action : Option String) :
    ∃ r, Outcome e m s.world r (s.handle body contentType action).2.world ∧
      (s.handle body contentType action).1 = s.told r := by
  obtain ⟨head, p', pool', hlinked, hquiet, hprocess, -⟩ := h.process hchain (requestPacket m action)
  obtain ⟨r, store, hrun, houtcome⟩ := hline.run hlinked (p := requestPacket m action) (s := p'.store)
    ⟨⟨m, rfl, rfl⟩, hquiet⟩
  have hplant : p'.run (.ofHead head) (requestPacket m action) = (r, .ofHead head, { p' with store }) := by
    rw [Plant.run, hrun]
  rw [hplant] at hprocess
  have hroom : ¬s.maxBodySize < body.length := by
    rw [h.size_eq]
    omega
  have hhandle : s.handle body contentType action =
      (s.told r, { s with pool := pool', plant := { p' with store } }) := by
    rw [Server.handle, if_neg hroom, h.kind_eq, hdecode]
    simp only [hprocess]
    cases r with
    | ok response =>
      cases hm : response.message with
      | none => simp only [told, replyTo, hm]
      | some m => simp only [told, replyTo, hm, reply, h.kind_eq]
    | error cause =>
      obtain ⟨cause, rfl⟩ := houtcome.condition.eq_property
      simp only [told, faultReply, reply, h.kind_eq]
  rw [hhandle]
  exact ⟨r, houtcome.condition, rfl⟩

theorem replyTo_tells {kind : BindingKind} {p : Packet} {payload : Option Element}
    (h : p.Encodes kind.version? (some payload)) (hwritable : ∀ e ∈ payload, e.Writable) :
    ∃ r, replyTo kind p = .ok (some r) ∧ r.TellsAnswer kind payload := by
  obtain ⟨m, hm, hencodable⟩ := h
  obtain ⟨bytes, m', hencode, hdecode, -, hholds⟩ := Codec.decode_encodable kind hencodable hwritable p.soapAction
  refine ⟨⟨bytes, Codec.contentType kind p.soapAction⟩, ?_, m', hdecode, hholds.readElement⟩
  rw [replyTo, hm]
  simp only [hencode, Except.map]

theorem replyTo_tellsFault {kind : BindingKind} {p : Packet} (h : p.TellsFault kind) :
    ∃ r, replyTo kind p = .ok (some r) ∧ r.TellsFault kind := by
  obtain ⟨f, htellable, hversion, hencodes⟩ := h
  obtain ⟨r, hreply, hanswer⟩ := replyTo_tells hencodes
    (fun e he => Option.mem_some_iff.mp he ▸ htellable.writable.toElement)
  exact ⟨r, hreply, hanswer.fault htellable hversion⟩

theorem faultReply_tells (s : Server World) {f : ProtocolFault} (h : (f.forVersion s.kind.faultVersion).Tellable) :
    ∃ r, s.faultReply f = .ok (some r) ∧ r.TellsFault s.kind :=
  replyTo_tellsFault (p := Packet.empty.respondFault s.kind.version? f) (Packet.tellsFault_respondFault _ h)

theorem told_refused {p : Packet} (h : p.TellsFault s.kind) :
    ∃ r, s.told (.ok p) = .ok (some r) ∧ r.TellsFault s.kind :=
  replyTo_tellsFault h

theorem told_thrown (s : Server World) (cause : PropertyError) :
    ∃ r, s.told (.error (.property cause)) = .ok (some r) ∧ r.TellsFault s.kind := by
  have htellable : (ProtocolFault.ofError s.kind.faultVersion (.property cause)).Tellable :=
    ProtocolFault.tellable_ofError_of_none rfl
  exact s.faultReply_tells (htellable.forVersion (ProtocolFault.version_ofError _ _))

/-- A request that is too large, or that cannot be decoded, is answered with a fault and changes nothing. -/
theorem handle_refuses {body : Bytes} (contentType action : Option String)
    (h : s.maxBodySize < body.length ∨ ∃ cause, Codec.decode s.kind body contentType = .error cause) :
    (s.handle body contentType action).2 = s ∧
      ∃ r, (s.handle body contentType action).1 = .ok (some r) ∧ r.TellsFault s.kind := by
  rw [handle]
  split
  · exact ⟨rfl, s.faultReply_tells ((ProtocolFault.tellable_client _ _).forVersion rfl)⟩
  · rename_i hroom
    obtain ⟨cause, hdecode⟩ := h.resolve_left hroom
    rw [hdecode]
    refine ⟨rfl,
      s.faultReply_tells ((ProtocolFault.tellable_ofError ?_).forVersion (ProtocolFault.version_ofError _ _))⟩
    intro f hf
    have hcause : cause = .protocol f := by
      cases cause with
      | protocol f' => exact congrArg RuntimeError.protocol (Option.some_inj.mp hf)
      | _ => cases hf
    obtain ⟨htellable, hversion⟩ := Codec.objects_decode s.kind body contentType f (hcause ▸ hdecode)
    exact htellable.forVersion hversion

/-- The operation that is called for a request, and the input it is called with. -/
structure Calls (e : Endpoint World) (body : Bytes) (contentType : Option String) (o : Operation World)
    (input : Option Element) : Prop where
  mem : o ∈ e.operations
  dispatched : ∃ (m : Message) (q : Packet), Codec.decode e.kind body contentType = .ok m ∧ q.Carries m ∧
    (e.dispatch q).1 = .ok o ∧ m.readElement.1 = .ok input

/-- What is replied to a request, and what becomes of the world. -/
inductive Replied (e : Endpoint World) (body : Bytes) (contentType : Option String) (world : World) :
    Option WireMessage → World → Prop where
  | refused {r : WireMessage} (fault : r.TellsFault e.kind) : Replied e body contentType world (some r) world
  | failed {r : WireMessage} {o : Operation World} {input : Option Element} {cause : ServiceError}
      (calls : Calls e body contentType o input) (failure : (o.run input world).1 = .error cause)
      (fault : r.TellsFault e.kind) : Replied e body contentType world (some r) (o.run input world).2
  | answered {r : WireMessage} {o : Operation World} {input output : Option Element}
      (calls : Calls e body contentType o input) (twoWay : o.oneWay = false)
      (success : (o.run input world).1 = .ok output)
      (answer : r.TellsAnswer e.kind output) : Replied e body contentType world (some r) (o.run input world).2
  | accepted {o : Operation World} {input output : Option Element} (calls : Calls e body contentType o input)
      (oneWay : o.oneWay = true) (success : (o.run input world).1 = .ok output) :
      Replied e body contentType world none (o.run input world).2

/-- An outcome is told, if what the operations give can be written. -/
theorem replied_of_outcome (hkind : s.kind = e.kind)
    (ho : ∀ o ∈ e.operations, o.Presentable e.kind.faultVersion) {body : Bytes} {contentType : Option String}
    (hdecode : Codec.decode e.kind body contentType = .ok m) {r : Except RuntimeError Packet} {world' : World}
    (h : Outcome e m world r world') :
    ∃ reply, s.told r = .ok reply ∧ Replied e body contentType world reply world' := by
  cases h with
  | refused tells =>
    obtain ⟨r, hreply, htells⟩ := told_refused (hkind ▸ tells)
    exact ⟨some r, hreply, .refused (hkind ▸ htells)⟩
  | thrown cause =>
    obtain ⟨r, hreply, htells⟩ := s.told_thrown cause
    exact ⟨some r, hreply, .refused (hkind ▸ htells)⟩
  | @called p o input mem found read answers =>
    obtain ⟨q, hcarries, hdispatch⟩ := found
    have hcalls : Calls e body contentType o input := ⟨mem, m, q, hdecode, hcarries, hdispatch, read⟩
    have hpresentable := ho o mem
    rw [told, hkind]
    cases hrun : (o.run input world).1 with
    | ok output =>
      rw [hrun, Invoker.answered] at answers
      cases honeWay : o.oneWay with
      | true =>
        rw [honeWay, if_pos rfl] at answers
        refine ⟨none, ?_, .accepted hcalls honeWay hrun⟩
        rw [replyTo, show p.message = none from answers]
      | false =>
        rw [honeWay, if_neg Bool.false_ne_true] at answers
        obtain ⟨r, hreply, htells⟩ := replyTo_tells answers (by
          rintro output ⟨⟩
          exact hpresentable.output input world _ hrun)
        exact ⟨some r, hreply, .answered hcalls honeWay hrun htells⟩
    | error cause =>
      obtain ⟨r, hreply, htells⟩ := replyTo_tellsFault (hpresentable.tellsFault hrun (hrun ▸ answers))
      exact ⟨some r, hreply, .failed hcalls hrun htells⟩

/-- Every request gets a reply, and the reply tells what became of it. -/
theorem handle_replies (h : s.Reached b c e) (hkind : e.kind = b.kind) (hchain : b.handlerConfig.chain = [])
    (hspan : (span? c.security.maxTimestampAge).isSome = true)
    (ho : ∀ o ∈ e.operations, o.Presentable b.kind.faultVersion) (body : Bytes)
    (contentType action : Option String) :
    ∃ reply, (s.handle body contentType action).1 = .ok reply ∧
      Replied e body contentType s.world reply (s.handle body contentType action).2.world := by
  have hready := h.ready hchain
  have hserver : s.kind = e.kind := hready.kind_eq.trans hkind.symm
  by_cases hsize : s.maxBodySize < body.length
  · obtain ⟨hsame, r, hreply, htells⟩ := handle_refuses contentType action (.inl hsize)
    rw [hsame]
    exact ⟨some r, hreply, .refused (hserver ▸ htells)⟩
  · cases hdecode : Codec.decode s.kind body contentType with
    | error cause =>
      obtain ⟨hsame, r, hreply, htells⟩ := handle_refuses contentType action (.inr ⟨cause, hdecode⟩)
      rw [hsame]
      exact ⟨some r, hreply, .refused (hserver ▸ htells)⟩
    | ok m =>
      have hkept := Codec.kept_decode hdecode
      have hline : Stage.Line (stages b c e) (Packet.Arrives b m s.world) (Outcome.On b e m s.world) := by
        rcases b.kind.bare_or_soap with hbare | ⟨v, hsoap⟩
        · exact screens_bare hbare hchain hkept
        · exact screens_soap hsoap hkind hchain hspan hkept
      obtain ⟨r, houtcome, hreply⟩ := hready.handle_outcome hchain hline (by rw [← hready.size_eq]; omega)
        (hready.kind_eq ▸ hdecode) action
      obtain ⟨reply, htold, hreplied⟩ := replied_of_outcome hserver (hkind ▸ ho) (hserver ▸ hdecode) houtcome
      exact ⟨reply, hreply.trans htold, hreplied⟩

/-- Closes a service, and objects when it is closed already. -/
def closingOperation : Operation Nat :=
  ⟨"close", none, none, true, fun _ n => (if n = 0 then .ok none else .error (.fault (.server .v12 "late")), n + 1)⟩

def closingEndpoint : Endpoint Nat := ⟨.soap12, [closingOperation], Endpoint.dispatcherOf .v12 [closingOperation]⟩

def closingSettings : AssemblySettings := { security := { enabled := true } }

def closingServer : Server Nat := new (.new .soap12) closingEndpoint closingSettings ⟨0, 0⟩ 0

def closingRequest : Bytes :=
  Utf8.encode "<s:Envelope xmlns:s=\"http://www.w3.org/2003/05/soap-envelope\"><s:Body/></s:Envelope>"

/-- The service is asked to close for a second time. -/
theorem handle_replies_closing :
    (span? closingSettings.security.maxTimestampAge).isSome = true ∧ closingOperation.Presentable .v12 ∧
      ∃ reply, ((closingServer.handle closingRequest none none).2.handle closingRequest none none).1 = .ok reply ∧
        Replied closingEndpoint closingRequest none (closingServer.handle closingRequest none none).2.world reply
          ((closingServer.handle closingRequest none none).2.handle closingRequest none none).2.world := by
  have hpresentable : closingOperation.Presentable .v12 := by
    refine ⟨fun input n e h => ?_, fun input n f h => ?_⟩
    · by_cases hn : n = 0 <;> simp [closingOperation, hn] at h
    · by_cases hn : n = 0
      · simp [closingOperation, hn] at h
      · have hf : f = .server .v12 "late" := by simpa [closingOperation, hn] using h.symm
        rw [hf]
        exact (ProtocolFault.tellable_server .v12 "late").forVersion rfl
  have hspan : (span? closingSettings.security.maxTimestampAge).isSome = true := by decide
  refine ⟨hspan, hpresentable,
    handle_replies ((Reached.new ⟨0, 0⟩ 0).handle closingRequest none none) rfl rfl hspan ?_
    closingRequest none none⟩
  exact List.forall_mem_singleton.mpr hpresentable

end Server

end SoapNode
