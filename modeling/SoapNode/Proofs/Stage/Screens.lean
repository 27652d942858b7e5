import SoapNode.Proofs.Endpoint
import SoapNode.Proofs.Message.Content
import SoapNode.Proofs.Message.Telling
import SoapNode.Proofs.Stage.BuiltIn

/-!
# Requests are passed on, or answered with a fault

A stage of a server passes a request on with its payload, or it answers at once with a fault that can be
told; whatever comes back stays an answer that can be sent. The invoker calls one operation, on the payload
of the request, or none.
-/

namespace SoapNode

variable {World : Type}

/-- A packet without a message, or with a message that can be put on the wire. -/
def Packet.Encodes (version : Option SoapVersion) (answer : Option (Option Element)) (p : Packet) : Prop :=
  match answer with
  | none => p.message = none
  | some payload => ∃ m, p.message = some m ∧ m.Encodable version payload

/-- A packet with the payload of a message, whatever became of its header blocks. -/
def Packet.Carries (m : Message) (p : Packet) : Prop := ∃ m', p.message = some m' ∧ m'.payload = m.payload

/-- A packet whose message tells a fault of the version for this kind of binding. -/
def Packet.TellsFault (kind : BindingKind) (p : Packet) : Prop :=
  ∃ f : ProtocolFault, f.Tellable ∧ f.version = kind.faultVersion ∧
    p.Encodes kind.version? (some (some (SoapFault.ofProtocol f).toElement))

/-- How a server answers the request with a message: it refuses, or it calls the operation it finds, once. -/
inductive Outcome (e : Endpoint World) (m : Message) (world : World) :
    Except RuntimeError Packet → World → Prop where
  | refused {p : Packet} (tells : p.TellsFault e.kind) : Outcome e m world (.ok p) world
  | thrown (cause : PropertyError) : Outcome e m world (.error (.property cause)) world
  | called {p : Packet} {o : Operation World} {input : Option Element} (mem : o ∈ e.operations)
      (found : ∃ q : Packet, q.Carries m ∧ (e.dispatch q).1 = .ok o) (read : m.readElement.1 = .ok input)
      (answers : p.Encodes e.kind.version? (Invoker.answered e.kind o.oneWay (o.run input world).1)) :
      Outcome e m world (.ok p) (o.run input world).2

namespace Message

variable {m m' : Message} {version : Option SoapVersion} {payload : Option Element}

theorem Encodable.sameContent (h : m.Encodable version payload) (hsame : m.SameContent m') :
    m'.Encodable version payload := by
  refine ⟨hsame.version_eq.trans h.version_eq, ?_, hsame.headers_eq ▸ h.blocks⟩
  have hpayload := hsame.payload
  rw [h.payload_eq] at hpayload
  generalize m'.payload = p at hpayload ⊢
  cases payload <;> cases hpayload <;> rfl

theorem Encodable.kept (h : m.Encodable version payload) : m.payload.Kept := by
  rw [h.payload_eq]
  cases payload <;> exact fun _ _ => nofun

theorem encodable_ofPayload (version : Option SoapVersion) (payload : Option Element) :
    (ofPayload version (.ofElement payload)).Encodable version payload :=
  (sendable_ofPayload version payload).encodable

end Message

namespace Packet

variable {version : Option SoapVersion} {answer : Option (Option Element)} {p p' : Packet} {m : Message}
  {kind : BindingKind}

theorem Sends.encodes (h : p.Sends version answer) : p.Encodes version answer := by
  cases answer with
  | none => exact h
  | some payload =>
    obtain ⟨m, hm, hsendable⟩ := h
    exact ⟨m, hm, hsendable.encodable⟩

theorem Encodes.copy (h : p.Encodes version answer) : ∀ m ∈ p.message, m.copy.2 = m := by
  intro m hm
  cases answer with
  | none =>
    rw [show p.message = none from h] at hm
    cases hm
  | some payload =>
    obtain ⟨m', hm', hencodable⟩ := h
    rw [hm'] at hm
    cases hm
    exact Message.copy_of_kept hencodable.kept

theorem Carries.copy (h : p.Carries m) (hkept : m.payload.Kept) : ∀ m ∈ p.message, m.copy.2 = m := by
  obtain ⟨m', hm', hpayload⟩ := h
  intro m'' hm''
  rw [hm'] at hm''
  cases hm''
  exact Message.copy_of_kept (hpayload ▸ hkept)

theorem tellsFault_respondFault (p : Packet) {f : ProtocolFault} (h : (f.forVersion kind.faultVersion).Tellable) :
    (p.respondFault kind.version? f).TellsFault kind := by
  refine ⟨f.forVersion kind.faultVersion, h, rfl, _, rfl, ?_⟩
  rw [Invoker.ofFaultFor_eq]
  exact Message.encodable_ofPayload kind.version? _

theorem tellsFault_respondFault_ofVersion {v : SoapVersion} (p : Packet) {f : ProtocolFault}
    (h : (f.forVersion v).Tellable) : (p.respondFault (some v) f).TellsFault (.ofVersion v) := by
  rw [← BindingKind.faultVersion_ofVersion v] at h
  have hfault := tellsFault_respondFault p h
  rwa [BindingKind.version?_ofVersion] at hfault

end Packet

namespace Outcome

variable {e : Endpoint World} {m : Message} {world world' : World} {p p' : Packet}

/-- An outcome stays one when its packet is changed but for the content of what it answers. -/
theorem respond (h : Outcome e m world (.ok p) world')
    (hp : ∀ answer, p.Encodes e.kind.version? answer → p'.Encodes e.kind.version? answer) :
    Outcome e m world (.ok p') world' := by
  cases h with
  | refused tells =>
    obtain ⟨f, htellable, hversion, hencodes⟩ := tells
    exact .refused ⟨f, htellable, hversion, hp _ hencodes⟩
  | called mem found read answers => exact .called mem found read (hp _ answers)

theorem encodes (h : Outcome e m world (.ok p) world') : ∃ answer, p.Encodes e.kind.version? answer := by
  cases h with
  | refused tells =>
    obtain ⟨f, -, -, hencodes⟩ := tells
    exact ⟨_, hencodes⟩
  | called mem found read answers => exact ⟨_, answers⟩

theorem eq_property {cause : RuntimeError} (h : Outcome e m world (.error cause) world') :
    ∃ p, cause = .property p := by
  cases h with
  | thrown cause => exact ⟨cause, rfl⟩

end Outcome

/-- The store of a quiet site while an outcome travels back. -/
abbrev Outcome.On (b : Binding World) (e : Endpoint World) (m : Message) (world : World)
    (r : Except RuntimeError Packet) (s : SiteStore World) : Prop :=
  Quiet b (fun _ v => Outcome e m world r v) s

/-- A request on a quiet site in a world, with the payload of a message. -/
abbrev Packet.Arrives (b : Binding World) (m : Message) (world : World) : Packet → SiteStore World → Prop :=
  Quiet.With b (Packet.Carries m) (fun _ v => v = world)

section Stages

variable {b : Binding World} {e : Endpoint World} {m : Message} {world : World}

theorem Dump.screens (hkept : m.payload.Kept) (side : Side) :
    (Dump.stage side).Screens (Packet.Arrives b m world) (Packet.Arrives b m world) (Outcome.On b e m world)
      (Outcome.On b e m world) := by
  refine (Dump.passes (fun _ hp => hp.copy hkept) ?_ _).screens
  intro p s n w h
  obtain ⟨answer, hencodes⟩ := h.encodes
  rw [packet_dump side true hencodes.copy]
  exact h

theorem HandlerStage.screens (hchain : b.handlerConfig.chain = []) (h : HandlerStage) :
    h.stage.Screens (Packet.Arrives b m world) (Packet.Arrives b m world) (Outcome.On b e m world)
      (Outcome.On b e m world) :=
  (HandlerStage.passes hchain _ _ _).screens

namespace Security

theorem isSome_validate {c : SecuritySettings} (hspan : (span? c.maxTimestampAge).isSome = true)
    (now : Instant) (l : HeaderList) : (validate c now l).isSome = true := by
  obtain ⟨limit, hlimit⟩ := Option.isSome_iff_exists.mp hspan
  have hcreated : ∀ created, (checkCreated c now created).isSome = true := by
    intro created
    unfold checkCreated
    split
    · rfl
    · simp only [hlimit, Option.bind_eq_bind, Option.bind_some]
      split
      · rfl
      · split <;> rfl
  have htimestamp : ∀ t, (checkTimestamp c now t).isSome = true := by
    intro t
    unfold checkTimestamp
    split
    · rfl
    · match t with
      | none => rfl
      | some ⟨none, expires⟩ => rfl
      | some ⟨some created, expires⟩ =>
        obtain ⟨violations, hviolations⟩ := Option.isSome_iff_exists.mp (hcreated created)
        simp only [hviolations]
        rfl
  unfold validate
  split
  · rfl
  · rename_i h _
    obtain ⟨violations, hviolations⟩ := Option.isSome_iff_exists.mp (htimestamp h.timestamp)
    rw [hviolations]
    rfl

theorem message_storeIdentity {c : SecuritySettings} {p p' : Packet} {identity : Option String}
    (h : storeIdentity c p identity = .ok p') : p'.message = p.message := by
  unfold storeIdentity at h
  split at h
  · rename_i key user _
    rw [PropertySet.put] at h
    generalize hwritten : PropertySet.write p key (.string user) = written at h
    obtain ⟨answer, q⟩ := written
    cases answer with
    | error e => cases h
    | ok old =>
      cases h
      exact congrArg (·.2.message) hwritten.symm
  · cases h
    rfl

variable {v : SoapVersion}

theorem screens {c : SecuritySettings} (hspan : (span? c.maxTimestampAge).isSome = true)
    (hkind : e.kind = .ofVersion v) :
    (stage .server (some v) c).Screens (Packet.Arrives b m world) (Packet.Arrives b m world) (Outcome.On b e m world)
      (Outcome.On b e m world) where
  request w p s hp := by
    obtain ⟨⟨m', hm', hpayload⟩, hs⟩ := hp
    obtain ⟨result, hresult⟩ := Option.isSome_iff_exists.mp (isSome_validate hspan s.world.clock m'.headers)
    by_cases hviolations : (!result.violations.isEmpty) = true
    · have hrequest : (stage .server (some v) c).request w p s =
          (.ret (p.respondFault (some v) (violationFault v result.violations)), s) := by
        simp only [stage, serverRequest, hm', hresult]
        rw [if_pos hviolations, Option.getD_some]
      refine .inr ⟨_, _, s, hrequest, rfl, hs.binding_eq, hs.idle, ?_⟩
      rw [hs.condition]
      refine .refused ?_
      rw [hkind]
      exact p.tellsFault_respondFault_ofVersion ((tellable_violationFault v _).forVersion rfl)
    · cases hstored : storeIdentity c p result.identity with
      | ok p' =>
        have hrequest : (stage .server (some v) c).request w p s = (w.invokeNext p', s) := by
          simp only [stage, serverRequest, hm', hresult, hstored]
          rw [if_neg hviolations]
        exact .inl ⟨p', s, hrequest, ⟨m', (message_storeIdentity hstored).trans hm', hpayload⟩, hs⟩
      | error cause =>
        have hrequest : (stage .server (some v) c).request w p s = (.throw (.property cause), s) := by
          simp only [stage, serverRequest, hm', hresult, hstored]
          rw [if_neg hviolations]
        refine .inr ⟨_, _, s, hrequest, rfl, hs.binding_eq, hs.idle, ?_⟩
        rw [hs.condition]
        exact .thrown cause
  result w r s hr := by
    cases r with
    | ok p => exact ⟨_, _, s, rfl, rfl, hr⟩
    | error e => exact ⟨_, _, s, rfl, rfl, hr⟩

end Security

namespace Addressing

variable {v : SoapVersion}

theorem encodes_relate {p : Packet} {answer : Option (Option Element)} (h : p.Encodes (some v) answer) :
    (relate p).Encodes (some v) answer := by
  obtain ⟨message, properties⟩ := p
  cases answer with
  | none =>
    cases h
    rfl
  | some payload =>
    obtain ⟨m, rfl, hm⟩ := h
    have htext : ∀ {m : Message} {localPart : String} (value : Option String), (named localPart).tag.Writable →
        m.Encodable (some v) payload → (replaceText m localPart value).Encodable (some v) payload := by
      intro m localPart value htag hm
      cases value with
      | none => exact hm
      | some value => exact encodable_replaceHeader hm (isBlock_header htag value).1
    exact ⟨_, rfl, htext _ (by decide) (htext _ (by decide) (hm.sameContent m.sameContent_isFault))⟩

theorem screens (required : Bool) (hkind : e.kind = .ofVersion v) :
    (stage .server v required).Screens (Packet.Arrives b m world) (Packet.Arrives b m world) (Outcome.On b e m world)
      (Outcome.On b e m world) where
  request w p s hp := by
    obtain ⟨⟨m', hm', hpayload⟩, hs⟩ := hp
    have hpresent : ¬p.message.isNone = true := by simp [hm']
    by_cases hrefused : (required && (headerText p "Action").isNone) = true
    · have hrequest : (stage .server v required).request w p s =
          (.ret (p.respondFault (some v) (actionMissing v)), s) := by
        simp only [stage, serverRequest, if_neg hpresent, if_pos hrefused]
      refine .inr ⟨_, _, s, hrequest, rfl, hs.binding_eq, hs.idle, ?_⟩
      rw [hs.condition]
      refine .refused ?_
      rw [hkind]
      exact p.tellsFault_respondFault_ofVersion ((tellable_actionMissing v).forVersion rfl)
    · obtain ⟨p', hrequest, hmessage⟩ : ∃ p', serverRequest v required w p = w.invokeNext p' ∧
          p'.message = p.message := by
        simp only [serverRequest, if_neg hpresent, if_neg hrefused]
        refine ⟨_, rfl, ?_⟩
        split <;> split <;> rfl
      exact .inl ⟨p', s, congrArg (·, s) hrequest, ⟨m', hmessage.trans hm', hpayload⟩, hs⟩
  result w r s hr := by
    cases r with
    | ok p =>
      refine ⟨_, _, s, rfl, rfl, hr.binding_eq, hr.idle, hr.condition.respond ?_⟩
      rw [hkind, BindingKind.version?_ofVersion]
      exact fun _ => encodes_relate
    | error e => exact ⟨_, _, s, rfl, rfl, hr⟩

end Addressing

namespace MustUnderstand

variable {v : SoapVersion}

theorem encodable_faultMessage (v : SoapVersion) (names : List QName) :
    (faultMessage v names).Encodable (some v) (some (SoapFault.ofProtocol (fault v names)).toElement) := by
  have hfault : (Message.ofFault (fault v names)).Encodable (some v)
      (some (SoapFault.ofProtocol (fault v names)).toElement) :=
    ⟨rfl, rfl, nofun⟩
  cases v with
  | v11 => exact hfault
  | v12 =>
    rw [faultMessage]
    generalize Message.ofFault (fault .v12 names) = m at hfault ⊢
    generalize (SoapFault.ofProtocol (fault .v12 names)).toElement = payload at hfault ⊢
    induction names generalizing m with
    | nil => exact hfault
    | cons name names ih =>
      refine ih _ ⟨hfault.version_eq, hfault.payload_eq, ?_⟩
      intro block hblock
      obtain hblock | hblock := List.mem_append.mp hblock
      · exact hfault.blocks block hblock
      · rw [List.mem_singleton.mp hblock]
        exact writable_notUnderstoodBlock .v12 name

theorem screens (understood : List QName) (hkind : e.kind = .ofVersion v) (hversion : b.version? = some v) :
    (stage .server understood).Screens (Packet.Arrives b m world) (Packet.Arrives b m world) (Outcome.On b e m world)
      (Outcome.On b e m world) where
  request w p s hp := by
    obtain ⟨message, properties⟩ := p
    obtain ⟨⟨m', rfl, hpayload⟩, hs⟩ := hp
    rcases hcheck : check v understood s.world.binding m' with ⟨names, m''⟩
    have hkept : m''.payload = m'.payload := (congrArg (·.2.payload) hcheck).symm
    have hrequest : (stage .server understood).request w ⟨some m', properties⟩ s =
        request .server understood w ⟨some m', properties⟩ s := rfl
    simp only [request, show s.world.binding = b from hs.binding_eq, hversion, Packet.onMessage] at hrequest
    rw [show s.world.binding = b from hs.binding_eq] at hcheck
    rw [hcheck] at hrequest
    cases names with
    | nil => exact .inl ⟨_, s, hrequest, ⟨m'', rfl, hkept.trans hpayload⟩, hs⟩
    | cons name names =>
      refine .inr ⟨_, _, s, hrequest, rfl, hs.binding_eq, hs.idle, ?_⟩
      rw [hs.condition]
      refine .refused ⟨fault v (name :: names), ProtocolFault.tellable_mustUnderstand v _, ?_, ?_⟩
      · rw [hkind, BindingKind.faultVersion_ofVersion]
        rfl
      · rw [hkind, BindingKind.version?_ofVersion]
        exact ⟨_, rfl, encodable_faultMessage v (name :: names)⟩
  result w r s hr := by
    cases r with
    | ok p =>
      refine ⟨.ret p, _, s, ?_, rfl, hr⟩
      show response .server understood p s = _
      unfold response
      cases s.world.binding.version? <;> rfl
    | error e => exact ⟨_, _, s, rfl, rfl, hr⟩

end MustUnderstand

end Stages

/-- An error of looking for a name or an operation carries no fault of somebody else. -/
theorem carried?_sniffSource {pulled : Bytes} {s : Source} {cause : RuntimeError}
    (h : (sniffSource pulled s).1 = .error cause) : cause.carried? = none := by
  fun_induction sniffSource pulled s with
  | case1 => cases h; rfl
  | case2 => cases h
  | case3 => cases h; rfl
  | case4 pulled s _ _ e hread =>
    cases h
    rw [Source.read] at hread
    split at hread
    · split at hread <;> cases hread
      rfl
    · cases hread
  | case5 pulled s _ _ s' hread =>
    cases hsniff : sniff pulled with
    | ok name =>
      rw [hsniff] at h
      cases h
    | error e =>
      rw [hsniff] at h
      cases h
      rfl
  | case6 pulled s _ _ b piece s' hread ih => exact ih h

theorem Message.carried?_payloadName {m : Message} {cause : RuntimeError} (h : m.payloadName.1 = .error cause) :
    cause.carried? = none := by
  rw [payloadName] at h
  split at h
  · cases h
  · split at h
    · cases h
    · cases h
    · split at h
      · cases h
      · cases h
        rfl
    · rename_i pulled source _
      dsimp only at h
      split at h
      · cases h
      · rename_i cause' hfound
        cases h
        exact carried?_sniffSource hfound
    · cases h
      rfl

theorem Packet.carried?_payloadName {p : Packet} {cause : RuntimeError} (h : p.payloadName.1 = .error cause) :
    cause.carried? = none := by
  obtain ⟨message, properties⟩ := p
  cases message with
  | none => cases h
  | some m =>
    rcases hname : m.payloadName with ⟨name, m'⟩
    simp only [payloadName, onMessage, hname] at h
    cases name with
    | ok name => cases h
    | error cause' =>
      cases h
      exact Message.carried?_payloadName (congrArg Prod.fst hname)

namespace Endpoint

variable {e : Endpoint World} {p : Packet}

theorem carried?_find {f : Finder} {cause : RuntimeError} (h : (f.find p).1 = .error cause) :
    cause.carried? = none := by
  cases f with
  | action => cases h
  | payload v entries =>
    rcases hname : p.payloadName with ⟨name, p'⟩
    simp only [Finder.find, hname] at h
    cases name with
    | error cause' =>
      cases h
      exact Packet.carried?_payloadName (congrArg Prod.fst hname)
    | ok name =>
      dsimp only at h
      split at h <;> cases h
      rfl

theorem carried?_findFirst {finders : List Finder} {cause : RuntimeError}
    (h : (Dispatcher.findFirst finders p).1 = .error cause) : cause.carried? = none := by
  induction finders generalizing p with
  | nil => cases h
  | cons f finders ih =>
    rw [Dispatcher.findFirst] at h
    split at h
    · exact ih h
    · exact carried?_find h

theorem carried?_dispatch {cause : RuntimeError} (h : (e.dispatch p).1 = .error cause) : cause.carried? = none := by
  rw [dispatch] at h
  cases hname : (e.dispatcher.dispatch p).1 with
  | ok name =>
    simp only [hname, Except.bind] at h
    split at h <;> cases h
    rfl
  | error cause' =>
    simp only [hname, Except.bind] at h
    cases h
    rw [Dispatcher.dispatch] at hname
    split at hname
    · rename_i cause' p' hfound
      cases hname
      exact carried?_findFirst (congrArg Prod.fst hfound)
    · cases hname
    · rename_i p' hfound
      cases hpayload : p'.payloadName.1 with
      | ok name =>
        simp only [hpayload, Except.bind] at hname
        cases hname
        rfl
      | error cause' =>
        simp only [hpayload, Except.bind] at hname
        cases hname
        exact Packet.carried?_payloadName hpayload

end Endpoint

theorem Payload.SameContent.eq_of_kept {payload payload' : Payload} (h : payload.SameContent payload')
    (hkept : payload.Kept) : payload' = payload := by
  cases h with
  | refl => rfl
  | ahead => exact absurd rfl (hkept _ _)

theorem Packet.Carries.sameContent {m : Message} {p p' : Packet} (h : p.Carries m) (hkept : m.payload.Kept)
    (hsame : p.SameContent p') : p'.Carries m := by
  obtain ⟨message, properties⟩ := p
  obtain ⟨message', properties'⟩ := p'
  obtain ⟨m', rfl, hpayload⟩ := h
  cases hsame.message with
  | some hcontent => exact ⟨_, rfl, (hcontent.payload.eq_of_kept (hpayload ▸ hkept)).trans hpayload⟩

/-- What is read depends on the payload alone. -/
theorem Message.readElement_of_payload {m m' : Message} (h : m'.payload = m.payload) :
    m'.readElement.1 = m.readElement.1 := by
  simp only [readElement, readBytes, h]
  cases m.payload <;> rfl

namespace Invoker

variable {b : Binding World} {e : Endpoint World} {m : Message} {world : World}

theorem outcome_invoke {p : Packet} (hkept : m.payload.Kept) (h : p.Carries m) (world : World) :
    Outcome e m world (.ok (invoke e p world).1) (invoke e p world).2 := by
  have hsame := Endpoint.sameContent_dispatch e p
  rw [invoke]
  rcases hdispatch : e.dispatch p with ⟨found, p'⟩
  rw [hdispatch] at hsame
  have hfound : (e.dispatch p).1 = found := congrArg Prod.fst hdispatch
  cases found with
  | error cause =>
    have htellable : (ProtocolFault.ofError e.kind.faultVersion cause).Tellable :=
      ProtocolFault.tellable_ofError_of_none (Endpoint.carried?_dispatch hfound)
    exact .refused (Packet.tellsFault_respondFault p' (htellable.forVersion (ProtocolFault.version_ofError _ _)))
  | ok o =>
    obtain ⟨message, properties⟩ := p'
    obtain ⟨m', rfl, hpayload⟩ := h.sameContent hkept hsame
    have hread := Message.readElement_of_payload hpayload
    rcases hinput : m'.readElement with ⟨input, rest⟩
    rw [hinput] at hread
    simp only [Packet.onMessage, Packet.setOperation, Packet.modifyTyped, hinput]
    cases input with
    | error cause =>
      have htellable : (ProtocolFault.ofError e.kind.faultVersion (.deserialization false cause)).Tellable :=
        ProtocolFault.tellable_ofError_of_none rfl
      exact .refused (Packet.tellsFault_respondFault _ (htellable.forVersion (ProtocolFault.version_ofError _ _)))
    | ok input =>
      exact .called (Endpoint.mem_of_dispatch hfound) ⟨p, h, hfound⟩ hread.symm
        (sends_answer e.kind o.oneWay _ _).encodes

theorem line_last (hkept : m.payload.Kept) :
    Stage.Line [stage e] (Packet.Arrives b m world) (Outcome.On b e m world) := by
  refine .last (fun w p s hp => ⟨_, _, _, rfl, rfl, hp.2.binding_eq, hp.2.idle, ?_⟩)
  have hworld : s.world.world = world := hp.2.condition
  rw [← hworld]
  exact outcome_invoke hkept hp.1 s.world.world

end Invoker

end SoapNode
