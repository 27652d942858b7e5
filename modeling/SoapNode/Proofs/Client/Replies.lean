import SoapNode.Client
import SoapNode.Proofs.Endpoint
import SoapNode.Proofs.Message.Faults

/-!
# What a client tells of a response

A client tells a fault from another payload by its name. A fault of the server reaches the caller as an
error that tells the fault, any other payload as it came.
-/

namespace SoapNode

namespace Client

variable {kind : BindingKind} {m : Message} {payload : Option Element}

theorem version?_cases (kind : BindingKind) :
    (kind.version? = none ∧ kind.faultVersion = .v11) ∨
      ∃ v, kind.version? = some v ∧ kind.faultVersion = v := by
  rw [BindingKind.faultVersion]
  cases kind.version? with
  | none => exact .inl ⟨rfl, rfl⟩
  | some v => exact .inr ⟨v, rfl, rfl⟩

theorem faultOf_payload (h : m.Bears kind.version? payload)
    (hname : payload.map Element.name ≠ some kind.faultVersion.faultName) :
    faultOf m = (.ok none, m.remember (payload.map Element.name)) := by
  rcases version?_cases kind with ⟨hversion, hfault⟩ | ⟨v, hversion, rfl⟩
  · rw [hfault] at hname
    simp only [faultOf, h.version_eq, hversion, h.holds.payloadName, if_pos hname]
  · have hisFault := h.holds.isFault (h.version_eq.trans hversion)
    rw [decide_eq_false hname] at hisFault
    simp only [faultOf, h.version_eq, hversion, Message.readFault, hisFault]
    rfl

theorem faultOf_fault {e : Element} (h : m.Bears kind.version? (some e))
    (hname : e.name = kind.faultVersion.faultName) :
    (faultOf m).1 = ((SoapFault.ofElement e).mapError .fault).map (fun f => some f.toProtocol) := by
  have hread : (m.remember (some e.name)).readElement.1 = .ok (some e) :=
    (show (m.remember (some e.name)).Holds (some e) from h.holds.remember).readElement
  rcases version?_cases kind with ⟨hversion, hfault⟩ | ⟨v, hversion, rfl⟩
  · rw [hfault] at hname
    have hpayload := h.holds.payloadName
    rw [Option.map_some, hname] at hpayload
    rw [hname] at hread
    simp only [faultOf, h.version_eq, hversion, hpayload, hread]
    rw [if_neg (not_not_intro rfl)]
  · have hisFault := h.holds.isFault (h.version_eq.trans hversion)
    rw [Option.map_some, hname, decide_eq_true rfl] at hisFault
    rw [hname] at hread
    simp only [faultOf, h.version_eq, hversion, Message.readFault, hisFault, hread]
    cases SoapFault.ofElement e <;> rfl

theorem delivered_faultElement (kind : BindingKind) (f : ProtocolFault) :
    (Invoker.faultElement kind f).delivered kind.version? = (Invoker.faultElement kind f).settle [] := by
  rcases version?_cases kind with ⟨hversion, -⟩ | ⟨v, hversion, hfault⟩
  · rw [hversion]
    rfl
  · have hinherit := (SoapFault.ofProtocol (f.forVersion kind.faultVersion)).inherit_settle
    rw [ProtocolFault.version_ofProtocol, show (f.forVersion kind.faultVersion).version = v from hfault] at hinherit
    rw [hversion]
    exact hinherit

theorem name_faultElement (kind : BindingKind) (f : ProtocolFault) :
    (Invoker.faultElement kind f).name = kind.faultVersion.faultName := by
  rw [Invoker.faultElement, Element.name, SoapFault.tag_toElement, ProtocolFault.version_ofProtocol]
  rfl

theorem faultOf_delivered {f : ProtocolFault} (hf : (f.forVersion kind.faultVersion).Tellable)
    (h : m.Bears kind.version? (some ((Invoker.faultElement kind f).delivered kind.version?))) :
    (faultOf m).1 = .ok (some (SoapFault.ofProtocol (f.forVersion kind.faultVersion)).received.toProtocol) := by
  have hname : ((Invoker.faultElement kind f).delivered kind.version?).name = kind.faultVersion.faultName :=
    (Element.name_delivered _ _).trans (name_faultElement kind f)
  rw [faultOf_fault h hname, delivered_faultElement, Invoker.faultElement, SoapFault.ofElement_settle hf.writable]
  rfl

theorem received_server (v : SoapVersion) (reason : String) :
    (SoapFault.ofProtocol ((ProtocolFault.server v reason).forVersion v)).received.toProtocol =
      .server v (Text.trim reason) := by
  have hcode : (v.mapCode (v.mapCode v.serverCode)).told = v.serverCode := by cases v <;> decide
  cases v with
  | v11 => exact congrArg (fun q => (⟨.v11, q, [], Text.trim reason, none, none, none⟩ : ProtocolFault)) hcode
  | v12 => exact congrArg (fun q => (⟨.v12, q, [], Text.trim reason, none, none, none⟩ : ProtocolFault)) hcode

theorem tellable_server (v : SoapVersion) (reason : String) :
    ((ProtocolFault.server v reason).forVersion v).Tellable := by
  refine ⟨?_, fun _ => nofun, nofun⟩
  show (v.mapCode v.serverCode).Tellable
  cases v <;> decide

section Unpack

variable {call : Call} {response : Packet}

/-- What the caller gets of the payload of a reply. -/
def told (reply : Except ClientError (Option Message)) : Except ClientError (Option Element) :=
  reply.bind (readReply (·.readElement.1))

theorem told_nothing (h : response.Bears kind.version? none) : told (unpack call response) = .ok none := by
  rw [unpack, show response.message = none from h]
  split <;> rfl

theorem told_payload (htwoWay : call.oneWay = false) (h : response.Bears kind.version? (some payload))
    (hname : payload.map Element.name ≠ some kind.faultVersion.faultName) :
    told (unpack call response) = .ok payload := by
  obtain ⟨m, hm, hbears⟩ := h
  have hread := (hbears.holds.remember).readElement
  rw [unpack, htwoWay, hm]
  simp only [Bool.false_eq_true, if_false, faultOf_payload hbears hname, told, Except.bind, readReply, hread]
  rfl

theorem told_fault (htwoWay : call.oneWay = false) {f : ProtocolFault} (hf : (f.forVersion kind.faultVersion).Tellable)
    (h : response.Bears kind.version? (some (some ((Invoker.faultElement kind f).delivered kind.version?)))) :
    told (unpack call response) =
      .error (.fault (SoapFault.ofProtocol (f.forVersion kind.faultVersion)).received.toProtocol) := by
  obtain ⟨m, hm, hbears⟩ := h
  have hfault := faultOf_delivered hf hbears
  rw [unpack, htwoWay, hm]
  simp only [Bool.false_eq_true, if_false]
  split
  · rename_i hresult
    rw [hresult] at hfault
    cases hfault
  · rename_i f _ hresult
    rw [hresult] at hfault
    cases hfault
    rfl
  · rename_i hresult
    rw [hresult] at hfault
    cases hfault

end Unpack

/-- What the caller of a two-way call gets of what the operation gave, unless that cannot be written, is
named like a fault, or is a fault that cannot be told. -/
def Expected (kind : BindingKind) (oneWay : Bool) (result : Except ClientError (Option Element)) :
    Except ServiceError (Option Element) → Prop
  | .ok output =>
    if oneWay then result = .ok none
    else (∀ e ∈ output, e.Writable) → output.map Element.name ≠ some kind.faultVersion.faultName →
      ∃ reply, result = .ok reply ∧ reply.map Element.erase = output.map (·.norm.erase)
  | .error (.failed reason) => result = .error (.fault (.server kind.faultVersion (Text.trim reason)))
  | .error (.fault f) => (f.forVersion kind.faultVersion).Tellable →
    ∃ f', result = .error (.fault f') ∧ f'.erase = (f.forVersion kind.faultVersion).received.erase

theorem erase_delivered_option (version : Option SoapVersion) (payload : Option Element) :
    (payload.map (Element.delivered version)).map Element.erase = payload.map (·.norm.erase) := by
  rw [Option.map_map]
  exact Option.map_congr (fun e _ => e.erase_delivered version)

theorem expected_told {call : Call} (htwoWay : call.oneWay = false) {oneWay : Bool}
    {output : Except ServiceError (Option Element)} {reply : Except ClientError (Option Message)}
    (hanswer : (∀ payload ∈ Invoker.answered kind oneWay output, ∀ e ∈ payload, e.Writable) →
      ∃ response, reply = unpack call response ∧ response.Bears kind.version?
        ((Invoker.answered kind oneWay output).map (Option.map (Element.delivered kind.version?)))) :
    Expected kind oneWay (told reply) output := by
  match output with
  | .ok output =>
    cases oneWay with
    | true =>
      obtain ⟨response, rfl, hbears⟩ := hanswer nofun
      exact told_nothing hbears
    | false =>
      intro hwritable hname
      obtain ⟨response, rfl, hbears⟩ := hanswer (by rintro payload ⟨⟩; exact hwritable)
      have hdelivered : (output.map (Element.delivered kind.version?)).map Element.name ≠
          some kind.faultVersion.faultName := by
        have hnames : (output.map (Element.delivered kind.version?)).map Element.name = output.map Element.name :=
          Option.map_map .. |>.trans (Option.map_congr (fun e _ => Element.name_delivered kind.version? e))
        rwa [hnames]
      exact ⟨_, told_payload htwoWay hbears hdelivered, erase_delivered_option kind.version? output⟩
  | .error (.fault f) =>
    intro hf
    obtain ⟨response, rfl, hbears⟩ := hanswer (by rintro payload ⟨⟩ e ⟨⟩; exact hf.writable.toElement)
    exact ⟨_, told_fault htwoWay hf hbears, ProtocolFault.erase_overTheWire _⟩
  | .error (.failed reason) =>
    have hf := tellable_server kind.faultVersion reason
    obtain ⟨response, rfl, hbears⟩ := hanswer (by rintro payload ⟨⟩ e ⟨⟩; exact hf.writable.toElement)
    have htold := told_fault htwoWay hf hbears
    rw [received_server] at htold
    exact htold

end Client

end SoapNode
