import SoapNode.Proofs.Dispatch
import SoapNode.Proofs.Stage.Blocks
import SoapNode.Stage.Invoker

/-!
# A request finds its operation

An endpoint is built only of operations with different names. When one operation alone claims the name
of a payload, a request with that payload is dispatched to it, and the invoker runs it on the payload
and nothing else.
-/

namespace SoapNode

variable {World : Type}

namespace Endpoint

variable {kind : BindingKind} {operations : List (Operation World)} {e : Endpoint World}

theorem eq_of_build (h : build kind operations = .ok e) :
    e = ⟨kind, operations, dispatcherOf kind.faultVersion operations⟩ ∧ (operations.map (·.name)).Nodup := by
  rw [build] at h
  split at h
  · cases h
  · rename_i hnone
    cases h
    exact ⟨rfl, (repeated?_eq_none_iff.mp hnone).2⟩

/-- The payload's name is claimed by one operation alone. -/
theorem ofKey_payloadEntries (hnodup : (operations.map (·.name)).Nodup) {o : Operation World} (ho : o ∈ operations)
    (honly : ∀ o' ∈ operations, o'.key = o.key → o' = o) :
    Claim.ofKey (payloadEntries operations) o.key = .unique o.name := by
  have honly : Only operations (·.key = o.key) o := ⟨ho, rfl, honly⟩
  have hclaim := claimed_payload (hnodup.of_map _) o.key
  generalize Claim.ofKey (payloadEntries operations) o.key = claim at hclaim
  cases hclaim with
  | nobody nobody => exact absurd rfl (nobody o ho)
  | unique o' only => rw [honly.unique only]
  | several several => exact absurd several honly.not_several

end Endpoint

def Element.keyOf (payload : Option Element) : QName := (payload.map Element.name).getD .empty

theorem Packet.payloadName_bears {version : Option SoapVersion} {payload : Option Element} {p : Packet}
    (h : p.Bears version (some payload)) :
    ∃ p', p.payloadName = (.ok (Element.keyOf payload), p') ∧ p'.Bears version (some payload) := by
  obtain ⟨message, properties⟩ := p
  obtain ⟨m, rfl, hm⟩ := h
  simp only [payloadName, onMessage, hm.holds.payloadName]
  exact ⟨_, rfl, _, rfl, hm.version_eq, hm.holds.remember, hm.plain⟩

theorem Endpoint.dispatch_bears {kind : BindingKind} {operations : List (Operation World)} {e : Endpoint World}
    (hbuild : build kind operations = .ok e) {o : Operation World} (ho : o ∈ operations)
    (honly : ∀ o' ∈ operations, o'.key = o.key → o' = o) {version : Option SoapVersion} {payload : Option Element}
    (hkey : Element.keyOf payload = o.key) {p : Packet} (h : p.Bears version (some payload)) :
    ∃ p', e.dispatch p = (.ok o, p') ∧ p'.Bears version (some payload) := by
  obtain ⟨rfl, hnodup⟩ := eq_of_build hbuild
  obtain ⟨p', hname, hp'⟩ := Packet.payloadName_bears h
  refine ⟨p', ?_, hp'⟩
  rw [hkey] at hname
  simp only [dispatch, Dispatcher.dispatch, dispatcherOf, Dispatcher.findFirst, Finder.find, hname,
    ofKey_payloadEntries hnodup ho honly, Except.bind, operation?, operation?_eq hnodup ho]

namespace Invoker

def faultElement (kind : BindingKind) (f : ProtocolFault) : Element :=
  (SoapFault.ofProtocol (f.forVersion kind.faultVersion)).toElement

/-- The payload of the answer, unless there is no answer. -/
def answered (kind : BindingKind) (oneWay : Bool) : Except ServiceError (Option Element) → Option (Option Element)
  | .ok output => if oneWay then none else some output
  | .error (.fault f) => some (some (faultElement kind f))
  | .error (.failed reason) => some (some (faultElement kind (.server kind.faultVersion reason)))

theorem ofFaultFor_eq (kind : BindingKind) (f : ProtocolFault) :
    Message.ofFaultFor kind.version? f = .ofPayload kind.version? (.ofElement (some (faultElement kind f))) := by
  cases kind <;> rfl

theorem sends_answer (kind : BindingKind) (oneWay : Bool) (p : Packet) (output : Except ServiceError (Option Element)) :
    (answer kind oneWay p output).Sends kind.version? (answered kind oneWay output) := by
  match output with
  | .ok output =>
    cases oneWay with
    | true => rfl
    | false =>
      refine ⟨_, rfl, ?_⟩
      cases output with
      | none => exact Message.sendable_ofPayload kind.version? none
      | some e => exact Message.sendable_ofPayload kind.version? (some e)
  | .error (.fault f) =>
    refine ⟨_, rfl, ?_⟩
    rw [ofFaultFor_eq]
    exact Message.sendable_ofPayload kind.version? _
  | .error (.failed reason) =>
    refine ⟨_, rfl, ?_⟩
    rw [ofFaultFor_eq]
    exact Message.sendable_ofPayload kind.version? _

/-- The operation is run once, on the payload of the request. -/
theorem invoke_bears {kind : BindingKind} {operations : List (Operation World)} {e : Endpoint World}
    (hbuild : Endpoint.build kind operations = .ok e) {o : Operation World} (ho : o ∈ operations)
    (honly : ∀ o' ∈ operations, o'.key = o.key → o' = o) {version : Option SoapVersion} {payload : Option Element}
    (hkey : Element.keyOf payload = o.key) {p : Packet} (h : p.Bears version (some payload)) (world : World) :
    ∃ p', invoke e p world = (answer kind o.oneWay p' (o.run payload world).1, (o.run payload world).2) := by
  obtain ⟨p', hdispatch, m, hm, hbears⟩ := Endpoint.dispatch_bears hbuild ho honly hkey h
  have hread : ∃ p'', (p'.setOperation (some o.name)).onMessage (.ok none) Message.readElement =
      (.ok payload, p'') := by
    obtain ⟨message, properties⟩ := p'
    cases hm
    refine ⟨_, congrArg (·, _) hbears.holds.readElement⟩
  obtain ⟨p'', hread⟩ := hread
  obtain ⟨rfl, -⟩ := Endpoint.eq_of_build hbuild
  refine ⟨p'', ?_⟩
  rw [invoke, hdispatch]
  simp only [hread]

theorem answers_quiet {kind : BindingKind} {operations : List (Operation World)} {e : Endpoint World}
    (hbuild : Endpoint.build kind operations = .ok e) {o : Operation World} (ho : o ∈ operations)
    (honly : ∀ o' ∈ operations, o'.key = o.key → o' = o) {payload : Option Element}
    (hkey : Element.keyOf payload = o.key) (b : Binding World) (world : World) (w : Wiring) (p : Packet)
    (s : SiteStore World) (hp : Quiet.With b (Packet.Bears kind.version? (some payload)) (fun _ v => v = world) p s) :
    ∃ action r s', (stage e).request w p s = (action, s') ∧ action.result? = some r ∧
      Quiet.Gives b True (Packet.Sends kind.version? (answered kind o.oneWay (o.run payload world).1))
        (fun _ v => v = (o.run payload world).2) r s' := by
  obtain ⟨hbears, hs⟩ := hp
  have hworld : s.world.world = world := hs.condition
  obtain ⟨p', hinvoke⟩ := invoke_bears hbuild ho honly hkey hbears s.world.world
  rw [hworld] at hinvoke
  have hrequest : (stage e).request w p s = (.ret (answer kind o.oneWay p' (o.run payload world).1),
      { s with world := { s.world with world := (o.run payload world).2 } }) := by
    simp only [stage, hworld, hinvoke]
  refine ⟨_, _, _, hrequest, rfl, ⟨hs.binding_eq, hs.idle, rfl⟩, ?_⟩
  intro _
  exact ⟨_, rfl, sends_answer kind o.oneWay p' _⟩

theorem keeps_quiet {b : Binding World} (e : Endpoint World) : (stage e).Keeps (Quiet b (fun _ _ => True)) :=
  ⟨fun _ _ _ hs => ⟨hs.binding_eq, hs.idle, trivial⟩, fun _ _ _ hs => hs, fun _ _ _ hs => hs⟩

end Invoker

end SoapNode
