import SoapNode.Client
import SoapNode.Proofs.Transport

/-!
# The chains of a client without handlers

They have the stages of its binding and settings. A request reaches the transport with the payload it
had, and the response comes back with the payload that the transport received.
-/

namespace SoapNode

open Assembly

variable {World : Type}

namespace Client

def stages (b : Binding World) (c : AssemblySettings) (t : Transport World) : List (SiteStage World) :=
  (clientLayers b c).flatMap (Layer.stages b.kind) ++ [Transport.stage b.kind t]

theorem site_new (b : Binding World) (c : AssemblySettings) (t : Transport World)
    (address : Option String) (clock : Instant) (world : World) :
    (new b c t address clock world).site = .new b clock world :=
  (Layer.build_linked b.kind (clientLayers b c) (Transport.stage b.kind t) _).2.world

section Line

variable {b : Binding World} {c : AssemblySettings} {t : Transport World}

theorem stages_bare (hkind : b.kind = .xmlHttp) : stages b c t =
    HandlerStage.stage ⟨.logical, .client, false⟩ ::
      ((if c.dump then [Dump.stage .client] else []) ++ [Transport.stage b.kind t]) := by
  have hversion : b.version? = none := by rw [Binding.version?, hkind]; rfl
  rw [stages, clientLayers, hversion, hkind, dumpLayer]
  cases c.dump <;> rfl

theorem stages_soap {v : SoapVersion} (hkind : b.kind = .ofVersion v) (hsecurity : c.security.enabled = false) :
    stages b c t = HandlerStage.stage ⟨.logical, .client, true⟩ :: HandlerStage.stage ⟨.soap, .client, true⟩ ::
      MustUnderstand.stage .client (stageHeaders b c) ::
        ((if b.hasAddressing then [Addressing.stage .client v false] else []) ++
          ((if c.dump then [Dump.stage .client] else []) ++ [Transport.stage b.kind t])) := by
  have hversion : b.version? = some v := by rw [Binding.version?, hkind, BindingKind.version?_ofVersion]
  simp only [stages, clientLayers, hversion, hkind, dumpLayer, securityLayer, addressingLayer, hsecurity]
  cases v <;> cases c.dump <;> cases b.hasAddressing <;> rfl

theorem copied_stages : ∀ st ∈ stages b c t, ∀ w s, st.copied w s = s := by
  intro st hst
  rcases List.mem_append.mp hst with hst | hst
  · obtain ⟨l, hl, hst⟩ := List.mem_flatMap.mp hst
    exact (Layer.builtIn_client l hl).copied st hst
  · rw [List.mem_singleton.mp hst]
    exact fun _ _ => rfl

theorem keeps_stages (hchain : b.handlerConfig.chain = []) {J : World → Prop}
    (ht : ∀ request action oneWay w, J w → J (t request action oneWay w).2) :
    ∀ st ∈ stages b c t, st.Keeps (Quiet b (fun _ w => J w)) := by
  intro st hst
  rcases List.mem_append.mp hst with hst | hst
  · obtain ⟨l, hl, hst⟩ := List.mem_flatMap.mp hst
    exact (Layer.builtIn_client l hl).keeps hchain J st hst
  · rw [List.mem_singleton.mp hst]
    exact Transport.keeps_quiet ht b.kind

/-- A request as it reaches the transport: with addressing headers, if the chain adds them. -/
def sentPacket (b : Binding World) (id : String) (p : Packet) (m : Message) : Packet :=
  if b.version?.isSome && b.hasAddressing then Addressing.addressedPacket p id m else p

def sentMessage (b : Binding World) (id : String) (p : Packet) (m : Message) : Message :=
  if b.version?.isSome && b.hasAddressing then Addressing.addressed p id m else m

variable {p : Packet} {m : Message} {payload : Option Element}

theorem message_sentPacket (hm : p.message = some m) (id : String) :
    (sentPacket b id p m).message = some (sentMessage b id p m) := by
  rw [sentPacket, sentMessage]
  split
  · rfl
  · exact hm

theorem isOneWay_sentPacket (id : String) : (sentPacket b id p m).isOneWay = p.isOneWay := by
  rw [sentPacket]
  split <;> rfl

theorem sendable_sentMessage {version : Option SoapVersion} (hm : m.Sendable version payload) (id : String) :
    (sentMessage b id p m).Sendable version payload := by
  rw [sentMessage]
  split
  · exact Addressing.sendable_addressed hm p id
  · exact hm

theorem find?_sentMessage (hversion : b.version?.isSome = true) (haddressing : b.hasAddressing = true)
    (haction : p.soapAction.isSome = true) (id : String) :
    ((sentMessage b id p m).headers.find? (Addressing.name "Action")).isSome = true := by
  rw [sentMessage, hversion, haddressing]
  exact Addressing.find?_addressed p id m haction

variable {answer : Option (Option Element)} {n : Nat} {world : World}
  {good : Prop} {J : Nat → World → Prop}

theorem line_bare (hkind : b.kind = .xmlHttp) (hchain : b.handlerConfig.chain = []) (hm : p.message = some m)
    (hsendable : m.Sendable none payload)
    (hlast : Stage.Line [Transport.stage b.kind t] (Quiet.With b (· = p) (fun _ w => w = world))
      (Quiet.Gives b good (Packet.Bears none answer) J)) :
    Stage.Line (stages b c t) (Quiet.With b (· = p) (fun _ w => w = world))
      (Quiet.Gives b good (Packet.Bears none answer) J) := by
  have hcopy : ∀ q, q = p → ∀ m ∈ q.message, m.copy.2 = m := by
    rintro q rfl m' hm'
    cases hm.symm.trans hm'
    exact hsendable.bears.holds.copy
  rw [stages_bare hkind]
  exact .pass (HandlerStage.passes_quiet hchain _ _ _ J good)
    (Dump.line_optional hcopy (fun _ hp => hp.copy) c.dump .client hlast)

theorem line_soap {v : SoapVersion} (hkind : b.kind = .ofVersion v) (hsecurity : c.security.enabled = false)
    (hchain : b.handlerConfig.chain = []) (hm : p.message = some m) (hsendable : m.Sendable (some v) payload)
    (hlast : Stage.Line [Transport.stage b.kind t]
      (Quiet.With b (· = if b.hasAddressing then Addressing.addressedPacket p (Site.idText n) m else p)
        (fun _ w => w = world))
      (Quiet.Gives b good (Packet.Bears (some v) answer) J)) :
    Stage.Line (stages b c t) (Quiet.With b (· = p) (fun n' w => n' = n ∧ w = world))
      (Quiet.Gives b good (Packet.Bears (some v) answer) J) := by
  have hversion : b.version? = some v := by rw [Binding.version?, hkind, BindingKind.version?_ofVersion]
  rw [stages_soap hkind hsecurity]
  refine .pass (HandlerStage.passes_quiet hchain _ _ _ J good) (.pass (HandlerStage.passes_quiet hchain _ _ _ J good)
    (.pass (MustUnderstand.passes_client hversion _ answer _ J good) ?_))
  cases haddressing : b.hasAddressing with
  | false =>
    rw [haddressing] at hlast
    have hcopy : ∀ q, q = p → ∀ m ∈ q.message, m.copy.2 = m := by
      rintro q rfl m' hm'
      cases hm.symm.trans hm'
      exact hsendable.bears.holds.copy
    exact (Dump.line_optional hcopy (fun _ hp => hp.copy) c.dump .client hlast).mono
      (fun _ _ hp => ⟨hp.1, hp.2.binding_eq, hp.2.idle, hp.2.condition.2⟩)
  | true =>
    rw [haddressing] at hlast
    have hcopy : ∀ q, q = Addressing.addressedPacket p (Site.idText n) m → ∀ m ∈ q.message, m.copy.2 = m := by
      rintro q rfl m' ⟨⟩
      exact (Addressing.sendable_addressed hsendable p (Site.idText n)).bears.holds.copy
    exact .pass (Addressing.passes_client hm n world _ J good)
      (Dump.line_optional hcopy (fun _ hp => hp.copy) c.dump .client hlast)

theorem line_stages (hsecurity : c.security.enabled = false) (hchain : b.handlerConfig.chain = [])
    (hm : p.message = some m) (hsendable : m.Sendable b.version? payload)
    (hlast : Stage.Line [Transport.stage b.kind t]
      (Quiet.With b (· = sentPacket b (Site.idText n) p m) (fun _ w => w = world))
      (Quiet.Gives b good (Packet.Bears b.version? answer) J)) :
    Stage.Line (stages b c t) (Quiet.With b (· = p) (fun n' w => n' = n ∧ w = world))
      (Quiet.Gives b good (Packet.Bears b.version? answer) J) := by
  unfold sentPacket at hlast
  rcases b.kind.bare_or_soap with hkind | ⟨v, hkind⟩
  · have hversion : b.version? = none := by rw [Binding.version?, hkind]; rfl
    rw [hversion] at hlast hsendable ⊢
    exact (line_bare hkind hchain hm hsendable hlast).mono
      (fun _ _ hp => ⟨hp.1, hp.2.binding_eq, hp.2.idle, hp.2.condition.2⟩)
  · have hversion : b.version? = some v := by rw [Binding.version?, hkind, BindingKind.version?_ofVersion]
    rw [hversion] at hlast hsendable ⊢
    exact line_soap hkind hsecurity hchain hm hsendable hlast

end Line

end Client

end SoapNode
