import SoapNode.Packet
import SoapNode.Proofs.Message.Envelopes
import SoapNode.Proofs.Xml.Detach

/-!
# Messages that hold a payload

A message holds a tree or none, as such or as the bytes of a document that are read as the tree. What
asks for the payload gets the same from either form, and only reading it takes it away.
-/

namespace SoapNode

/-- The payload is no source: it can be read again and again. -/
def Payload.Kept (p : Payload) : Prop := ∀ pulled source, p ≠ .stream pulled source

theorem Message.copy_of_kept {m : Message} (h : m.payload.Kept) : m.copy.2 = m := by
  have hbuffer : m.buffer = (.ok (), m) := by
    rw [buffer]
    split
    · rename_i pulled source hpayload
      exact absurd hpayload (h pulled source)
    · rfl
  rw [copy, hbuffer]

/-- The message has this payload, and what it remembers of its name is true. -/
structure Message.Holds (m : Message) (payload : Option Element) : Prop where
  held : m.payload = .ofElement payload ∨ ∃ e bytes, payload = some e ∧ m.payload = .buffered bytes ∧
    Element.parse bytes = .ok e ∧ sniff bytes = .ok (some e.name)
  known : ∀ name ∈ m.knownName, name = payload.map Element.name

namespace Message

variable {m : Message} {payload : Option Element}

theorem holds_ofPayload (version : Option SoapVersion) (payload : Option Element) :
    (ofPayload version (.ofElement payload)).Holds payload := ⟨.inl rfl, nofun⟩

theorem Holds.remember (h : m.Holds payload) : (m.remember (payload.map Element.name)).Holds payload :=
  ⟨h.held, fun _ hname => (Option.some_inj.mp hname).symm⟩

theorem Holds.withHeaders (h : m.Holds payload) (headers : HeaderList) : ({ m with headers } : Message).Holds payload :=
  ⟨h.held, h.known⟩

theorem Holds.payloadName (h : m.Holds payload) :
    m.payloadName = (.ok (payload.map Element.name), m.remember (payload.map Element.name)) := by
  rw [Message.payloadName]
  split
  · rename_i name hname
    rw [← h.known name hname]
    refine congrArg (Except.ok name, ·) ?_
    rw [Message.remember, ← hname]
  · rcases h.held with heq | ⟨e, bytes, rfl, heq, -, hsniff⟩
    · cases payload with
      | none => simp only [heq, Payload.ofElement]; rfl
      | some e => simp only [heq, Payload.ofElement]; rfl
    · simp only [heq, hsniff]
      rfl

theorem Holds.isFault (h : m.Holds payload) {v : SoapVersion} (hversion : m.version = some v) :
    m.isFault = (decide (payload.map Element.name = some v.faultName), m.remember (payload.map Element.name)) := by
  rw [Message.isFault, hversion]
  simp only [h.payloadName]
  cases payload with
  | none => rfl
  | some e => simp

theorem Holds.readElement (h : m.Holds payload) : m.readElement.1 = .ok payload := by
  rw [Message.readElement]
  rcases h.held with heq | ⟨e, bytes, rfl, heq, hparse, -⟩
  · cases payload with
    | none => simp only [heq, Payload.ofElement, readBytes]
    | some e => simp only [heq, Payload.ofElement]
  · simp only [heq, readBytes, hparse]
    rfl

theorem Holds.copy (h : m.Holds payload) : m.copy.2 = m := by
  apply copy_of_kept
  intro pulled source heq
  rcases h.held with hpayload | ⟨e, bytes, -, hpayload, -⟩
  · rw [heq] at hpayload
    cases payload <;> cases hpayload
  · rw [heq] at hpayload
    cases hpayload

end Message

/-- What is left of a payload on its way: its settled form, detached from the envelope if there is one. -/
def Element.delivered (version : Option SoapVersion) (e : Element) : Element :=
  match version with
  | some v => (e.settle []).inherit (Envelope.frame v)
  | none => e.settle []

namespace Element

theorem name_delivered (version : Option SoapVersion) (e : Element) : (e.delivered version).name = e.name := by
  cases version <;> rfl

theorem erase_delivered (version : Option SoapVersion) (e : Element) : (e.delivered version).erase = e.norm.erase := by
  cases version with
  | none => exact erase_settle [] e
  | some v => exact (erase_inherit _ _).trans (erase_settle [] e)

end Element

end SoapNode
