import SoapNode.Proofs.Server.Replies
import SoapNode.Proofs.Xml.Doctype

/-!
# Document types are refused

No request that declares a document type gets to an operation. An envelope is not parsed with one. A plain
document is first looked into by name only, but it has to be read before the operation is called.
-/

namespace SoapNode

variable {World : Type}

/-- What is decoded although it declares a document type has no envelope, and cannot be read. -/
theorem Codec.readElement_doctype {kind : BindingKind} {bytes : Bytes} {contentType : Option String} {m : Message}
    (h : DoctypeWithin 0 bytes) (hdecode : decode kind bytes contentType = .ok m) :
    kind = .xmlHttp ∧ ∃ cause, m.readElement.1 = .error cause := by
  rcases kind.bare_or_soap with rfl | ⟨v, rfl⟩
  · have hbody := h.stripDeclaration
    obtain ⟨cause, hparse⟩ := Element.parse_doctype hbody
    have hm := eq_of_decodeXml hdecode
    rw [hbody.not_blank, if_neg Bool.false_ne_true] at hm
    refine ⟨rfl, .xml cause, ?_⟩
    rw [hm]
    simp only [Message.readElement, Message.ofBytes, Message.ofPayload, Message.readBytes, hparse,
      Except.mapError, Except.map]
  · rw [decode, BindingKind.version?_ofVersion] at hdecode
    obtain ⟨cause, hparse⟩ := Element.parse_doctype h
    obtain ⟨envelope, henvelope, -⟩ := ok_of_bind (parse_of_decodeSoap hdecode)
    rw [hparse] at henvelope
    cases henvelope

namespace Server

open Assembly

variable {b : Binding World} {c : AssemblySettings} {e : Endpoint World} {s : Server World}

/-- Without its payload no operation is called. -/
theorem told_unread (hkind : s.kind = e.kind) {m : Message} {cause : RuntimeError}
    (hunread : m.readElement.1 = .error cause) {world world' : World} {r : Except RuntimeError Packet}
    (h : Outcome e m world r world') :
    world' = world ∧ ∃ reply, s.told r = .ok (some reply) ∧ reply.TellsFault s.kind := by
  cases h with
  | refused tells => exact ⟨rfl, told_refused (hkind ▸ tells)⟩
  | thrown cause => exact ⟨rfl, s.told_thrown cause⟩
  | called _ _ read =>
    rw [hunread] at read
    cases read

/-- A document that declares its type has no input for an operation. -/
theorem not_calls_of_doctype {body : Bytes} (hdoctype : DoctypeWithin 0 body) (contentType : Option String)
    (o : Operation World) (input : Option Element) : ¬Calls e body contentType o input := by
  rintro ⟨-, m, q, hdecode, -, -, hread⟩
  obtain ⟨-, cause, hunread⟩ := Codec.readElement_doctype hdoctype hdecode
  rw [hunread] at hread
  cases hread

/-- A request that declares a document type is answered with a fault. No operation is called: there is no input for one,
and whatever it would note in the world, the world is as before. -/
theorem handle_doctype (h : s.Reached b c e) (hkind : e.kind = b.kind)
    (hchain : b.handlerConfig.chain = []) {body : Bytes} (hdoctype : DoctypeWithin 0 body)
    (contentType action : Option String) :
    (∀ o input, ¬Calls e body contentType o input) ∧ (s.handle body contentType action).2.world = s.world ∧
      ∃ r, (s.handle body contentType action).1 = .ok (some r) ∧ r.TellsFault b.kind := by
  refine ⟨not_calls_of_doctype hdoctype contentType, ?_⟩
  have hready := h.ready hchain
  by_cases hsize : s.maxBodySize < body.length
  · obtain ⟨hsame, hreply⟩ := handle_refuses contentType action (.inl hsize)
    exact ⟨by rw [hsame], hready.kind_eq ▸ hreply⟩
  · cases hdecode : Codec.decode s.kind body contentType with
    | error cause =>
      obtain ⟨hsame, hreply⟩ := handle_refuses contentType action (.inr ⟨cause, hdecode⟩)
      exact ⟨by rw [hsame], hready.kind_eq ▸ hreply⟩
    | ok m =>
      obtain ⟨hbare, cause, hunread⟩ := Codec.readElement_doctype hdoctype hdecode
      rw [hready.kind_eq] at hbare hdecode
      have hline : Stage.Line (stages b c e) (Packet.Arrives b m s.world) (Outcome.On b e m s.world) :=
        screens_bare hbare hchain (Codec.kept_decode hdecode)
      obtain ⟨r, houtcome, hreply⟩ :=
        hready.handle_outcome hchain hline (by rw [← hready.size_eq]; omega) hdecode action
      rw [hreply, ← hready.kind_eq]
      exact told_unread (hready.kind_eq.trans hkind.symm) hunread houtcome

/-- An operation that counts its calls, for whatever stands in an element. -/
def tallyOperation : Operation Nat :=
  ⟨"tally", some (.unqualified "order"), none, false, fun input n => (.ok input, n + 1)⟩

def tallyEndpoint : Endpoint Nat := ⟨.xmlHttp, [tallyOperation], Endpoint.dispatcherOf .v11 [tallyOperation]⟩

def tallyServer : Server Nat := new (.new .xmlHttp) tallyEndpoint {} ⟨0, 0⟩ 0

/-- Neither spelling that the scan of a document looks for, behind the start tag that the request is found by. -/
def typedOrder : Bytes := Utf8.encode "<?xml version=\"1.0\"?> <order><!DocType order></order>"

theorem handle_doctype_order :
    DoctypeWithin 0 typedOrder ∧ (∀ o input, ¬Calls tallyEndpoint typedOrder none o input) ∧
      (tallyServer.handle typedOrder none none).2.world = 0 ∧
      ∃ r, (tallyServer.handle typedOrder none none).1 = .ok (some r) ∧ r.TellsFault .xmlHttp := by
  have hdoctype : DoctypeWithin 0 typedOrder := by
    have hdeclaration : Token.next typedOrder = .ok
      (some (.instruction, Utf8.encode " <order><!DocType order></order>")) := by decide
    have hspace : Token.next (Utf8.encode " <order><!DocType order></order>") =
        .ok (some (.text [32], Utf8.encode "<order><!DocType order></order>")) := by decide
    have hroot : Token.next (Utf8.encode "<order><!DocType order></order>") =
        .ok (some (.startTag (Utf8.encode "order"), Utf8.encode "<!DocType order></order>")) := by decide
    exact .behind hdeclaration rfl (.behind hspace rfl (.behind hroot rfl (.here (by decide))))
  exact ⟨hdoctype, handle_doctype (.new ⟨0, 0⟩ 0) rfl rfl hdoctype none none⟩

end Server

end SoapNode
