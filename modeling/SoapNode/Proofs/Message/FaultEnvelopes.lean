import SoapNode.Proofs.Message.Faults
import SoapNode.Proofs.Xml.Repeats

/-!
# Which faults can be read from their envelopes

Every fault is written. The codes in its text are bound to prefixes on the elements that hold them, and the
tags of these elements need the prefix of the envelope as well. The two agree but for a subcode that is in
the envelope namespace of SOAP 1.1 while the fault is one of SOAP 1.2: it is not mapped as the main code is,
so the one prefix is declared twice on its tag, and no reader gets past it.
-/

namespace SoapNode

open StartTag Name FaultElement

namespace Fault12

variable {outer : Scopes} {q : QName} {p : String}

/-- Inside the fault its own tags declare nothing. -/
theorem writtenFrame_tag (houter : outer.resolve envelopePrefix = some SoapVersion.v12.envelopeUri) (part : String) :
    (Envelope.tag .v12 part).writtenFrame outer = [] := by
  have hname : needName outer [] (Envelope.tag .v12 part) = [] := by
    unfold needName
    rw [Envelope.writtenPrefix_tag, Scopes.resolve_cons_nil, houter]
    exact if_pos rfl
  exact hname

/-- The tag of the value binds the envelope prefix for the code, and again for itself. -/
theorem writtenFrame_value (houter : outer.resolve envelopePrefix = some SoapVersion.v12.envelopeUri)
    (hq : q.namespaceUri = SoapVersion.v11.envelopeUri) :
    (coded (Envelope.tag .v12 "Value") q p).tag.writtenFrame outer = Envelope.frame .v11 ++ Envelope.frame .v12 := by
  have hprefix : codePrefix p q = envelopePrefix := if_pos (by rw [hq]; decide)
  have hdeclared : codeBindings p q = Envelope.frame .v11 := by
    rw [codeBindings, hprefix, hq]
    rfl
  have hown : (codeBindings p q).foldl (need outer) [] = Envelope.frame .v11 := by
    have hforeign : ¬ Scopes.resolve ([] :: outer) envelopePrefix = some SoapVersion.v11.envelopeUri := by
      rw [Scopes.resolve_cons_nil, houter]
      decide
    rw [hdeclared]
    exact if_neg hforeign
  have hname : needName outer (Envelope.frame .v11) (coded (Envelope.tag .v12 "Value") q p).tag =
      Envelope.frame .v11 ++ Envelope.frame .v12 := by
    have hshadowed : Scopes.resolve (Envelope.frame .v11 :: outer) envelopePrefix =
        some SoapVersion.v11.envelopeUri := by
      rw [Scopes.resolve_cons _ _ (by decide)]
      rfl
    have hwritten : (coded (Envelope.tag .v12 "Value") q p).tag.writtenPrefix = envelopePrefix :=
      Envelope.writtenPrefix_tag .v12 _
    unfold needName
    rw [hwritten, hshadowed]
    exact if_neg SoapVersion.envelopeUri_ne.symm
  rw [← hown] at hname
  exact hname.trans (by rw [hown])

theorem spelled_value (q : QName) (p : String) :
    Spelled (coded (Envelope.tag .v12 "Value") q p).tag (Envelope.frame .v11 ++ Envelope.frame .v12) where
  name := (legible_writtenName (Envelope.writable_tag .v12 (by decide)) :
    Legible (Envelope.tag .v12 "Value").writtenName)
  keys := by
    have hprefixes : ∀ b ∈ Envelope.frame .v11 ++ Envelope.frame .v12, b.1 = "" ∨ isNCName b.1 = true := by decide
    have hbare : (coded (Envelope.tag .v12 "Value") q p).tag.attributePairs = [] := rfl
    rw [hbare, List.append_nil, List.forall_mem_map]
    exact fun b hb => legible_bindingPair (hprefixes b hb)

theorem bars_value (houter : outer.resolve envelopePrefix = some SoapVersion.v12.envelopeUri)
    (hq : q.namespaceUri = SoapVersion.v11.envelopeUri) (p : String) :
    (coded (Envelope.tag .v12 "Value") q p).toNode.Bars outer := by
  have hframe := writtenFrame_value (p := p) houter hq
  apply Node.bars_of_repeated
  · rw [hframe]
    exact spelled_value q p
  · rw [hframe]
    decide

/-- What stands in a code behind a value that can be read. -/
theorem bars_coding (houter : outer.resolve envelopePrefix = some SoapVersion.v12.envelopeUri) {part : String}
    (hpart : isNCName part = true) (hq : q.namespaceUri ≠ SoapVersion.v11.envelopeUri)
    (hp : CodeName p) {inner : Element} (hinner : inner.toNode.Bars ([] :: outer)) :
    (coding part q p (some inner)).toNode.Bars outer := by
  have hvalue : ∀ e ∈ [coded (Envelope.tag .v12 "Value") q p], e.Writable := by
    rintro e he
    rw [List.mem_singleton.mp he]
    exact writable_coded (holder_tag hq (by decide)) hp
  rw [← writtenFrame_tag houter part] at hinner
  exact Node.bars_element (Envelope.writable_tag .v12 hpart) hvalue hinner []

/-- The value of the subcode that clashes is reached on the way down, through those that do not. -/
theorem bars_subcodeElement {qs : List QName} (h : ∃ q ∈ qs, q.namespaceUri = SoapVersion.v11.envelopeUri)
    (depth : Nat) (houter : outer.resolve envelopePrefix = some SoapVersion.v12.envelopeUri) :
    ∃ e, subcodeElement depth qs = some e ∧ e.toNode.Bars outer := by
  have hinside : Scopes.resolve ([] :: outer) envelopePrefix = some SoapVersion.v12.envelopeUri := by
    rw [Scopes.resolve_cons_nil, houter]
  induction qs generalizing depth outer with
  | nil => simp at h
  | cons q qs ih =>
    rw [subcodeElement_cons]
    refine ⟨_, rfl, ?_⟩
    by_cases hq : q.namespaceUri = SoapVersion.v11.envelopeUri
    · have hbad := bars_value hinside hq s!"sc{depth}"
      rw [← writtenFrame_tag houter "Subcode"] at hbad
      exact Node.bars_element (Envelope.writable_tag .v12 (by decide)) (List.forall_mem_nil Element.Writable) hbad _
    · obtain ⟨inner, hinner, hbars⟩ :=
        ih (by simpa [hq] using h) (depth + 1) hinside (by rw [Scopes.resolve_cons_nil, hinside])
      rw [hinner]
      exact bars_coding houter (by decide) hq (codeName_sc depth) hbars

theorem bars_toElement {f : Fault12} (hcode : f.code.namespaceUri ≠ SoapVersion.v11.envelopeUri)
    (h : ∃ q ∈ f.subcodes, q.namespaceUri = SoapVersion.v11.envelopeUri) : f.toElement.toNode.Bars [] := by
  have hinside : Scopes.resolve [Envelope.frame .v12] envelopePrefix = some SoapVersion.v12.envelopeUri :=
    Envelope.resolve_prefix .v12
  obtain ⟨inner, hinner, hbars⟩ : ∃ e, subcodeElement 0 f.subcodes = some e ∧
      e.toNode.Bars ([] :: [Envelope.frame .v12]) :=
    bars_subcodeElement h 0 hinside
  have hbad := bars_coding hinside (show isNCName "Code" = true by decide) hcode codeName_fc hbars
  rw [← hinner, ← writtenFrame_rootTag .v12] at hbad
  rw [toElement_eq]
  exact Node.bars_element (writable_rootTag .v12) (List.forall_mem_nil Element.Writable) hbad _

end Fault12

namespace ProtocolFault

/-- A fault of SOAP 1.2 with a subcode in the envelope namespace of SOAP 1.1. -/
def Clashes (f : ProtocolFault) : Prop :=
  f.version = .v12 ∧ ∃ q ∈ f.subcodes, q.namespaceUri = SoapVersion.v11.envelopeUri

theorem tellable_of_not_clashes {f : ProtocolFault} (hcode : isNCName f.code.localPart = true)
    (hsubcodes : ∀ q ∈ f.subcodes, isNCName q.localPart = true) (hdetail : ∀ e ∈ f.detail.getD [], e.Writable)
    (h : ¬ f.Clashes) : f.Tellable :=
  ⟨QName.tellable_of_isNCName hcode, fun hversion q hq => ⟨QName.tellable_of_isNCName (hsubcodes q hq),
    fun huri => h ⟨hversion, q, hq, huri⟩⟩, hdetail⟩

theorem bars_ofProtocol {f : ProtocolFault} (h : f.Clashes) : (SoapFault.ofProtocol f).toElement.toNode.Bars [] := by
  obtain ⟨v, code, subcodes, reason, actor, node, detail⟩ := f
  obtain ⟨rfl, hsubcodes⟩ := h
  exact Fault12.bars_toElement (f := .ofProtocol _) (SoapVersion.mapCode_v12_ne_v11 code) hsubcodes

theorem parse_of_clashes {f : ProtocolFault} (h : f.Clashes) :
    ∃ cause, Envelope.parse (Envelope.declaration ++
      Utf8.encodeChars (Envelope.chars f.version [] (SoapFault.ofProtocol f).toElement.toChars)) =
        .error (.xml cause) := by
  cases hparse : Element.parse (Envelope.declaration ++
      Utf8.encodeChars (Envelope.chars f.version [] (SoapFault.ofProtocol f).toElement.toChars)) with
  | error cause => exact ⟨cause, by simp only [Envelope.parse, hparse, Except.mapError, bind, Except.bind]⟩
  | ok root =>
    obtain ⟨r, rest, hcovers, hrun⟩ := Envelope.run_payload_of_parse (by simp) hparse
    exact absurd hrun (bars_ofProtocol h hcovers)

/-- Every fault is written. What is written is read as a fault, unless the fault clashes: then it is no document. -/
theorem readable_unless_clashing {f : ProtocolFault} (hcode : isNCName f.code.localPart = true)
    (hsubcodes : ∀ q ∈ f.subcodes, isNCName q.localPart = true) (hdetail : ∀ e ∈ f.detail.getD [], e.Writable) :
    ∃ bytes, (Message.ofFault f).toEnvelope.1 = .ok bytes ∧
      (¬ f.Clashes → ∃ m, Envelope.parse bytes = .ok m ∧ m.isFault.1 = true) ∧
      (f.Clashes → ∃ cause, Envelope.parse bytes = .error (.xml cause)) := by
  refine ⟨_, toEnvelope_ofFault f, fun h => ?_, parse_of_clashes⟩
  obtain ⟨m, hparse, hversion, hpayload, hname⟩ :=
    parse_toEnvelope (tellable_of_not_clashes hcode hsubcodes hdetail h)
  exact ⟨m, hparse, congrArg Prod.fst (Message.isFault_settle hversion hpayload hname)⟩

/-- A fault of SOAP 1.1 told in SOAP 1.2, with subcodes in the namespace of SOAP 1.2, in another one and in none. -/
theorem readable_unless_clashing_retold :
    let f := ((((ProtocolFault.client .v11 "no more orders").withSubcode (SoapVersion.v12.name "RpcFault")).withSubcode
      ⟨"urn:orders", "Late"⟩).withSubcode (.unqualified "Closed")).forVersion .v12
    ∃ bytes m, (Message.ofFault f).toEnvelope.1 = .ok bytes ∧ Envelope.parse bytes = .ok m ∧
        m.isFault.1 = true := by
  intro f
  obtain ⟨bytes, hbytes, hreadable, -⟩ := readable_unless_clashing (f := f) (by decide) (by decide) (by decide)
  obtain ⟨m, hparse, hfault⟩ := hreadable (fun h => absurd h.2 (by decide))
  exact ⟨bytes, m, hbytes, hparse, hfault⟩

/-- The same with a subcode of SOAP 1.1, which is not told in SOAP 1.2 as the main code is. -/
theorem unreadable_mustUnderstand :
    let f := ((ProtocolFault.client .v11 "r").withSubcode SoapVersion.v11.mustUnderstandCode).forVersion .v12
    isNCName f.code.localPart = true ∧ (∀ q ∈ f.subcodes, isNCName q.localPart = true) ∧ f.detail = none ∧
      ∃ bytes cause, (Message.ofFault f).toEnvelope.1 = .ok bytes ∧ Envelope.parse bytes = .error (.xml cause) := by
  intro f
  obtain ⟨cause, hparse⟩ := parse_of_clashes (f := f) ⟨rfl, by decide⟩
  exact ⟨by decide, by decide, rfl, _, cause, toEnvelope_ofFault f, hparse⟩

end ProtocolFault

end SoapNode
