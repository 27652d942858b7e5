import SoapNode.Proofs.Xml.Tags
import SoapNode.Soap.FaultElement

/-!
# Tags in the envelope namespace

Envelopes and faults are written with one prefix, which their outermost tag declares. Tags that use
it can be written, and inside that declaration they declare nothing further.
-/

namespace SoapNode

open StartTag

namespace Envelope

def tag (v : SoapVersion) (part : String) : StartTag := ⟨v.name part, some envelopePrefix, [], []⟩

def frame (v : SoapVersion) : List PrefixBinding := [(envelopePrefix, v.envelopeUri)]

theorem writtenPrefix_tag (v : SoapVersion) (part : String) : (tag v part).writtenPrefix = envelopePrefix := by
  cases v <;> rfl

theorem bindings_tag (v : SoapVersion) (part : String) : (tag v part).bindings = frame v := by
  cases v <;> rfl

theorem writable_tag (v : SoapVersion) {part : String} (h : isNCName part = true) : (tag v part).Writable where
  localPart := h
  attributeLocalPart := by simp [tag]
  prefixes := by
    rw [bindings_tag]
    intro b hb
    rw [List.mem_singleton.mp hb]
    exact .inr (show isNCName envelopePrefix = true by decide)
  consistent := by
    rw [bindings_tag]
    intro b hb c hc _
    rw [List.mem_singleton.mp hb, List.mem_singleton.mp hc]
  reservedXml := by
    rw [bindings_tag]
    intro b hb hxml
    rw [List.mem_singleton.mp hb] at hxml
    exact absurd hxml (show envelopePrefix ≠ "xml" by decide)
  reservedXmlns := by simp [tag]
  distinct := List.nodup_nil
  noDeclaration := by simp [tag]

theorem resolve_prefix (v : SoapVersion) : Scopes.resolve [frame v] envelopePrefix = some v.envelopeUri := by
  cases v <;> rfl

theorem declares_envelope (v : SoapVersion) (part : String) : Declares (tag v part) [] (frame v) where
  fits := ⟨by rw [bindings_tag]; exact fun _ hb => hb, by simp [frame], by simp [frame, envelopePrefix]⟩
  declared := by simp [tag]
  name := by
    rw [writtenPrefix_tag, resolve_prefix]
    rfl
  attributes := by simp [tag, attributeBindings]

theorem declares_section (v : SoapVersion) (part : String) : Declares (tag v part) [frame v] [] where
  fits := fits_nil _
  declared := by simp [tag]
  name := by
    rw [writtenPrefix_tag, Scopes.resolve_cons_nil, resolve_prefix]
    rfl
  attributes := by simp [tag, attributeBindings]

def scopes (v : SoapVersion) : Scopes := [[], frame v]

theorem covers_scopes (v : SoapVersion) : Scopes.Covers (scopes v) [] := by
  apply Scopes.covers_nil
  cases v <;> rfl

end Envelope

end SoapNode
