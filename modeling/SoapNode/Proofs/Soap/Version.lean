import SoapNode.Soap.Version

/-!
# Codes of the two versions

Mapping a code to a version keeps codes of other namespaces and puts the others into the namespace of
the version. It does so once and for all: a mapped code is mapped to itself.
-/

namespace SoapNode.SoapVersion

theorem envelopeUri_ne_empty (v : SoapVersion) : v.envelopeUri ≠ "" := by
  cases v <;> decide

theorem envelopeUri_ne : v12.envelopeUri ≠ v11.envelopeUri := by decide

def standard (v : SoapVersion) (localPart : String) : QName :=
  if localPart = "Client" ∨ localPart = "Sender" then v.clientCode
  else if localPart = "Server" ∨ localPart = "Receiver" then v.serverCode
  else v.name localPart

theorem mapCode_of_foreign (v : SoapVersion) {code : QName} (h : ofUri? code.namespaceUri = none) :
    v.mapCode code = code := by
  rw [mapCode, h]

theorem mapCode_of_ofUri? (v : SoapVersion) {code : QName} {w : SoapVersion} (h : ofUri? code.namespaceUri = some w) :
    v.mapCode code = v.standard code.localPart := by
  rw [mapCode, h]
  rfl

theorem namespaceUri_standard (v : SoapVersion) (localPart : String) :
    (v.standard localPart).namespaceUri = v.envelopeUri := by
  unfold standard
  split
  · cases v <;> rfl
  · split
    · cases v <;> rfl
    · rfl

theorem standard_standard (v : SoapVersion) (localPart : String) :
    v.standard (v.standard localPart).localPart = v.standard localPart := by
  by_cases hclient : localPart = "Client" ∨ localPart = "Sender"
  · have heq : v.standard localPart = v.clientCode := if_pos hclient
    rw [heq]
    cases v <;> decide
  · by_cases hserver : localPart = "Server" ∨ localPart = "Receiver"
    · have heq : v.standard localPart = v.serverCode := by
        rw [standard, if_neg hclient, if_pos hserver]
      rw [heq]
      cases v <;> decide
    · have heq : v.standard localPart = v.name localPart := by
        rw [standard, if_neg hclient, if_neg hserver]
      rw [heq]
      exact heq

theorem mapCode_cases (v : SoapVersion) (code : QName) :
    v.mapCode code = code ∧ ofUri? code.namespaceUri = none ∨
      v.mapCode code = v.standard code.localPart ∧ (ofUri? code.namespaceUri).isSome = true := by
  cases h : ofUri? code.namespaceUri with
  | none => exact .inl ⟨v.mapCode_of_foreign h, rfl⟩
  | some w => exact .inr ⟨v.mapCode_of_ofUri? h, rfl⟩

@[simp] theorem mapCode_mapCode (v : SoapVersion) (code : QName) : v.mapCode (v.mapCode code) = v.mapCode code := by
  rcases v.mapCode_cases code with ⟨heq, _⟩ | ⟨heq, _⟩
  · rw [heq, heq]
  · have huri : ofUri? (v.standard code.localPart).namespaceUri = some v := by
      rw [namespaceUri_standard, ofUri?_envelopeUri]
    rw [heq, v.mapCode_of_ofUri? huri, standard_standard]

theorem mapCode_v12_ne_v11 (code : QName) : (v12.mapCode code).namespaceUri ≠ v11.envelopeUri := by
  rcases v12.mapCode_cases code with ⟨heq, hforeign⟩ | ⟨heq, _⟩
  · rw [heq]
    intro huri
    rw [huri, ofUri?_envelopeUri] at hforeign
    cases hforeign
  · rw [heq, namespaceUri_standard]
    exact envelopeUri_ne

end SoapNode.SoapVersion
