import SoapNode.Xml.Element

/-!
# Security violations

What the security stage and the entity scan object to, and how a list of objections is told in a
fault: as one line of text and as a detail entry.
-/

namespace SoapNode

inductive ViolationCode where
  | missingSecurityHeader
  | invalidTimestamp
  | timestampExpired
  | missingUsernameToken
  | invalidPasswordType
  | missingSamlAssertion
  | doctypeDetected
  | externalEntityDetected
  deriving DecidableEq, Repr

def ViolationCode.all : List ViolationCode :=
  [missingSecurityHeader, invalidTimestamp, timestampExpired, missingUsernameToken, invalidPasswordType,
    missingSamlAssertion, doctypeDetected, externalEntityDetected]

def ViolationCode.text : ViolationCode → String
  | missingSecurityHeader => "MISSING_SECURITY_HEADER"
  | invalidTimestamp => "INVALID_TIMESTAMP"
  | timestampExpired => "TIMESTAMP_EXPIRED"
  | missingUsernameToken => "MISSING_USERNAME_TOKEN"
  | invalidPasswordType => "INVALID_PASSWORD_TYPE"
  | missingSamlAssertion => "MISSING_SAML_ASSERTION"
  | doctypeDetected => "DOCTYPE_DETECTED"
  | externalEntityDetected => "EXTERNAL_ENTITY_DETECTED"

/-- Reads a code in any spelling: the case of letters and the underscores between words do not count. -/
def ViolationCode.ofText? (s : String) : Option ViolationCode :=
  let letters (s : String) := (s.toList.filter (· != '_')).map Char.toLower
  all.find? (fun c => letters c.text == letters s)

structure Violation where
  code : ViolationCode
  message : String
  deriving DecidableEq, Repr

namespace Violation

def detailUri : String := "urn:zentinel:soap:security"

def entry (localPart : String) : Element := (Element.named ⟨detailUri, localPart⟩).withPrefix "zentinel"

def detail (violations : List Violation) : Element :=
  violations.foldl (fun list v =>
    list.push (((entry "violation").setAttribute (.unqualified "code") v.code.text).pushText v.message))
    (entry "violations")

def reason (violations : List Violation) : String :=
  "; ".intercalate (violations.map (fun v => "[" ++ v.code.text ++ "] " ++ v.message))

end Violation

end SoapNode
