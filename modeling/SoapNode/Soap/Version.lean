import SoapNode.Xml.Name

/-!
# SOAP versions

The two envelope namespaces and what each version calls things: media type, fault codes, roles and
the attributes of header blocks. A standard fault code of one version has a counterpart in the other;
codes in other namespaces are kept.
-/

namespace SoapNode

inductive SoapVersion where
  | v11
  | v12
  deriving DecidableEq, Repr, Inhabited

namespace SoapVersion

def number : SoapVersion → String
  | v11 => "1.1"
  | v12 => "1.2"

def ofNumber? (s : String) : Option SoapVersion := [v11, v12].find? (·.number == s)

def envelopeUri : SoapVersion → String
  | v11 => "http://schemas.xmlsoap.org/soap/envelope/"
  | v12 => "http://www.w3.org/2003/05/soap-envelope"

def ofUri? (uri : String) : Option SoapVersion :=
  if uri = v11.envelopeUri then some v11 else if uri = v12.envelopeUri then some v12 else none

theorem ofUri?_envelopeUri (v : SoapVersion) : ofUri? v.envelopeUri = some v := by
  cases v <;> decide

theorem eq_envelopeUri_of_ofUri? {uri : String} {v : SoapVersion} (h : ofUri? uri = some v) : uri = v.envelopeUri := by
  unfold ofUri? at h
  split at h
  · simp at h; subst h; assumption
  · split at h
    · simp at h; subst h; assumption
    · simp at h

def name (v : SoapVersion) (localPart : String) : QName := ⟨v.envelopeUri, localPart⟩

def mediaType : SoapVersion → String
  | v11 => "text/xml"
  | v12 => "application/soap+xml"

def faultName (v : SoapVersion) : QName := v.name "Fault"

/-- The code that blames the sender. -/
def clientCode : SoapVersion → QName
  | v11 => v11.name "Client"
  | v12 => v12.name "Sender"

/-- The code that blames the receiver. -/
def serverCode : SoapVersion → QName
  | v11 => v11.name "Server"
  | v12 => v12.name "Receiver"

def mustUnderstandCode (v : SoapVersion) : QName := v.name "MustUnderstand"

def versionMismatchCode (v : SoapVersion) : QName := v.name "VersionMismatch"

/-- The code of this version for a standard code of either version. -/
def mapCode (v : SoapVersion) (code : QName) : QName :=
  match ofUri? code.namespaceUri with
  | none => code
  | some _ =>
    if code.localPart = "Client" ∨ code.localPart = "Sender" then v.clientCode
    else if code.localPart = "Server" ∨ code.localPart = "Receiver" then v.serverCode
    else v.name code.localPart

def nextRole : SoapVersion → String
  | v11 => "http://schemas.xmlsoap.org/soap/actor/next"
  | v12 => "http://www.w3.org/2003/05/soap-envelope/role/next"

def implicitRoles : SoapVersion → List String
  | v11 => [v11.nextRole]
  | v12 => [v12.nextRole, "http://www.w3.org/2003/05/soap-envelope/role/ultimateReceiver"]

def noneRole? : SoapVersion → Option String
  | v11 => none
  | v12 => some "http://www.w3.org/2003/05/soap-envelope/role/none"

def roleAttribute : SoapVersion → QName
  | v11 => v11.name "actor"
  | v12 => v12.name "role"

def mustUnderstandAttribute (v : SoapVersion) : QName := v.name "mustUnderstand"

end SoapVersion

end SoapNode
