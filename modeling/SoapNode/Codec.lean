import SoapNode.Binding
import SoapNode.Message.Envelope
import SoapNode.Soap.EntityScan

/-!
# Codecs

How messages of a binding kind become bytes and are read again. A document is scanned for entity
declarations before anything else is read of it. SOAP bodies must be envelopes of the binding's own
version; plain XML bodies become the payload as they are, and blank ones stand for no payload.
-/

namespace SoapNode

def mediaTypeOf (contentType : String) : String :=
  Text.trim (String.ofList (contentType.toList.takeWhile (· != ';')))

def lowerAscii (s : String) : String := String.ofList (s.toList.map Char.toLower)

namespace Codec

def xmlMediaType : String := "application/xml"

def mediaType (k : BindingKind) : String := (k.version?.map SoapVersion.mediaType).getD xmlMediaType

/-- The content type of what is sent. SOAP 1.2 has the action in it. -/
def contentType (k : BindingKind) (action : Option String) : String :=
  match k.version? with
  | none => xmlMediaType
  | some v =>
    let plain := v.mediaType ++ "; charset=utf-8"
    match v, action.filter (!·.isEmpty) with
    | .v12, some action => plain ++ "; action=\"" ++ action ++ "\""
    | _, _ => plain

def encode (m : Message) : Except RuntimeError Bytes × Message := m.toEnvelope

def rejectEntities (v : SoapVersion) (bytes : Bytes) : Except RuntimeError Unit := do
  let document ← (Utf8.decodeChars bytes).mapError (.xml ∘ .documentNotUtf8)
  match EntityScan.scan document with
  | .ok () => .ok ()
  | .error violation =>
    .error (.protocol ((ProtocolFault.client v (Violation.reason [violation])).withDetail
      (Violation.detail [violation])))

def acceptsSoap (v : SoapVersion) (contentType : String) : Bool :=
  lowerAscii (mediaTypeOf contentType) == lowerAscii v.mediaType

def acceptsXml (contentType : String) : Bool :=
  EntityScan.occurs "xml".toList (lowerAscii contentType).toList

def checkType (accepts : String → Bool) : Option String → Except RuntimeError Unit
  | none => .ok ()
  | some given => if accepts given then .ok () else .error (.contentType given)

def decodeSoap (v : SoapVersion) (bytes : Bytes) (contentType : Option String) : Except RuntimeError Message := do
  checkType (acceptsSoap v) contentType
  rejectEntities v bytes
  match ← (sniff bytes).mapError .xml with
  | none => .error (.invalidEnvelope .emptyDocument)
  | some root =>
    if root.localPart ≠ "Envelope" then .error (.invalidEnvelope (.rootNotEnvelope root))
    else if root.namespaceUri ≠ v.envelopeUri then .error (.protocol (.versionMismatch v))
    else Envelope.parse bytes

def decodeXml (bytes : Bytes) (contentType : Option String) : Except RuntimeError Message := do
  checkType acceptsXml contentType
  rejectEntities .v11 bytes
  let body := stripDeclaration bytes
  if body.all isAsciiSpace then .ok (.empty none) else .ok (.ofBytes none body)

def decode (k : BindingKind) (bytes : Bytes) (contentType : Option String) : Except RuntimeError Message :=
  match k.version? with
  | some v => decodeSoap v bytes contentType
  | none => decodeXml bytes contentType

end Codec

end SoapNode
