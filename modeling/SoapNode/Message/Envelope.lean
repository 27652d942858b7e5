import SoapNode.Message.Basic

/-!
# Envelopes

An envelope is an optional run of headers and one body, all in the namespace of the version. Header
blocks and the payload are taken out with the bindings that are in scope where they stand. A message
without a version is written as its bare payload.
-/

namespace SoapNode

namespace Envelope

def scopeOf (envelope part : Element) : List PrefixBinding := Element.addMissing part.declarations envelope.declarations

structure Contents where
  headers : List Header
  /-- The payload, once there was a body. -/
  body : Option (Option Element)
  deriving DecidableEq, Repr

def readSection (v : SoapVersion) (envelope : Element) (c : Contents) (part : Element) :
    Except EnvelopeError Contents :=
  if part.name.namespaceUri ≠ v.envelopeUri then .error (.foreignChild part.name)
  else
    let blocks := part.elements.map (·.inherit (scopeOf envelope part))
    if part.name.localPart = "Header" ∧ c.body.isNone then .ok { c with headers := c.headers ++ blocks.map Header.mk }
    else if part.name.localPart = "Body" ∧ c.body.isNone then .ok { c with body := some blocks.head? }
    else .error (.misplaced part.name.localPart)

def ofElement (envelope : Element) : Except EnvelopeError Message :=
  if envelope.name.localPart ≠ "Envelope" then .error (.notEnvelope envelope.name)
  else match SoapVersion.ofUri? envelope.name.namespaceUri with
    | none => .error (.unknownNamespace envelope.name.namespaceUri)
    | some v => do
      let c ← envelope.elements.foldlM (readSection v envelope) ⟨[], none⟩
      match c.body with
      | none => .error .noBody
      | some payload =>
        let m := match payload with
          | some e => Message.ofElement (some v) e
          | none => Message.empty (some v)
        .ok { m with headers := .ofBlocks c.headers }

def parse (bytes : Bytes) : Except RuntimeError Message := do
  let e ← (Element.parse bytes).mapError .xml
  (ofElement e).mapError .invalidEnvelope

def declaration : Bytes := Token.ascii "<?xml version=\"1.0\" encoding=\"UTF-8\"?>"

def openTag (localPart : String) : Bytes := Token.ascii ("<" ++ envelopePrefix ++ ":" ++ localPart ++ ">")

def closeTag (localPart : String) : Bytes := Token.ascii ("</" ++ envelopePrefix ++ ":" ++ localPart ++ ">")

def wrap (v : SoapVersion) (headers : List Header) (payload : Bytes) : Bytes :=
  Token.ascii ("<" ++ envelopePrefix ++ ":Envelope xmlns:" ++ envelopePrefix ++ "=\"" ++ v.envelopeUri ++ "\">") ++
    (if headers.isEmpty then [] else openTag "Header" ++ headers.flatMap (·.element.toBytes) ++ closeTag "Header") ++
    openTag "Body" ++ payload ++ closeTag "Body" ++ closeTag "Envelope"

end Envelope

namespace Message

/-- Writes the envelope. The payload is consumed. -/
def write (m : Message) : Except RuntimeError Bytes × Message :=
  let (payload, rest) := m.writePayload
  (match m.version with
    | none => payload
    | some v => payload.map (Envelope.wrap v m.headers.blocks), rest)

def toEnvelope (m : Message) : Except RuntimeError Bytes × Message :=
  let (bytes, m) := m.write
  (bytes.map (Envelope.declaration ++ ·), m)

def toEnvelopeText (m : Message) : Except RuntimeError String × Message :=
  let (bytes, m) := m.toEnvelope
  (do (Utf8.decode (← bytes)).mapError (.xml ∘ .notUtf8), m)

def readFault (m : Message) : Except RuntimeError (Option SoapFault) × Message :=
  match m.isFault with
  | (false, m) => (.ok none, m)
  | (true, m) =>
    let (e, m) := m.readElement
    (match e with
      | .ok (some e) => ((SoapFault.ofElement e).mapError .fault).map some
      | .ok none => .error .messageConsumed
      | .error e => .error e, m)

end Message

def SoapFault.toMessage (f : SoapFault) : Message := .ofElement (some f.version) f.toElement

end SoapNode
