import SoapNode.Message.Source
import SoapNode.Soap.Attachment
import SoapNode.Soap.Header
import SoapNode.Xml.Reader
import SoapNode.Xml.Writer

/-!
# Messages

A message has header blocks, attachments and a payload: none, a tree, bytes, or a source that can be
read once. Reading consumes the payload, also when it fails; asking for the name of the payload does
not, and the answer is kept. Every operation returns the message as it is afterwards.
-/

namespace SoapNode

inductive Payload where
  | empty
  | tree (e : Element)
  | buffered (bytes : Bytes)
  /-- The bytes pulled so far and what is left of the source. -/
  | stream (pulled : Bytes) (source : Source)
  | consumed
  deriving DecidableEq, Repr

structure Message where
  version : Option SoapVersion
  headers : HeaderList
  attachments : Attachments
  payload : Payload
  /-- The payload's name, once it was asked for. -/
  knownName : Option (Option QName)
  deriving DecidableEq, Repr

namespace Message

def ofPayload (version : Option SoapVersion) (payload : Payload) : Message := ⟨version, .empty, [], payload, none⟩

def empty (version : Option SoapVersion) : Message := ofPayload version .empty

def ofElement (version : Option SoapVersion) (e : Element) : Message := ofPayload version (.tree e)

def ofBytes (version : Option SoapVersion) (bytes : Bytes) : Message := ofPayload version (.buffered bytes)

def ofSource (version : Option SoapVersion) (s : Source) : Message := ofPayload version (.stream [] s)

def ofFault (f : ProtocolFault) : Message := ofElement (some f.version) (SoapFault.ofProtocol f).toElement

def addHeader (m : Message) (h : Header) : Message := { m with headers := m.headers.add h }

def attach (m : Message) (a : Attachment) : Message := { m with attachments := m.attachments ++ [a] }

def isConsumed (m : Message) : Bool := m.payload = .consumed

def setPayload (m : Message) (e : Option Element) : Message :=
  { m with payload := (match e with | some e => .tree e | none => .empty), knownName := none }

def remember (m : Message) (name : Option QName) : Message := { m with knownName := some name }

/-- The name of the payload element. A source is read only as far as its first start tag. -/
def payloadName (m : Message) : Except RuntimeError (Option QName) × Message :=
  match m.knownName with
  | some name => (.ok name, m)
  | none =>
    match m.payload with
    | .empty => (.ok none, m.remember none)
    | .tree e => (.ok (some e.name), m.remember (some e.name))
    | .buffered bytes =>
      match sniff bytes with
      | .ok name => (.ok name, m.remember name)
      | .error e => (.error (.xml e), m)
    | .stream pulled source =>
      let (found, pulled, source) := sniffSource pulled source
      let m := { m with payload := .stream pulled source }
      match found with
      | .ok name => (.ok name, m.remember name)
      | .error e => (.error e, m)
    | .consumed => (.error .messageConsumed, m)

def hasPayload (m : Message) : Except RuntimeError Bool × Message :=
  let (name, m) := m.payloadName
  (name.map Option.isSome, m)

/-- Whether the payload is a fault of the message's own version. An unreadable payload is none. -/
def isFault (m : Message) : Bool × Message :=
  match m.version with
  | none => (false, m)
  | some v =>
    let (name, m) := m.payloadName
    (match name with
      | .ok (some q) => q = v.faultName
      | _ => false, m)

def consume (m : Message) : Message := { m with payload := .consumed }

def readBytes (m : Message) : Except RuntimeError (Option Bytes) × Message :=
  (match m.payload with
    | .empty => .ok none
    | .tree e => .ok (some e.toBytes)
    | .buffered bytes => .ok (some bytes)
    | .stream pulled source => source.readAll.map (fun rest => some (pulled ++ rest))
    | .consumed => .error .messageConsumed, m.consume)

def readElement (m : Message) : Except RuntimeError (Option Element) × Message :=
  match m.payload with
  | .tree e => (.ok (some e), m.consume)
  | _ =>
    let (bytes, m) := m.readBytes
    (match bytes with
      | .ok (some bytes) => ((Element.parse bytes).mapError .xml).map some
      | .ok none => .ok none
      | .error e => .error e, m)

/-- The payload as a tree, which it stays. Other forms are read first, and lost if that fails. -/
def payloadTree (m : Message) : Except RuntimeError (Option Element) × Message :=
  match m.payload with
  | .tree e => (.ok (some e), m)
  | .empty => (.ok none, m)
  | _ =>
    let (e, m) := m.readElement
    match e with
    | .ok (some e) => (.ok (some e), { m with payload := .tree e })
    | .ok none => (.ok none, { m with payload := .empty })
    | .error e => (.error e, m)

/-- Reads a source into memory, so that the payload can be read more than once. -/
def buffer (m : Message) : Except RuntimeError Unit × Message :=
  match m.payload with
  | .stream _ _ =>
    let (bytes, m) := m.readBytes
    match bytes with
    | .ok bytes => (.ok (), { m with payload := .buffered (bytes.getD []) })
    | .error e => (.error e, m)
  | _ => (.ok (), m)

def copy (m : Message) : Except RuntimeError Message × Message :=
  let (done, m) := m.buffer
  (match done with
    | .error e => .error e
    | .ok () => if m.isConsumed then .error .messageConsumed else .ok m, m)

/-- Reads the payload for embedding in a document. -/
def writePayload (m : Message) : Except RuntimeError Bytes × Message :=
  match m.payload with
  | .tree e => (.ok e.toBytes, m.consume)
  | _ =>
    let (bytes, m) := m.readBytes
    (bytes.map (fun bytes => stripDeclaration (bytes.getD [])), m)

end Message

end SoapNode
