import SoapNode.Message.Envelope
import SoapNode.Property.Transport

/-!
# Packets

A packet is a message, or none, with the properties of its exchange. Five keys have a type of their
own; the operation is set by dispatch and cannot be written as a property. All other keys go to a map.
-/

namespace SoapNode

structure PacketProperties where
  soapAction : Option String
  endpointAddress : Option String
  expectsReply : Option Bool
  messageId : Option String
  operation : Option String
  others : PropertyMap
  deriving Repr

namespace PacketProperties

def actionKey : String := "soap.action"
def addressKey : String := "endpoint.address"
def replyKey : String := "expect.reply"
def messageIdKey : String := "wsa.message_id"
def operationKey : String := "operation"

def empty : PacketProperties := ⟨none, none, none, none, none, .empty⟩

def get? (p : PacketProperties) (key : String) : Option PropertyValue :=
  if key = actionKey then PropertyValue.ofText? p.soapAction
  else if key = addressKey then PropertyValue.ofText? p.endpointAddress
  else if key = replyKey then p.expectsReply.map .bool
  else if key = messageIdKey then PropertyValue.ofText? p.messageId
  else if key = operationKey then PropertyValue.ofText? p.operation
  else p.others.get? key

def boolValue (key : String) : PropertyValue → Except PropertyError (Option Bool)
  | .null => .ok none
  | .bool b => .ok (some b)
  | _ => .error (.invalidType key "boolean")

def write (p : PacketProperties) (key : String) (value : PropertyValue) :
    Except PropertyError (Option PropertyValue) × PacketProperties :=
  let previous := p.get? key
  if key = actionKey then PropertySet.storeRead p previous (textValue key value) ({ p with soapAction := · })
  else if key = addressKey then PropertySet.storeRead p previous (textValue key value)
    ({ p with endpointAddress := · })
  else if key = replyKey then PropertySet.storeRead p previous (boolValue key value) ({ p with expectsReply := · })
  else if key = messageIdKey then PropertySet.storeRead p previous (textValue key value) ({ p with messageId := · })
  else if key = operationKey then (.error (.readOnly key), p)
  else (.ok previous, { p with others := p.others.put key value })

/-- The keys that have a type of their own and can be written. -/
def typedKeys : List String := [actionKey, addressKey, replyKey, messageIdKey]

def erase (p : PacketProperties) (key : String) : Except PropertyError (Option PropertyValue) × PacketProperties :=
  if key = operationKey ∨ key ∈ typedKeys then p.write key .null
  else (.ok (p.get? key), { p with others := p.others.remove key })

instance : PropertySet PacketProperties where
  supports _ _ := true
  get? := get?
  write := write
  erase := erase
  keys p := (typedKeys ++ [operationKey]).filter (fun k => (p.get? k).isSome) ++ PropertySet.keys p.others

end PacketProperties

structure Packet where
  message : Option Message
  properties : Distributed PacketProperties TransportProperties
  deriving Repr

namespace Packet

def ofMessage? (m : Option Message) : Packet := ⟨m, .ofOwner .empty⟩

def ofMessage (m : Message) : Packet := ofMessage? (some m)

def empty : Packet := ofMessage? none

def typed (p : Packet) : PacketProperties := p.properties.owner

def modifyTyped (p : Packet) (f : PacketProperties → PacketProperties) : Packet :=
  { p with properties := { p.properties with owner := f p.properties.owner } }

def soapAction (p : Packet) : Option String := p.typed.soapAction
def endpointAddress (p : Packet) : Option String := p.typed.endpointAddress
def expectsReply (p : Packet) : Option Bool := p.typed.expectsReply
def messageId (p : Packet) : Option String := p.typed.messageId
def operation (p : Packet) : Option String := p.typed.operation

def setSoapAction (p : Packet) (s : Option String) : Packet := p.modifyTyped ({ · with soapAction := s })
def setEndpointAddress (p : Packet) (s : Option String) : Packet := p.modifyTyped ({ · with endpointAddress := s })
def setExpectsReply (p : Packet) (b : Bool) : Packet := p.modifyTyped ({ · with expectsReply := some b })
def setMessageId (p : Packet) (s : Option String) : Packet := p.modifyTyped ({ · with messageId := s })
def setOperation (p : Packet) (s : Option String) : Packet := p.modifyTyped ({ · with operation := s })
def setMessage (p : Packet) (m : Option Message) : Packet := { p with message := m }

/-- Only a packet that says so expects no reply. -/
def isOneWay (p : Packet) : Bool := p.expectsReply = some false

def onMessage {α : Type} (p : Packet) (missing : α) (f : Message → α × Message) : α × Packet :=
  match p.message with
  | none => (missing, p)
  | some m =>
    let (a, m) := f m
    (a, { p with message := some m })

def isFault (p : Packet) : Bool × Packet := p.onMessage false Message.isFault

/-- The name by which the packet is dispatched. Without a payload it is the empty name. -/
def payloadName (p : Packet) : Except RuntimeError QName × Packet :=
  p.onMessage (.ok .empty) (fun m =>
    let (name, m) := m.payloadName
    (name.map (·.getD .empty), m))

def respond (p : Packet) (m : Option Message) : Packet := { p with message := m }

def copy (p : Packet) : Except RuntimeError Packet × Packet :=
  match p.message with
  | none => (.ok p, p)
  | some m =>
    let (c, m) := m.copy
    let p := { p with message := some m }
    (c.map (fun c => { p with message := some c }), p)

instance : PropertySet Packet where
  supports p := PropertySet.supports p.properties
  get? p := PropertySet.get? p.properties
  write p k v := (PropertySet.write p.properties k v).map id (fun properties => { p with properties })
  erase p k := (PropertySet.erase p.properties k).map id (fun properties => { p with properties })
  keys p := PropertySet.keys p.properties

end Packet

end SoapNode
