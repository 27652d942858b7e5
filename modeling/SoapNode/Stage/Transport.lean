import SoapNode.Codec
import SoapNode.Stage.Site

/-!
# The transport stage

The last stage of a client: encode the request, send it, decode the reply. The content types of both
are left with the response as transport properties, in place of those of an earlier exchange.
-/

namespace SoapNode

structure WireMessage where
  body : Bytes
  contentType : String
  deriving DecidableEq, Repr

/-- Delivers a request with its action and whether it is one-way; no reply is an answer too. -/
abbrev Transport (World : Type) :=
  WireMessage → Option String → Bool → World → Except RuntimeError (Option WireMessage) × World

namespace Transport

variable {World : Type}

def within {Part : Type} (get : World → Part) (set : Part → World → World) (t : Transport Part) :
    Transport World :=
  fun request action oneWay w =>
    let (reply, part) := t request action oneWay (get w)
    (reply, set part w)

/-- The response to a request, whose message is already taken out, from the reply. -/
def receive (kind : BindingKind) (p : Packet) (sent : String) :
    Option WireMessage → Except RuntimeError Packet
  | none => .ok (withProperties p none ⟨some sent, none⟩)
  | some reply =>
    match Codec.decode kind reply.body (some reply.contentType) with
    | .error e => .error (.deserialization true e)
    | .ok m => .ok (withProperties p (some m) ⟨some sent, some reply.contentType⟩)
where
  withProperties (p : Packet) (m : Option Message) (t : TransportProperties) : Packet :=
    let kept := match p.properties.detach (fun _ => true) with
      | some (_, rest) => rest
      | none => p.properties
    { message := m, properties := kept.attach t }

def exchange (kind : BindingKind) (t : Transport World) (p : Packet) (w : World) :
    Except RuntimeError Packet × World :=
  match p.message with
  | none => (.error (.transport "no message to send"), w)
  | some m =>
    match (Codec.encode m).1 with
    | .error e => (.error e, w)
    | .ok body =>
      let request : WireMessage := ⟨body, Codec.contentType kind p.soapAction⟩
      let (reply, w) := t request p.soapAction p.isOneWay w
      (reply.bind (receive kind p request.contentType), w)

def stage (kind : BindingKind) (t : Transport World) : SiteStage World :=
  { Stage.passing "transport" with
    shareable := true
    request := fun _ p s =>
      let (response, world) := exchange kind t p s.world.world
      (match response with
        | .ok p => .ret p
        | .error e => .throw e, { s with world := { s.world with world } }) }

end Transport

end SoapNode
