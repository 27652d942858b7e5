import SoapNode.Assembly

/-!
# Servers

A server runs requests through a pool of chains. Whatever is wrong with a request is answered with a
fault; only a closed server gives none.
-/

namespace SoapNode

structure Server (World : Type) where
  plant : SitePlant World
  pool : TubePool
  kind : BindingKind
  maxBodySize : Nat

namespace Server

variable {World : Type}

def new (b : Binding World) (endpoint : Endpoint World) (c : AssemblySettings) (clock : Instant) (world : World) :
    Server World :=
  let (head, plant) := Assembly.serverChain b c endpoint (.empty (.new b clock world))
  ⟨plant, .ofHead head, b.kind, c.maxBodySize⟩

def site (s : Server World) : Site World := s.plant.world

def modifySite (s : Server World) (f : Site World → Site World) : Server World :=
  { s with plant := s.plant.modifyWorld f }

def reply (s : Server World) (m : Message) (action : Option String) : Except RuntimeError (Option WireMessage) :=
  (Codec.encode m).1.map (fun body => some ⟨body, Codec.contentType s.kind action⟩)

def faultReply (s : Server World) (f : ProtocolFault) : Except RuntimeError (Option WireMessage) :=
  s.reply (.ofFaultFor s.kind.version? f) none

/-- The value of an action header without its quotes. -/
def unquoteAction (value : String) : String := String.ofList (Text.trimMatches '"' (Text.trimChars value.toList))

def tooLarge (s : Server World) (size : Nat) : ProtocolFault :=
  .client s.kind.faultVersion s!"Request body size {size} exceeds maximum {s.maxBodySize}"

def unreadable : RuntimeError → RuntimeError
  | .protocol f => .protocol f
  | e => .deserialization false e

def requestPacket (m : Message) (action : Option String) : Packet :=
  (Packet.ofMessage m).setSoapAction ((action.map unquoteAction).filter (!·.isEmpty))

/-- Answers a request that came with a content type and an action, if they are known. -/
def handle (s : Server World) (body : Bytes) (contentType action : Option String) :
    Except RuntimeError (Option WireMessage) × Server World :=
  if s.maxBodySize < body.length then (s.faultReply (s.tooLarge body.length), s)
  else match Codec.decode s.kind body contentType with
    | .error e => (s.faultReply (.ofError s.kind.faultVersion (unreadable e)), s)
    | .ok m =>
      let (result, pool, plant) := s.pool.process (requestPacket m action) s.plant
      let s := { s with pool, plant }
      (match result with
        | .error .pipelineClosed => .error .pipelineClosed
        | .error .timeRange => .error .timeRange
        | .error e => s.faultReply (.ofError s.kind.faultVersion e)
        | .ok response =>
          match response.message with
          | none => .ok none
          | some m => s.reply m response.soapAction, s)

def close (s : Server World) : Server World :=
  let (pool, plant) := s.pool.close s.plant
  { s with pool, plant }

end Server

/-- Delivers requests to a server in place. The reply to a one-way request is not waited for. -/
def Transport.toServer {World : Type} : Transport (Server World) := fun request action oneWay s =>
  let (reply, s) := s.handle request.body (some request.contentType) action
  (if oneWay then .ok none else reply, s)

end SoapNode
