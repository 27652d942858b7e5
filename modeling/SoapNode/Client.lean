import SoapNode.Assembly
import SoapNode.Message.Record

/-!
# Clients

A client makes requests of calls, runs them through a pool of chains and unpacks replies and faults.
A one-way call has no reply, whatever comes back.
-/

namespace SoapNode

inductive ClientError where
  | fault (fault : ProtocolFault)
  | runtime (cause : RuntimeError)

namespace ClientError

/-- A fault that travels as an error reaches the caller as a fault. -/
def ofRuntime : RuntimeError → ClientError
  | .protocol f => fault f
  | e => runtime e

end ClientError

structure Call where
  action : Option String
  oneWay : Bool
  deriving DecidableEq, Repr

structure Client (World : Type) where
  plant : SitePlant World
  pool : TubePool
  kind : BindingKind
  address : Option String

namespace Client

variable {World : Type}

def new (b : Binding World) (c : AssemblySettings) (t : Transport World) (address : Option String) (clock : Instant)
    (world : World) : Client World :=
  let (head, plant) := Assembly.clientChain b c t (.empty (.new b clock world))
  ⟨plant, .ofHead head, b.kind, address⟩

def site (c : Client World) : Site World := c.plant.world

def modifySite (c : Client World) (f : Site World → Site World) : Client World :=
  { c with plant := c.plant.modifyWorld f }

/-- The fault that a reply tells. Without a version it is a bare SOAP 1.1 fault element. -/
def faultOf (m : Message) : Except RuntimeError (Option ProtocolFault) × Message :=
  match m.version with
  | some _ =>
    let (f, m) := m.readFault
    (f.map (·.map SoapFault.toProtocol), m)
  | none =>
    match m.payloadName with
    | (.error e, m) => (.error e, m)
    | (.ok name, m) =>
      if name ≠ some SoapVersion.v11.faultName then (.ok none, m)
      else
        let (e, m) := m.readElement
        (match e with
          | .error e => .error e
          | .ok none => .error .messageConsumed
          | .ok (some e) => ((SoapFault.ofElement e).mapError .fault).map (fun f => some f.toProtocol), m)

def requestPacket (c : Client World) (call : Call) (m : Message) : Packet :=
  ((((Packet.ofMessage m).setSoapAction call.action).setEndpointAddress c.address).setExpectsReply (!call.oneWay))

def unpack (call : Call) (response : Packet) : Except ClientError (Option Message) :=
  if call.oneWay then .ok none
  else match response.message with
    | none => .ok none
    | some m =>
      match faultOf m with
      | (.error e, _) => .error (.ofRuntime e)
      | (.ok (some f), _) => .error (.fault f)
      | (.ok none, m) => .ok (some m)

def exchange (c : Client World) (call : Call) (m : Message) : Except ClientError (Option Message) × Client World :=
  let (result, pool, plant) := c.pool.process (c.requestPacket call m) c.plant
  let c := { c with pool, plant }
  (match result with
    | .error e => .error (.ofRuntime e)
    | .ok response => unpack call response, c)

/-- Reads a reply; what fails is the response. -/
def readReply {α : Type} (read : Message → Except RuntimeError (Option α)) :
    Option Message → Except ClientError (Option α)
  | none => .ok none
  | some m => (read m).mapError (fun e => .ofRuntime (.deserialization true e))

def invoke (c : Client World) (call : Call) (payload : Option Element) :
    Except ClientError (Option Element) × Client World :=
  let request := match payload with
    | some e => Message.ofElement c.kind.version? e
    | none => .empty c.kind.version?
  let (reply, c) := c.exchange call request
  (reply.bind (readReply (·.readElement.1)), c)

def callRecord (c : Client World) (call : Call) (root : String) (fields : List (String × FieldValue))
    (schema : List (String × FieldKind)) : Except ClientError (Option (List (String × FieldValue))) × Client World :=
  match Message.ofRecord c.kind.version? root fields with
  | .error e => (.error (.ofRuntime e), c)
  | .ok m =>
    let (reply, c) := c.exchange call m
    (reply.bind (readReply (·.readRecord schema |>.1)), c)

def close (c : Client World) : Client World :=
  let (pool, plant) := c.pool.close c.plant
  { c with pool, plant }

end Client

end SoapNode
