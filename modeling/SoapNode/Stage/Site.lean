import SoapNode.Binding
import SoapNode.Handler.Exchange
import SoapNode.Text.Hex
import SoapNode.Time.Instant
import SoapNode.Tube.Pool

/-!
# The site of a chain

What the stages of one client or one server share: the binding, the clock, a supply of message ids and
the record of dumps, beside the world of the user's handlers and operations. The clock stands still
during an exchange, and ids are the numbers of a counter.
-/

namespace SoapNode

inductive DumpContent where
  | noMessage
  | envelope (text : String)
  | failure (error : String)
  deriving DecidableEq, Repr

structure DumpEvent where
  side : Side
  onResponse : Bool
  content : DumpContent
  deriving DecidableEq, Repr

namespace DumpContent

def headline : DumpContent → String
  | noMessage => "No message"
  | envelope _ => "Message dump"
  | failure _ => "Failed to dump message"

def envelope? : DumpContent → Option String
  | envelope text => some text
  | _ => none

def failure? : DumpContent → Option String
  | failure error => some error
  | _ => none

end DumpContent

def DumpEvent.leg (e : DumpEvent) : String := if e.onResponse then "response" else "request"

structure Site (World : Type) where
  binding : Binding World
  clock : Instant
  issued : Nat
  dumps : List DumpEvent
  world : World

namespace Site

variable {World : Type}

def new (binding : Binding World) (clock : Instant) (world : World) : Site World := ⟨binding, clock, 0, [], world⟩

def modifyWorld (s : Site World) (f : World → World) : Site World := { s with world := f s.world }

def idText (n : Nat) : String :=
  "urn:uuid:00000000-0000-4000-8000-" ++ String.ofList (Hex.digits 12 n)

def nextId (s : Site World) : String × Site World := (idText s.issued, { s with issued := s.issued + 1 })

end Site

abbrev SiteStore (World : Type) := Store (HandlerExchange World) (Site World)

abbrev SiteStage (World : Type) := Stage (HandlerExchange World) (Site World)

abbrev SitePlant (World : Type) := Plant (HandlerExchange World) (Site World)

/-- The message of a fault for a binding. Without envelopes the fault is a bare SOAP 1.1 element. -/
def Message.ofFaultFor (version : Option SoapVersion) (f : ProtocolFault) : Message :=
  match version with
  | some v => .ofFault (f.forVersion v)
  | none => .ofElement none (SoapFault.ofProtocol (f.forVersion .v11)).toElement

def Packet.respondFault (p : Packet) (version : Option SoapVersion) (f : ProtocolFault) : Packet :=
  p.respond (some (.ofFaultFor version f))

end SoapNode
