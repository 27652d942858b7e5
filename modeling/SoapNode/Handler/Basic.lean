import SoapNode.Packet
import SoapNode.Text.Ascending

/-!
# Handlers

User code that sees messages on their way through a binding. Logical handlers work on the payload,
SOAP handlers on the whole message. What a callback does to the packet and to the world around it is
arbitrary; `World` stands for that world throughout.
-/

namespace SoapNode

/-- The end of the exchange a stage runs on. -/
inductive Side where
  | client
  | server
  deriving DecidableEq, Repr

def Side.name : Side → String
  | client => "client"
  | server => "server"

/-- Where a message travels, seen from the node. -/
inductive Direction where
  | outbound
  | inbound
  deriving DecidableEq, Repr

def Direction.reverse : Direction → Direction
  | outbound => inbound
  | inbound => outbound

def Side.requestDirection : Side → Direction
  | client => .outbound
  | server => .inbound

inductive HandlerKind where
  | logical
  | soap
  deriving DecidableEq, Repr

structure HandlerContext where
  direction : Direction
  roles : List String
  deriving DecidableEq, Repr

/-- A callback answers whether the message shall go on. -/
abbrev HandlerCallback (World : Type) :=
  HandlerContext → Packet → World → Except HandlerError Bool × Packet × World

structure Handler (World : Type) where
  kind : HandlerKind
  headers : List QName
  onMessage : HandlerCallback World
  onFault : HandlerCallback World
  onClose : HandlerContext → Packet → World → Packet × World

namespace Handler

variable {World : Type}

def isLogical (h : Handler World) : Bool := h.kind = .logical

def passing (kind : HandlerKind) (headers : List QName) : Handler World where
  kind
  headers
  onMessage _ p w := (.ok true, p, w)
  onFault _ p w := (.ok true, p, w)
  onClose _ p w := (p, w)

end Handler

/-- The handlers of a binding and the roles that the user gave it, ascending. -/
structure HandlerConfiguration (World : Type) where
  version : Option SoapVersion
  chain : List (Handler World)
  configuredRoles : List String

namespace HandlerConfiguration

variable {World : Type}

def handlers (c : HandlerConfiguration World) (kind : HandlerKind) : List (Handler World) :=
  c.chain.filter (·.kind = kind)

/-- The roles in effect, with those that every node plays, ascending. -/
def roles (c : HandlerConfiguration World) : List String :=
  Ascending.ofList (c.configuredRoles ++ (match c.version with | some v => v.implicitRoles | none => []))

def understood (c : HandlerConfiguration World) : List QName :=
  Ascending.ofList ((c.handlers .soap).flatMap (·.headers))

end HandlerConfiguration

end SoapNode
