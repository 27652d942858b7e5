import SoapNode.Handler.Processor

/-!
# The exchange of two handler stages

Logical and SOAP handlers run in two neighbouring stages. The state of an exchange that both see: for
each kind the processor in use and whether the request came through.
-/

namespace SoapNode

structure Leg (World : Type) where
  processor : Option (Processor World)
  successful : Bool

namespace Leg

def fresh {World : Type} : Leg World := ⟨none, false⟩

end Leg

structure HandlerExchange (World : Type) where
  logical : Leg World
  soap : Leg World

namespace HandlerExchange

variable {World : Type}

def fresh : HandlerExchange World := ⟨.fresh, .fresh⟩

instance : Inhabited (HandlerExchange World) := ⟨fresh⟩

def leg (x : HandlerExchange World) : HandlerKind → Leg World
  | .logical => x.logical
  | .soap => x.soap

def setLeg (x : HandlerExchange World) (kind : HandlerKind) (l : Leg World) : HandlerExchange World :=
  match kind with
  | .logical => { x with logical := l }
  | .soap => { x with soap := l }

def closeLeg (x : HandlerExchange World) (kind : HandlerKind) (packet : Packet) (w : World) :
    HandlerExchange World × Packet × World :=
  match (x.leg kind).processor with
  | none => (x, packet, w)
  | some p =>
    let (p, packet, w) := p.close packet w
    (x.setLeg kind { x.leg kind with processor := some p }, packet, w)

end HandlerExchange

end SoapNode
