import SoapNode.Endpoint
import SoapNode.Stage.Site

/-!
# The invoker

The last stage of a server: find the operation, read its input, run it, answer. Whatever goes wrong
becomes a fault message, so that the stages in front see it as a response.
-/

namespace SoapNode

namespace Invoker

variable {World : Type}

def answer (kind : BindingKind) (oneWay : Bool) (p : Packet) : Except ServiceError (Option Element) → Packet
  | .ok output =>
    if oneWay then p.respond none
    else p.respond (some (match output with
      | some e => .ofElement kind.version? e
      | none => .empty kind.version?))
  | .error (.fault f) => p.respondFault kind.version? f
  | .error (.failed reason) => p.respondFault kind.version? (.server kind.faultVersion reason)

def answerError (kind : BindingKind) (p : Packet) (e : RuntimeError) : Packet :=
  p.respondFault kind.version? (.ofError kind.faultVersion e)

def invoke (endpoint : Endpoint World) (p : Packet) (world : World) : Packet × World :=
  match endpoint.dispatch p with
  | (.error e, p) => (answerError endpoint.kind p e, world)
  | (.ok o, p) =>
    match (p.setOperation (some o.name)).onMessage (.ok none) Message.readElement with
    | (.error e, p) => (answerError endpoint.kind p (.deserialization false e), world)
    | (.ok input, p) =>
      let (output, world) := o.run input world
      (answer endpoint.kind o.oneWay p output, world)

def stage (endpoint : Endpoint World) : SiteStage World :=
  { Stage.passing "invoker" with
    shareable := true
    request := fun _ p s =>
      let (p, world) := invoke endpoint p s.world.world
      (.ret p, { s with world := { s.world with world } }) }

end Invoker

end SoapNode
