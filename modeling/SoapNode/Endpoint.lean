import SoapNode.Binding
import SoapNode.Dispatch

/-!
# Endpoints

The operations of a service and how requests find them: by the name of the payload, and by the action
where several operations take the same payload. Names of operations are unique.
-/

namespace SoapNode

inductive ServiceError where
  | fault (fault : ProtocolFault)
  | failed (reason : String)
  deriving DecidableEq, Repr

structure Operation (World : Type) where
  name : String
  /-- The payload element; an operation without one takes requests without a payload. -/
  request : Option QName
  action : Option String
  oneWay : Bool
  run : Option Element → World → Except ServiceError (Option Element) × World

namespace Operation

variable {World : Type}

def key (o : Operation World) : QName := o.request.getD .empty

end Operation

structure Endpoint (World : Type) where
  kind : BindingKind
  operations : List (Operation World)
  dispatcher : Dispatcher

namespace Endpoint

variable {World : Type}

def payloadEntries (operations : List (Operation World)) : List (QName × String) :=
  operations.map (fun o => (o.key, o.name))

def actionEntries (operations : List (Operation World)) : List (String × String) :=
  (operations.filterMap (fun o => o.action.map (·, o.name))).filter (!·.1.isEmpty)

def dispatcherOf (v : SoapVersion) (operations : List (Operation World)) : Dispatcher :=
  ⟨v, [.payload v (payloadEntries operations), .action (actionEntries operations)]⟩

def repeated? (seen : List String) : List (Operation World) → Option String
  | [] => none
  | o :: os => if seen.contains o.name then some o.name else repeated? (o.name :: seen) os

def build (kind : BindingKind) (operations : List (Operation World)) : Except ConfigError (Endpoint World) :=
  match repeated? [] operations with
  | some name => .error (.duplicateOperation name)
  | none => .ok ⟨kind, operations, dispatcherOf kind.faultVersion operations⟩

def operation? (e : Endpoint World) (name : String) : Option (Operation World) := e.operations.find? (·.name = name)

def dispatch (e : Endpoint World) (p : Packet) : Except RuntimeError (Operation World) × Packet :=
  let (name, p) := e.dispatcher.dispatch p
  (name.bind (fun name =>
    match e.operation? name with
    | some o => .ok o
    | none => .error (.config (.unknownOperation name))), p)

end Endpoint

end SoapNode
