import SoapNode.Handler.Basic

/-!
# Running a chain of handlers

A processor runs the handlers of one kind for one exchange. It keeps the position of the last handler
that saw the request, so that the response and closing meet exactly those that did. A handler that
stops a request, or raises a fault on it, turns it around at its own position; the handlers before it
then see what goes back. A one-way request just ends there.
-/

namespace SoapNode

structure Processor (World : Type) where
  handlers : List (Handler World)
  roles : List String
  side : Side
  version : Option SoapVersion
  /-- The position of the last handler that saw the request. -/
  index : Option Nat
  /-- Whether a handler has already answered for the request. -/
  remedied : Bool
  closed : Bool

namespace Processor

variable {World : Type}

def new (handlers : List (Handler World)) (roles : List String) (side : Side) (version : Option SoapVersion) :
    Processor World := ⟨handlers, roles, side, version, none, false, false⟩

inductive Passage where
  | through
  | stopped (position : Nat)
  | raised (position : Nat) (error : HandlerError)

/-- Calls handlers in order, the first one being at `position`, until one does not answer true. -/
def forward (ctx : HandlerContext) (position : Nat) :
    List (Handler World) → Packet → World → Passage × Packet × World
  | [], p, w => (.through, p, w)
  | h :: hs, p, w =>
    match h.onMessage ctx p w with
    | (.ok true, p, w) => forward ctx (position + 1) hs p w
    | (.ok false, p, w) => (.stopped position, p, w)
    | (.error e, p, w) => (.raised position e, p, w)

def callEach (callback : Handler World → HandlerCallback World) (ctx : HandlerContext) :
    List (Handler World) → Packet → World → Except HandlerError Bool × Packet × World
  | [], p, w => (.ok true, p, w)
  | h :: hs, p, w =>
    match callback h ctx p w with
    | (.ok true, p, w) => callEach callback ctx hs p w
    | (.ok false, p, w) => (.ok false, p, w)
    | (.error e, p, w) => (.error e, p, w)

/-- The handlers before a position, the nearest first. -/
def before (p : Processor World) (position : Nat) : List (Handler World) := (p.handlers.take position).reverse

def requestContext (p : Processor World) : HandlerContext := ⟨p.side.requestDirection, p.roles⟩

def responseContext (p : Processor World) : HandlerContext := ⟨p.side.requestDirection.reverse, p.roles⟩

/-- Puts a fault in the place of the message. Without a version its element is the bare payload. -/
def insertFault (p : Processor World) (packet : Packet) (fault : ProtocolFault) : Packet :=
  packet.setMessage (some (match p.version with
    | some v => .ofFault (fault.forVersion v)
    | none => .ofElement none (SoapFault.ofProtocol fault).toElement))

/-- The answer `false`, unless an error came on the way back. -/
def turned : Except HandlerError Bool × Packet × World → Except HandlerError Bool × Packet × World
  | (.ok _, p, w) => (.ok false, p, w)
  | (.error e, p, w) => (.error e, p, w)

/-- Runs the request. True means that it goes on; with false the packet holds what goes back. -/
def callRequest (p : Processor World) (packet : Packet) (oneWay : Bool) (w : World) :
    Except HandlerError Bool × Processor World × Packet × World :=
  let p := { p with index := none, remedied := false, closed := false }
  match forward p.requestContext 0 p.handlers packet w with
  | (.through, packet, w) =>
    (.ok true, { p with index := if p.handlers.isEmpty then none else some (p.handlers.length - 1) }, packet, w)
  | (.stopped i, packet, w) =>
    let p := { p with index := some i, remedied := true }
    if oneWay then (.ok false, p, packet, w)
    else
      let (result, packet, w) := turned (callEach Handler.onMessage p.responseContext (p.before i) packet w)
      (result, p, packet, w)
  | (.raised i e, packet, w) =>
    let p := { p with index := some i, remedied := true }
    match e with
    | .protocol fault =>
      if oneWay then (.error e, p, packet, w)
      else
        let packet := p.insertFault packet fault
        let (result, packet, w) := turned (callEach Handler.onFault p.responseContext (p.before i) packet w)
        (result, p, packet, w)
    | e => (.error e, p, packet, w)

def backward (p : Processor World) (isFault : Bool) :
    List (Handler World) → Packet → World → Except HandlerError Bool × Packet × World
  | [], packet, w => (.ok true, packet, w)
  | h :: below, packet, w =>
    match (if isFault then h.onFault else h.onMessage) p.responseContext packet w with
    | (.ok true, packet, w) => backward p isFault below packet w
    | (.ok false, packet, w) => (.ok false, packet, w)
    | (.error e, packet, w) =>
      match e with
      | .protocol fault =>
        if isFault then (.error e, packet, w)
        else turned (callEach Handler.onFault p.responseContext below (p.insertFault packet fault) w)
      | e => (.error e, packet, w)

def reached (p : Processor World) : List (Handler World) :=
  match p.index with
  | none => []
  | some top => p.before (top + 1)

/-- Runs the response. After a handler has answered for the request there is nothing to do. -/
def callResponse (p : Processor World) (packet : Packet) (isFault : Bool) (w : World) :
    Except HandlerError Bool × Packet × World :=
  if p.remedied then (.ok true, packet, w) else p.backward isFault p.reached packet w

def closeEach (ctx : HandlerContext) : List (Handler World) → Packet → World → Packet × World
  | [], packet, w => (packet, w)
  | h :: hs, packet, w =>
    let (packet, w) := h.onClose ctx packet w
    closeEach ctx hs packet w

def close (p : Processor World) (packet : Packet) (w : World) : Processor World × Packet × World :=
  if p.closed then (p, packet, w)
  else
    let p := { p with closed := true }
    let (packet, w) := closeEach p.responseContext p.reached packet w
    (p, packet, w)

end Processor

end SoapNode
