import SoapNode.Stage.Site

/-!
# Handler stages

The handlers of a binding run in two neighbouring stages, one for each kind, that share an exchange.
The outer one, logical on a client and SOAP on a server, starts every exchange afresh and closes both
kinds when it is over, the inner kind first. A binding without envelopes has the logical stage alone.
The handlers are those of the binding at the time of the request.
-/

namespace SoapNode

structure HandlerStage where
  kind : HandlerKind
  side : Side
  /-- Whether the stage of the other kind is next to this one. -/
  paired : Bool
  deriving DecidableEq, Repr

namespace HandlerStage

variable {World : Type}

def cousin : HandlerKind → HandlerKind
  | .logical => .soap
  | .soap => .logical

def outerKind : Side → HandlerKind
  | .client => .logical
  | .server => .soap

def closes (h : HandlerStage) : Bool := !h.paired || h.kind == outerKind h.side

def cellOf (w : Wiring) : CellId := w.cells.headD 0

def setExchange (w : Wiring) (x : HandlerExchange World) (s : SiteStore World) : SiteStore World :=
  s.setCell (cellOf w) x

def setWorld (s : SiteStore World) (world : World) : SiteStore World := { s with world := { s.world with world } }

/-- Closes the other kind, if this one let the request through, and then this one. -/
def close (h : HandlerStage) (w : Wiring) (p : Packet) (s : SiteStore World) : Packet × SiteStore World :=
  let x := s.cell (cellOf w)
  let (x, p, world) :=
    if h.paired && (x.leg h.kind).successful then x.closeLeg (cousin h.kind) p s.world.world else (x, p, s.world.world)
  let (x, p, world) := x.closeLeg h.kind p world
  (p, setExchange w x (setWorld s world))

def closeIfDue (h : HandlerStage) (w : Wiring) (p : Packet) (s : SiteStore World) : Packet × SiteStore World :=
  if h.closes then h.close w p s else (p, s)

def start (h : HandlerStage) (x : HandlerExchange World) : HandlerExchange World :=
  if h.closes then .fresh else x.setLeg h.kind .fresh

def request (h : HandlerStage) (w : Wiring) (p : Packet) (s : SiteStore World) : NextAction × SiteStore World :=
  let x := h.start (s.cell (cellOf w))
  let config := s.world.binding.handlerConfig
  let handlers := config.handlers h.kind
  if handlers.isEmpty then (w.invokeNext p, setExchange w (x.setLeg h.kind { x.leg h.kind with successful := true }) s)
  else
    let oneWay := p.isOneWay
    let processor := Processor.new handlers config.roles h.side s.world.binding.version?
    let (result, processor, p, world) := processor.callRequest p oneWay s.world.world
    let passed := match result with | .ok true => true | _ => false
    let s := setExchange w (x.setLeg h.kind ⟨some processor, passed⟩) (setWorld s world)
    match result with
    | .ok true => (w.invokeNext p, s)
    | .ok false =>
      let (p, s) := h.closeIfDue w (if oneWay then p.setMessage none else p) s
      (.ret p, s)
    | .error e =>
      let (_, s) := h.closeIfDue w p s
      (.throw (.handler e), s)

/-- Runs the response through the handlers that saw the request. Without a message there is nothing to run. -/
def callResponse (h : HandlerStage) (w : Wiring) (p : Packet) (s : SiteStore World) :
    Except HandlerError Bool × Packet × SiteStore World :=
  match ((s.cell (cellOf w)).leg h.kind).processor with
  | none => (.ok true, p, s)
  | some processor =>
    if p.message.isNone then (.ok true, p, s)
    else
      let (isFault, p) := p.isFault
      let (result, p, world) := processor.callResponse p isFault s.world.world
      (result, p, setWorld s world)

def response (h : HandlerStage) (w : Wiring) (p : Packet) (s : SiteStore World) : NextAction × SiteStore World :=
  let (result, p, s) := h.callResponse w p s
  let (p, s) := h.closeIfDue w p s
  match result with
  | .error e => (.throw (.handler e), s)
  | .ok _ => (.ret p, s)

def stage (h : HandlerStage) : SiteStage World where
  name := match h.kind with | .logical => "logical-handlers" | .soap => "soap-handlers"
  shareable := false
  request := h.request
  response := h.response
  exception w e s := (.throw e, (h.closeIfDue w .empty s).2)
  destroy w s := (h.closeIfDue w .empty s).2
  copied _ s := s

end HandlerStage

end SoapNode
