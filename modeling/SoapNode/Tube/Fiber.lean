import SoapNode.Tube.Basic

/-!
# Fibers

A fiber drives one exchange through tubes. It keeps a stack of the tubes that wait for a response; an
action of the running tube decides what comes next. The tubes are arbitrary callbacks here, so an exchange
may go on forever. `drive` makes steps until it ends, and has a value only if it does; `advance` makes so
many steps at most.
-/

namespace SoapNode

structure Callbacks (σ : Type) where
  request : TubeId → Packet → σ → NextAction × σ
  response : TubeId → Packet → σ → NextAction × σ
  exception : TubeId → RuntimeError → σ → NextAction × σ

/-- The callbacks of the tubes of a plant. A tube that does not exist answers that it is closed. -/
def Plant.callbacks {Cell World : Type} (tubes : List (Tube Cell World)) : Callbacks (Store Cell World) where
  request id p s := match tubes[id]? with
    | some t => t.stage.request ⟨id, t.successors, t.cells⟩ p s
    | none => (.throw .pipelineClosed, s)
  response id p s := match tubes[id]? with
    | some t => t.stage.response ⟨id, t.successors, t.cells⟩ p s
    | none => (.throw .pipelineClosed, s)
  exception id e s := match tubes[id]? with
    | some t => t.stage.exception ⟨id, t.successors, t.cells⟩ e s
    | none => (.throw .pipelineClosed, s)

inductive FiberState where
  | idle
  | processingRequest
  | processingResponse
  | closed
  deriving DecidableEq, Repr

structure Fiber where
  head : TubeId
  state : FiberState
  stack : List TubeId
  deriving DecidableEq, Repr

/-- What a fiber is about to hand to a tube, or to its caller. -/
inductive Pending where
  | request (tube : TubeId) (packet : Packet)
  | response (packet : Packet)
  | exception (error : RuntimeError)

namespace Fiber

def ofHead (head : TubeId) : Fiber := ⟨head, .idle, []⟩

def follow (f : Fiber) (current : TubeId) : NextAction → Fiber × Pending
  | .invoke next p => ({ f with stack := current :: f.stack }, .request next p)
  | .invokeAndForget next p => (f, .request next p)
  | .ret p => (f, .response p)
  | .throw e => (f, .exception e)

/-- One step: a callback and what follows from it, or the end of the exchange. -/
inductive Step (σ : Type) where
  | going (f : Fiber) (pending : Pending) (s : σ)
  | ended (result : Except RuntimeError Packet) (f : Fiber) (s : σ)

variable {σ : Type}

def after (f : Fiber) (current : TubeId) (answer : NextAction × σ) : Step σ :=
  let (f, pending) := f.follow current answer.1
  .going f pending answer.2

def step (cb : Callbacks σ) (f : Fiber) (pending : Pending) (s : σ) : Step σ :=
  match pending with
  | .request tube p => after { f with state := .processingRequest } tube (cb.request tube p s)
  | .response p =>
    match f.stack with
    | [] => .ended (.ok p) { f with state := .idle } s
    | tube :: stack => after { f with state := .processingResponse, stack } tube (cb.response tube p s)
  | .exception e =>
    match f.stack with
    | [] => .ended (.error e) { f with state := .idle } s
    | tube :: stack => after { f with state := .processingResponse, stack } tube (cb.exception tube e s)

/-- Steps until the exchange ends. -/
def drive (cb : Callbacks σ) (f : Fiber) (pending : Pending) (s : σ) :
    Option (Except RuntimeError Packet × Fiber × σ) :=
  match step cb f pending s with
  | .going f pending s => f |>.drive cb pending s
  | .ended result f s => some (result, f, s)
partial_fixpoint

def advance (cb : Callbacks σ) :
    Nat → Fiber → Pending → σ → Option (Except RuntimeError Packet × Fiber × σ)
  | 0, _, _, _ => none
  | n + 1, f, pending, s =>
    match step cb f pending s with
    | .going f pending s => advance cb n f pending s
    | .ended result f s => some (result, f, s)

/-- Drives a packet through the tubes. A closed fiber refuses. An exchange that goes on forever gives nothing; what
stands for it here is never reached when this is executed. -/
def run (cb : Callbacks σ) (f : Fiber) (p : Packet) (s : σ) : Except RuntimeError Packet × Fiber × σ :=
  if f.state = .closed then (.error .pipelineClosed, f, s)
  else (drive cb { f with stack := [] } (.request f.head p) s).getD (.error .pipelineClosed, f, s)

def close (f : Fiber) : Fiber := { f with state := .closed, stack := [] }

end Fiber

def Plant.run {Cell World : Type} (p : Plant Cell World) (f : Fiber) (packet : Packet) :
    Except RuntimeError Packet × Fiber × Plant Cell World :=
  let (result, f, store) := f.run (Plant.callbacks p.tubes) packet p.store
  (result, f, { p with store })

end SoapNode
