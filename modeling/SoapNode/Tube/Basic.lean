import SoapNode.Packet

/-!
# Tubes

A tube is a stage of a chain. It never calls its successor: it answers what shall happen next, and a
fiber does it. Tubes live on a plant and are known by their position there, which is their identity;
state objects that several tubes of a chain share are the plant's cells. A successor is always an
earlier tube, because chains are built from their tail.
-/

namespace SoapNode

abbrev TubeId := Nat

abbrev CellId := Nat

/-- What shall happen after a tube has run. -/
inductive NextAction where
  /-- Run a tube and come back with its response or its error. -/
  | invoke (next : TubeId) (packet : Packet)
  /-- Run a tube and do not come back. -/
  | invokeAndForget (next : TubeId) (packet : Packet)
  | ret (packet : Packet)
  | throw (error : RuntimeError)

/-- What tubes can change: the cells of the plant and the world. -/
structure Store (Cell World : Type) where
  cells : List Cell
  world : World

namespace Store

variable {Cell World : Type}

def cell [Inhabited Cell] (s : Store Cell World) (id : CellId) : Cell := s.cells.getD id default

def setCell (s : Store Cell World) (id : CellId) (c : Cell) : Store Cell World := { s with cells := s.cells.set id c }

def newCell (s : Store Cell World) (c : Cell) : CellId × Store Cell World :=
  (s.cells.length, { s with cells := s.cells ++ [c] })

def modifyWorld (s : Store Cell World) (f : World → World) : Store Cell World := { s with world := f s.world }

end Store

/-- What a tube knows of its place: its own identity, its successors and its cells. -/
structure Wiring where
  self : TubeId
  successors : List TubeId
  cells : List CellId
  deriving DecidableEq, Repr

namespace Wiring

def next? (w : Wiring) : Option TubeId := w.successors.head?

/-- Passes a packet on and comes back; a tube without a successor answers with the packet itself. -/
def invokeNext (w : Wiring) (p : Packet) : NextAction :=
  match w.next? with
  | some next => .invoke next p
  | none => .ret p

end Wiring

structure Stage (Cell World : Type) where
  name : String
  /-- Whether copies of a chain share the tube. -/
  shareable : Bool
  /-- Whether a walk along the chain ends here, although the tube may run others. -/
  endsWalk : Bool := false
  request : Wiring → Packet → Store Cell World → NextAction × Store Cell World
  response : Wiring → Packet → Store Cell World → NextAction × Store Cell World
  exception : Wiring → RuntimeError → Store Cell World → NextAction × Store Cell World
  /-- Releases what the tube holds, when its chain is closed. -/
  destroy : Wiring → Store Cell World → Store Cell World
  /-- Runs once for a copy of the tube that has just been made. -/
  copied : Wiring → Store Cell World → Store Cell World

namespace Stage

variable {Cell World : Type}

/-- A stage that passes everything on, to be changed where it does more. -/
def passing (name : String) : Stage Cell World where
  name
  shareable := false
  request w p s := (w.invokeNext p, s)
  response _ p s := (.ret p, s)
  exception _ e s := (.throw e, s)
  destroy _ s := s
  copied _ s := s

end Stage

structure Tube (Cell World : Type) where
  stage : Stage Cell World
  successors : List TubeId
  cells : List CellId

/-- The tube that comes next on a walk along the chain. -/
def Tube.next? {Cell World : Type} (t : Tube Cell World) : Option TubeId :=
  if t.stage.endsWalk then none else t.successors.head?

/-- All tubes, by identity, and what they can change. -/
structure Plant (Cell World : Type) where
  tubes : List (Tube Cell World)
  store : Store Cell World

namespace Plant

variable {Cell World : Type}

def empty (world : World) : Plant Cell World := ⟨[], ⟨[], world⟩⟩

def add (p : Plant Cell World) (t : Tube Cell World) : TubeId × Plant Cell World :=
  (p.tubes.length, { p with tubes := p.tubes ++ [t] })

def world (p : Plant Cell World) : World := p.store.world

def modifyWorld (p : Plant Cell World) (f : World → World) : Plant Cell World :=
  { p with store := p.store.modifyWorld f }

def wiring (p : Plant Cell World) (id : TubeId) : Wiring :=
  match p.tubes[id]? with
  | some t => ⟨id, t.successors, t.cells⟩
  | none => ⟨id, [], []⟩

/-- The tubes on a walk from a head, at most `limit` of them. -/
def along (p : Plant Cell World) : (limit : Nat) → TubeId → List TubeId
  | 0, _ => []
  | limit + 1, id =>
    match p.tubes[id]? with
    | none => []
    | some t => id :: (match t.next? with | some next => along p limit next | none => [])

def chain (p : Plant Cell World) (head : TubeId) : List TubeId := p.along p.tubes.length head

def names (p : Plant Cell World) (head : TubeId) : List String :=
  (p.chain head).filterMap (fun id => (p.tubes[id]?).map (·.stage.name))

end Plant

end SoapNode
