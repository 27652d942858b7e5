import SoapNode.Tube.Cloner
import SoapNode.Tube.Fiber

/-!
# Pipelines and pools

A pipeline keeps a template chain and hands out copies of it. A pool also keeps the copies that came
back, the last one on top. Closing destroys the template and the idle copies, each tube once; a copy
that comes back later is destroyed then.
-/

namespace SoapNode

namespace Plant

variable {Cell World : Type}

/-- Destroys the tubes on a walk from a head, up to one that is already visited. -/
def destroyFrom : (limit : Nat) → List TubeId → TubeId → Plant Cell World → List TubeId × Plant Cell World
  | 0, visited, _, p => (visited, p)
  | limit + 1, visited, id, p =>
    if visited.contains id then (visited, p)
    else
      match p.tubes[id]? with
      | none => (visited, p)
      | some t =>
        let p := { p with store := t.stage.destroy ⟨id, t.successors, t.cells⟩ p.store }
        match t.next? with
        | some next => destroyFrom limit (id :: visited) next p
        | none => (id :: visited, p)

def destroyChains (heads : List TubeId) (p : Plant Cell World) : Plant Cell World :=
  (heads.foldl (fun (visited, p) head => destroyFrom p.tubes.length visited head p) ([], p)).2

end Plant

structure Pipeline where
  head : TubeId
  closed : Bool
  deriving DecidableEq, Repr

namespace Pipeline

variable {Cell World : Type} [Inhabited Cell]

def ofHead (head : TubeId) : Pipeline := ⟨head, false⟩

def fork (l : Pipeline) (p : Plant Cell World) : Except RuntimeError TubeId × Plant Cell World :=
  if l.closed then (.error .pipelineClosed, p)
  else
    let (head, p) := p.copyChain l.head
    (.ok head, p)

def process (l : Pipeline) (packet : Packet) (p : Plant Cell World) : Except RuntimeError Packet × Plant Cell World :=
  match l.fork p with
  | (.error e, p) => (.error e, p)
  | (.ok head, p) =>
    let (result, _, p) := p.run (.ofHead head) packet
    (result, p)

def close (l : Pipeline) (p : Plant Cell World) : Pipeline × Plant Cell World :=
  if l.closed then (l, p) else ({ l with closed := true }, p.destroyChains [l.head])

end Pipeline

structure TubePool where
  pipeline : Pipeline
  /-- The heads of the chains that wait, the last one that came back first. -/
  idle : List TubeId
  deriving DecidableEq, Repr

namespace TubePool

variable {Cell World : Type} [Inhabited Cell]

def ofHead (head : TubeId) : TubePool := ⟨.ofHead head, []⟩

def isClosed (pool : TubePool) : Bool := pool.pipeline.closed

/-- An idle chain, or a new copy where there is none. -/
def take (pool : TubePool) (p : Plant Cell World) : Except RuntimeError TubeId × TubePool × Plant Cell World :=
  if pool.isClosed then (.error .pipelineClosed, pool, p)
  else match pool.idle with
    | head :: idle => (.ok head, { pool with idle }, p)
    | [] =>
      let (head, p) := pool.pipeline.fork p
      (head, pool, p)

def recycle (pool : TubePool) (head : TubeId) (p : Plant Cell World) : TubePool × Plant Cell World :=
  if pool.isClosed then (pool, p.destroyChains [head]) else ({ pool with idle := head :: pool.idle }, p)

def process (pool : TubePool) (packet : Packet) (p : Plant Cell World) :
    Except RuntimeError Packet × TubePool × Plant Cell World :=
  match pool.take p with
  | (.error e, pool, p) => (.error e, pool, p)
  | (.ok head, pool, p) =>
    let (result, _, p) := p.run (.ofHead head) packet
    let (pool, p) := pool.recycle head p
    (result, pool, p)

/-- Destroys the template and the idle chains, in the order in which they came back. -/
def close (pool : TubePool) (p : Plant Cell World) : TubePool × Plant Cell World :=
  if pool.isClosed then (pool, p)
  else ({ pool with pipeline := { pool.pipeline with closed := true }, idle := [] },
    p.destroyChains (pool.pipeline.head :: pool.idle.reverse))

end TubePool

end SoapNode
