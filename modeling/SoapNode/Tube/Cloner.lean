import SoapNode.Tube.Basic

/-!
# Copying chains

A cloner copies tubes, every tube and every cell once. A tube that is reachable in two ways has one
copy, tubes that share a cell have copies that share a fresh one, and a shareable tube is its own copy.
Successors are copied before the cells of a tube. A chain is copied at most as deep as there are tubes,
which is enough where no tube is its own successor, directly or through others.
-/

namespace SoapNode

structure Cloner where
  tubes : List (TubeId × TubeId)
  cells : List (CellId × CellId)
  deriving DecidableEq, Repr

namespace Cloner

variable {Cell World : Type} [Inhabited Cell]

def empty : Cloner := ⟨[], []⟩

def copyCell (c : Cloner) (id : CellId) (p : Plant Cell World) : CellId × Cloner × Plant Cell World :=
  match c.cells.lookup id with
  | some copy => (copy, c, p)
  | none =>
    let (copy, store) := p.store.newCell default
    (copy, { c with cells := (id, copy) :: c.cells }, { p with store })

def copyEach {ι : Type} (copyOne : Cloner → ι → Plant Cell World → ι × Cloner × Plant Cell World) :
    List ι → Cloner → Plant Cell World → List ι × Cloner × Plant Cell World
  | [], c, p => ([], c, p)
  | i :: is, c, p =>
    let (i, c, p) := copyOne c i p
    let (is, c, p) := copyEach copyOne is c p
    (i :: is, c, p)

/-- The copy of a tube, made unless there is one. Beyond the given depth tubes are left as they are. -/
def copyTube : (depth : Nat) → Cloner → TubeId → Plant Cell World → TubeId × Cloner × Plant Cell World
  | 0, c, id, p => (id, c, p)
  | depth + 1, c, id, p =>
    match c.tubes.lookup id, p.tubes[id]? with
    | some copy, _ => (copy, c, p)
    | none, none => (id, c, p)
    | none, some t =>
      if t.stage.shareable then (id, { c with tubes := (id, id) :: c.tubes }, p)
      else
        let (successors, c, p) := copyEach (copyTube depth) t.successors c p
        let (cells, c, p) := copyEach copyCell t.cells c p
        let (copy, p) := p.add ⟨t.stage, successors, cells⟩
        (copy, { c with tubes := (id, copy) :: c.tubes },
          { p with store := t.stage.copied ⟨copy, successors, cells⟩ p.store })

def copy (c : Cloner) (id : TubeId) (p : Plant Cell World) : TubeId × Cloner × Plant Cell World :=
  copyTube p.tubes.length c id p

end Cloner

def Plant.copyChain {Cell World : Type} [Inhabited Cell] (p : Plant Cell World) (head : TubeId) :
    TubeId × Plant Cell World :=
  let (head, _, p) := Cloner.empty.copy head p
  (head, p)

/-- Tube by tube along two chains of one shape, whether they have it in common, up to the first such. -/
def Plant.shared {Cell World : Type} (p : Plant Cell World) (a b : TubeId) : List Bool :=
  let same := (p.chain a).zipWith (· == ·) (p.chain b)
  same.take (same.idxOf true + 1)

end SoapNode
