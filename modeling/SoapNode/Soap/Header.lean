import SoapNode.Soap.Version
import SoapNode.Xml.Element

/-!
# Header blocks

A block may demand to be understood and may name the role it is meant for. A list of blocks keeps the
positions of those that a stage has understood; taking a block out moves the later marks with their
blocks.
-/

namespace SoapNode

structure Header where
  element : Element
  deriving DecidableEq, Repr

namespace Header

def ofText (name : QName) (value : String) : Header := ⟨(Element.named name).pushText value⟩

def name (h : Header) : QName := h.element.name

def text (h : Header) : String := h.element.textContent

def withMustUnderstand (h : Header) (v : SoapVersion) : Header :=
  ⟨h.element.setAttribute v.mustUnderstandAttribute (match v with | .v11 => "1" | .v12 => "true")⟩

def withRole (h : Header) (v : SoapVersion) (role : String) : Header :=
  ⟨h.element.setAttribute v.roleAttribute role⟩

def mustUnderstand (h : Header) (v : SoapVersion) : Bool :=
  match h.element.attribute? v.mustUnderstandAttribute with
  | none => false
  | some value => Text.trim value == "1" || Text.trim value == "true"

def role? (h : Header) (v : SoapVersion) : Option String := h.element.attribute? v.roleAttribute

/-- Whether the block is meant for a node that plays these roles. Without a role it is meant for the
ultimate receiver. -/
def isTargetedAt (h : Header) (v : SoapVersion) (roles : List String) : Bool :=
  match h.role? v with
  | none => true
  | some role =>
    if role.isEmpty then true
    else if v.noneRole? = some role then false
    else role == v.nextRole || roles.contains role

end Header

structure HeaderList where
  blocks : List Header
  /-- The positions marked as understood, in the order of marking. -/
  marks : List Nat
  deriving DecidableEq, Repr

namespace HeaderList

def empty : HeaderList := ⟨[], []⟩

def ofBlocks (blocks : List Header) : HeaderList := ⟨blocks, []⟩

def add (l : HeaderList) (h : Header) : HeaderList := { l with blocks := l.blocks ++ [h] }

/-- Puts a block in the place of the first one of its name, or behind all. -/
def addOrReplace (l : HeaderList) (h : Header) : HeaderList := { l with blocks := go l.blocks }
where
  go : List Header → List Header
    | [] => [h]
    | b :: bs => if b.name = h.name then h :: bs else b :: go bs

def find? (l : HeaderList) (name : QName) : Option Header := l.blocks.find? (·.name = name)

def remove (l : HeaderList) (name : QName) : Option (Header × HeaderList) :=
  match l.blocks.findIdx? (·.name = name) with
  | none => none
  | some i =>
    l.blocks[i]?.map (·,
      ⟨l.blocks.eraseIdx i, (l.marks.filter (· ≠ i)).map (fun m => if i < m then m - 1 else m)⟩)

def mark (l : HeaderList) (i : Nat) : HeaderList :=
  if l.marks.contains i then l else { l with marks := l.marks ++ [i] }

def isUnderstood (l : HeaderList) (i : Nat) : Bool := l.marks.contains i

def size (l : HeaderList) : Nat := l.blocks.length

end HeaderList

end SoapNode
