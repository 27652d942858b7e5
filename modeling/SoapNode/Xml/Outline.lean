import SoapNode.Xml.Element

/-!
# Outlines

A tree as a flat list in document order. An entry tells how deep it stands and is a tag or a text.
Reading is lenient: a tag ends the elements that stand as deep or deeper, except the root, and a text
belongs to the innermost element that has not ended, whatever its own depth.
-/

namespace SoapNode

abbrev OutlineEntry := Nat × (StartTag ⊕ String)

namespace Node

mutual

def outline (depth : Nat) : Node → List OutlineEntry
  | .text s => [(depth, .inr s)]
  | .element tag children => (depth, .inl tag) :: outlineAll (depth + 1) children

def outlineAll (depth : Nat) : List Node → List OutlineEntry
  | [] => []
  | n :: ns => n.outline depth ++ outlineAll depth ns

end

end Node

def Element.outline (e : Element) : List OutlineEntry := e.toNode.outline 0

namespace Outline

/-- The elements that have not ended, the innermost first, each with its depth. -/
abbrev Open := List (Nat × Element)

/-- Ends the elements that stand as deep as `depth` or deeper, except the root. -/
def close (depth : Nat) : Open → Open
  | (d, e) :: (p, parent) :: rest =>
    if depth ≤ d then close depth ((p, parent.push e) :: rest) else (d, e) :: (p, parent) :: rest
  | rest => rest
termination_by l => l.length

def add (l : Open) : OutlineEntry → Open
  | (d, .inl tag) => (d, ⟨tag, []⟩) :: close d l
  | (_, .inr s) =>
    match l with
    | [] => []
    | (d, e) :: rest => (d, e.pushText s) :: rest

end Outline

def Element.ofOutline? (entries : List OutlineEntry) : Option Element :=
  (Outline.close 0 (entries.foldl Outline.add [])).getLast?.map (·.2)

end SoapNode
