import SoapNode.Soap.Fault

/-!
# Faults as elements

Writing a fault as an element and reading one. A code is written with a declaration of its own
namespace on the element that holds it, and read against the declarations on the way down from the
fault. Detail entries are detached with the bindings in scope at the detail element.
-/

namespace SoapNode

def envelopePrefix : String := "S"

namespace FaultElement

/-- An element whose text is a qualified name. Envelope namespaces get their usual prefix, other
ones the prefix `p`. -/
def ofCode (name value : QName) (p : String) : Element :=
  let e := Element.named name
  if (SoapVersion.ofUri? value.namespaceUri).isSome then
    (e.declare envelopePrefix value.namespaceUri).pushText (envelopePrefix ++ ":" ++ value.localPart)
  else if value.namespaceUri.isEmpty then e.pushText value.localPart
  else (e.declare p value.namespaceUri).pushText (p ++ ":" ++ value.localPart)

def readCode (path : List Element) (e : Element) : Except FaultError QName :=
  match resolveQName e.textContent path with
  | some q => .ok q
  | none => .error (.unboundPrefix e.textContent)

def readDetail (fault detail : Element) : List Element :=
  detail.elements.map (·.inherit (detail.declarations ++ fault.declarations))

def root (v : SoapVersion) : Element :=
  ((Element.named v.faultName).withPrefix envelopePrefix).declare envelopePrefix v.envelopeUri

def require (name : String) : Option Element → Except FaultError Element
  | some e => .ok e
  | none => .error (.missing name)

/-- Adds a wrapper around the detail entries; an empty list is written like none. -/
def pushDetail (e wrapper : Element) (entries : Option (List Element)) : Element :=
  if (entries.getD []).isEmpty then e else e.push ((entries.getD []).foldl Element.push wrapper)

def pushOptional (e wrapper : Element) : Option String → Element
  | some text => e.push (wrapper.pushText text)
  | none => e

end FaultElement

open FaultElement

theorem Element.sizeOf_of_child? {e c : Element} {name : QName} (h : e.child? name = some c) :
    sizeOf c < sizeOf e := by
  have hmem : c ∈ e.elements := List.mem_of_find?_eq_some h
  obtain ⟨n, hn, hc⟩ := List.mem_filterMap.mp hmem
  have hlt := List.sizeOf_lt_of_mem hn
  cases n with
  | text s => simp [Node.element?] at hc
  | element tag children =>
    simp only [Node.element?, Option.some.injEq] at hc
    subst hc
    cases e
    simp only [Element.mk.sizeOf_spec, Node.element.sizeOf_spec] at hlt ⊢
    omega

namespace Fault11

def toElement (f : Fault11) : Element :=
  let e := (root .v11).push (ofCode (.unqualified "faultcode") f.code "fc")
  let e := e.push ((Element.named (.unqualified "faultstring")).pushText f.string)
  let e := pushOptional e (.named (.unqualified "faultactor")) f.actor
  pushDetail e (.named (.unqualified "detail")) f.detail

def ofElement (e : Element) : Except FaultError Fault11 := do
  if e.name ≠ SoapVersion.v11.faultName then throw (.notAFault e.name)
  let code ← require "faultcode" (e.childLocal? "faultcode")
  let value ← readCode [e, code] code
  let string ← require "faultstring" (e.childLocal? "faultstring")
  return ⟨value, string.textContent, (e.childLocal? "faultactor").map (·.textContent),
    (e.childLocal? "detail").map (readDetail e)⟩

end Fault11

namespace Fault12

def name (localPart : String) : QName := SoapVersion.v12.name localPart

def named (localPart : String) : Element := (Element.named (name localPart)).withPrefix envelopePrefix

def valueElement (value : QName) (p : String) : Element := (ofCode (name "Value") value p).withPrefix envelopePrefix

/-- The nested elements of the subcodes, the first of them at this depth. -/
def subcodeElement (depth : Nat) : List QName → Option Element
  | [] => none
  | q :: qs =>
    let e := (named "Subcode").push (valueElement q s!"sc{depth}")
    some (match subcodeElement (depth + 1) qs with
      | some inner => e.push inner
      | none => e)

def reasonElement (texts : List ReasonText) : Element :=
  texts.foldl (fun e t => e.push (((named "Text").setAttribute ⟨xmlNamespace, "lang"⟩ t.lang).pushText t.text))
    (named "Reason")

def toElement (f : Fault12) : Element :=
  let code := (named "Code").push (valueElement f.code "fc")
  let code := match subcodeElement 0 f.subcodes with
    | some inner => code.push inner
    | none => code
  let e := ((root .v12).push code).push (reasonElement f.reason)
  let e := pushOptional e (named "Node") f.node
  let e := pushOptional e (named "Role") f.role
  pushDetail e (named "Detail") f.detail

def readSubcodes (path : List Element) (parent : Element) : Except FaultError (List QName) :=
  match _h : parent.child? (name "Subcode") with
  | none => .ok []
  | some sub => do
    let value ← require "Value" (sub.child? (name "Value"))
    let q ← readCode (path ++ [sub, value]) value
    let rest ← readSubcodes (path ++ [sub]) sub
    return q :: rest
termination_by sizeOf parent
decreasing_by exact Element.sizeOf_of_child? (by assumption)

def readReason (e : Element) : List ReasonText :=
  (e.elements.filter (·.name = name "Text")).map
    (fun t => ⟨(t.attribute? ⟨xmlNamespace, "lang"⟩).getD "", t.textContent⟩)

def ofElement (e : Element) : Except FaultError Fault12 := do
  if e.name ≠ SoapVersion.v12.faultName then throw (.notAFault e.name)
  let code ← require "Code" (e.child? (name "Code"))
  let value ← require "Value" (code.child? (name "Value"))
  let q ← readCode [e, code, value] value
  let subcodes ← readSubcodes [e, code] code
  let reason ← require "Reason" (e.child? (name "Reason"))
  return ⟨q, subcodes, readReason reason, (e.child? (name "Node")).map (·.textContent),
    (e.child? (name "Role")).map (·.textContent), (e.child? (name "Detail")).map (readDetail e)⟩

end Fault12

namespace SoapFault

def toElement : SoapFault → Element
  | v11 f => f.toElement
  | v12 f => f.toElement

/-- Reads a fault of either version, told by the namespace of the element. -/
def ofElement (e : Element) : Except FaultError SoapFault :=
  match SoapVersion.ofUri? e.name.namespaceUri with
  | some .v11 => (Fault11.ofElement e).map v11
  | some .v12 => (Fault12.ofElement e).map v12
  | none => .error (.notAFault e.name)

end SoapFault

end SoapNode
