import SoapNode.Xml.Element
import SoapNode.Xml.Entity
import SoapNode.Text.Utf8

/-!
# Writing an element

A declaration is written only where it changes what its prefix means. After the element's own
declarations follow the ones that its name and its attributes still need. An unqualified element is
written without a prefix; an attribute in a namespace gets its own prefix or one made from its
position.
-/

namespace SoapNode

namespace StartTag

/-- The prefix that the element is written with, empty for none. -/
def writtenPrefix (t : StartTag) : String :=
  if t.name.namespaceUri.isEmpty then "" else t.tagPrefix.getD ""

def attributePrefix (position : Nat) (a : Attribute) : String :=
  match a.tagPrefix with
  | some p => if p.isEmpty then s!"ns{position}" else p
  | none => s!"ns{position}"

def attributeKey (position : Nat) (a : Attribute) : String :=
  if a.name.namespaceUri.isEmpty then a.name.localPart
  else if a.name.namespaceUri = xmlNamespace then "xml:" ++ a.name.localPart
  else attributePrefix position a ++ ":" ++ a.name.localPart

def attributeBinding? (position : Nat) (a : Attribute) : Option PrefixBinding :=
  if a.name.namespaceUri.isEmpty || a.name.namespaceUri = xmlNamespace then none
  else some (attributePrefix position a, a.name.namespaceUri)

/-- Adds a binding to a frame unless it holds already. -/
def need (outer : Scopes) (frame : List PrefixBinding) (b : PrefixBinding) : List PrefixBinding :=
  if Scopes.resolve (frame :: outer) b.1 = some b.2 then frame else frame ++ [b]

/-- Adds what the element's own name needs. No binding of the empty prefix means no namespace. -/
def needName (outer : Scopes) (frame : List PrefixBinding) (t : StartTag) : List PrefixBinding :=
  if (Scopes.resolve (frame :: outer) t.writtenPrefix).getD "" = t.name.namespaceUri then frame
  else frame ++ [(t.writtenPrefix, t.name.namespaceUri)]

/-- The declarations that are written on the element. -/
def writtenFrame (outer : Scopes) (t : StartTag) : List PrefixBinding :=
  let own := t.declarations.foldl (need outer) []
  (t.attributes.zipIdx.filterMap (fun (a, i) => attributeBinding? i a)).foldl (need outer) (needName outer own t)

def writtenName (t : StartTag) : List Char :=
  if t.writtenPrefix.isEmpty then t.name.localPart.toList
  else t.writtenPrefix.toList ++ ':' :: t.name.localPart.toList

def writePair (key value : String) : List Char := ' ' :: key.toList ++ '=' :: '"' :: Entity.escape value ++ ['"']

def writeBinding (b : PrefixBinding) : List Char :=
  writePair (if b.1.isEmpty then "xmlns" else "xmlns:" ++ b.1) b.2

def write (frame : List PrefixBinding) (t : StartTag) : List Char :=
  t.writtenName ++ frame.flatMap writeBinding ++
    t.attributes.zipIdx.flatMap (fun (a, i) => writePair (attributeKey i a) a.value)

end StartTag

namespace Node

mutual

def write (outer : Scopes) : Node → List Char
  | .text s => Entity.escape s
  | .element t children =>
    let frame := t.writtenFrame outer
    '<' :: t.write frame ++
      (if children.isEmpty then ['/', '>']
       else '>' :: writeAll (frame :: outer) children ++ '<' :: '/' :: t.writtenName ++ ['>'])

def writeAll (outer : Scopes) : List Node → List Char
  | [] => []
  | n :: ns => n.write outer ++ writeAll outer ns

end

end Node

namespace Element

def toChars (e : Element) : List Char := e.toNode.write []

def toXml (e : Element) : String := String.ofList e.toChars

def toBytes (e : Element) : Bytes := Utf8.encodeChars e.toChars

end Element

end SoapNode
