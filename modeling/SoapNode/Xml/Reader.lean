import SoapNode.Xml.Tag

/-!
# Reading an element

The reader keeps the open elements, innermost first, and one frame of bindings for each. Parsing ends
where the root closes; what follows is not looked at. White space alone is no text, unless it stands
in a CDATA section. A document type declaration is refused wherever it stands.
-/

namespace SoapNode

structure OpenElement where
  rawName : Bytes
  tag : StartTag
  /-- The children read so far, newest first. -/
  children : List Node
  deriving Repr

structure Reader where
  scopes : Scopes
  opened : List OpenElement
  deriving Repr

namespace Reader

def initial : Reader := ⟨[], []⟩

inductive Progress where
  | reading (r : Reader)
  | finished (e : Element)
  deriving Repr

def addNode (n : Node) : List OpenElement → List OpenElement
  | [] => []
  | o :: os => { o with children := n :: o.children } :: os

def attach (r : Reader) (e : Element) : Progress :=
  match r.opened with
  | [] => .finished e
  | os => .reading { r with opened := addNode e.toNode os }

def nameText (raw : Bytes) : String := (Utf8.decode raw).toOption.getD ""

def close (r : Reader) (name : Bytes) : Except XmlError Progress :=
  match r.opened with
  | [] => .error (.endUnmatched (nameText name))
  | o :: os =>
    if o.rawName = name then .ok (attach ⟨r.scopes.tail, os⟩ ⟨o.tag, o.children.reverse⟩)
    else .error (.endMismatch (nameText o.rawName) (nameText name))

def feed (r : Reader) : Token → Except XmlError Progress
  | .startTag content => do
    let tag ← StartTag.read r.scopes content
    .ok (.reading ⟨tag.declarations :: r.scopes, ⟨StartTag.rawName content, tag, []⟩ :: r.opened⟩)
  | .emptyTag content => do
    let tag ← StartTag.read r.scopes content
    .ok (r.attach ⟨tag, []⟩)
  | .endTag name => r.close name
  | .text raw => do
    let text ← StartTag.readText raw
    .ok (.reading (if Text.blank text then r else { r with opened := addNode (.text text) r.opened }))
  | .cdata content => .ok (.reading { r with opened := addNode (.text (Utf8.decodeLossy content)) r.opened })
  | .doctype => .error .doctypeNotAllowed
  | .comment | .instruction => .ok (.reading r)

def run (r : Reader) (bytes : Bytes) : Except XmlError Element :=
  match _h : Token.next bytes with
  | .error e => .error e
  | .ok none => .error .noRoot
  | .ok (some (t, rest)) =>
    match r.feed t with
    | .error e => .error e
    | .ok (.finished e) => .ok e
    | .ok (.reading r) => run r rest
termination_by bytes.length
decreasing_by all_goals exact Token.next_shorter (by assumption)

end Reader

def Element.parse (bytes : Bytes) : Except XmlError Element := Reader.initial.run (dropByteOrderMark bytes)

end SoapNode
