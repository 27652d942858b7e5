import SoapNode.Text.Blank
import SoapNode.Xml.Scope

/-!
# Elements

A tree of elements and texts. The tag of an element holds its name, its attributes and how both are
written: the preferred prefixes and the namespace declarations. Two elements are the same when they
agree once the spelling of their tags is erased; `Node.erase` is that normal form.
-/

namespace SoapNode

structure Attribute where
  name : QName
  tagPrefix : Option String
  value : String
  deriving DecidableEq, Repr

structure StartTag where
  name : QName
  tagPrefix : Option String
  declarations : List PrefixBinding
  attributes : List Attribute
  deriving DecidableEq, Repr

inductive Node where
  | text (value : String)
  | element (tag : StartTag) (children : List Node)
  deriving Repr

structure Element where
  tag : StartTag
  children : List Node
  deriving Repr

namespace Attribute

def erase (a : Attribute) : Attribute := { a with tagPrefix := none }

end Attribute

namespace StartTag

def erase (t : StartTag) : StartTag := ⟨t.name, none, [], t.attributes.map Attribute.erase⟩

end StartTag

namespace Node

mutual

def decEq : (a b : Node) → Decidable (a = b)
  | .text s, .text t => decidable_of_iff (s = t) (by simp)
  | .text _, .element _ _ => isFalse (by simp)
  | .element _ _, .text _ => isFalse (by simp)
  | .element s as, .element t bs =>
    match (inferInstance : Decidable (s = t)), decEqList as bs with
    | isTrue hs, isTrue hc => isTrue (by rw [hs, hc])
    | isFalse hs, _ => isFalse (by intro h; cases h; exact hs rfl)
    | _, isFalse hc => isFalse (by intro h; cases h; exact hc rfl)

def decEqList : (as bs : List Node) → Decidable (as = bs)
  | [], [] => isTrue rfl
  | [], _ :: _ => isFalse (by simp)
  | _ :: _, [] => isFalse (by simp)
  | a :: as, b :: bs =>
    match decEq a b, decEqList as bs with
    | isTrue ha, isTrue hs => isTrue (by rw [ha, hs])
    | isFalse ha, _ => isFalse (by intro h; cases h; exact ha rfl)
    | _, isFalse hs => isFalse (by intro h; cases h; exact hs rfl)

end

instance : DecidableEq Node := decEq

mutual

/-- The node without prefixes and declarations. -/
def erase : Node → Node
  | .text s => .text s
  | .element tag children => .element tag.erase (eraseAll children)

def eraseAll : List Node → List Node
  | [] => []
  | n :: ns => n.erase :: eraseAll ns

end

def element? : Node → Option Element
  | .element tag children => some ⟨tag, children⟩
  | .text _ => none

def text? : Node → Option String
  | .text s => some s
  | .element _ _ => none

end Node

namespace Element

instance : DecidableEq Element := fun a b =>
  decidable_of_iff (a.tag = b.tag ∧ a.children = b.children) (by cases a; cases b; simp)

def toNode (e : Element) : Node := .element e.tag e.children

@[simp] theorem element?_toNode (e : Element) : e.toNode.element? = some e := rfl

def erase (e : Element) : Element := ⟨e.tag.erase, Node.eraseAll e.children⟩

/-- Equal in names, attributes and content, however the tags are spelt. -/
def Same (a b : Element) : Prop := a.erase = b.erase

instance (a b : Element) : Decidable (Same a b) := inferInstanceAs (Decidable (_ = _))

def named (name : QName) : Element := ⟨⟨name, none, [], []⟩, []⟩

def name (e : Element) : QName := e.tag.name

def declarations (e : Element) : List PrefixBinding := e.tag.declarations

def withPrefix (e : Element) (p : String) : Element := { e with tag := { e.tag with tagPrefix := some p } }

/-- Gives a prefix its URI, in place of an earlier one in the list. -/
def setBinding (p uri : String) : List PrefixBinding → List PrefixBinding
  | [] => [(p, uri)]
  | b :: bs => if b.1 == p then (p, uri) :: bs else b :: setBinding p uri bs

def declare (e : Element) (p uri : String) : Element :=
  { e with tag := { e.tag with declarations := setBinding p uri e.tag.declarations } }

/-- Appends those bindings whose prefix the list does not bind yet. -/
def addMissing (bound inherited : List PrefixBinding) : List PrefixBinding :=
  inherited.foldl (fun acc b => if acc.any (·.1 == b.1) then acc else acc ++ [b]) bound

/-- Takes over bindings of ancestors, so that the element can stand on its own. -/
def inherit (e : Element) (bindings : List PrefixBinding) : Element :=
  { e with tag := { e.tag with declarations := addMissing e.tag.declarations bindings } }

/-- Gives a name its value, keeping the place and the prefix of an earlier attribute of that name. -/
def setAttributeIn (name : QName) (value : String) : List Attribute → List Attribute
  | [] => [⟨name, none, value⟩]
  | a :: as => if a.name == name then { a with value } :: as else a :: setAttributeIn name value as

def setAttribute (e : Element) (name : QName) (value : String) : Element :=
  { e with tag := { e.tag with attributes := setAttributeIn name value e.tag.attributes } }

def pushAttribute (e : Element) (a : Attribute) : Element :=
  { e with tag := { e.tag with attributes := e.tag.attributes ++ [a] } }

def attribute? (e : Element) (name : QName) : Option String :=
  (e.tag.attributes.find? (·.name == name)).map (·.value)

def push (e child : Element) : Element := { e with children := e.children ++ [child.toNode] }

def pushText (e : Element) (s : String) : Element := { e with children := e.children ++ [.text s] }

def elements (e : Element) : List Element := e.children.filterMap Node.element?

def child? (e : Element) (name : QName) : Option Element := e.elements.find? (·.name == name)

def childLocal? (e : Element) (localPart : String) : Option Element :=
  e.elements.find? (·.name.localPart == localPart)

/-- The texts directly inside the element, joined and trimmed. -/
def textContent (e : Element) : String := Text.trim (String.join (e.children.filterMap Node.text?))

end Element

/-- Reads the text of a qualified name against the declarations on a path of elements, outermost
first. An unbound default namespace means none; any other prefix has to be bound. -/
def resolveQName (text : String) (path : List Element) : Option QName :=
  let (p?, localPart) := splitQualified (Text.trim text)
  let p := p?.getD ""
  match Scopes.resolve (path.reverse.map (·.declarations)) p with
  | some uri => some ⟨uri, localPart⟩
  | none => if p.isEmpty then some (.unqualified localPart) else none

end SoapNode
