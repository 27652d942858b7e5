/-!
# Qualified names

A name is a namespace URI and a local part. `QName.display` writes `{uri}local`, `QName.ofDisplay`
reads it back; a text that has no closed brace group in front is an unqualified name as it stands.
-/

namespace SoapNode

structure QName where
  namespaceUri : String
  localPart : String
  deriving DecidableEq, Repr, Inhabited, Hashable

namespace QName

def unqualified (localPart : String) : QName := ⟨"", localPart⟩

/-- The key of operations that have no body part. -/
def empty : QName := ⟨"", ""⟩

def isEmpty (q : QName) : Bool := q.namespaceUri.isEmpty && q.localPart.isEmpty

def display (q : QName) : String := "\x7b" ++ q.namespaceUri ++ "\x7d" ++ q.localPart

def ofDisplay (s : String) : QName :=
  match s.toList with
  | '\x7b' :: rest =>
    match rest.dropWhile (· != '\x7d') with
    | [] => unqualified s
    | _ :: localPart => ⟨String.ofList (rest.takeWhile (· != '\x7d')), String.ofList localPart⟩
  | _ => unqualified s

instance : LT QName :=
  ⟨fun a b => a.namespaceUri < b.namespaceUri ∨ a.namespaceUri = b.namespaceUri ∧ a.localPart < b.localPart⟩

instance : DecidableRel (α := QName) (· < ·) := fun a b =>
  inferInstanceAs (Decidable (a.namespaceUri < b.namespaceUri ∨ a.namespaceUri = b.namespaceUri ∧
    a.localPart < b.localPart))

end QName

/-- Cuts a raw name at its first colon into the prefix, if there is one, and the local part. -/
def splitQualified (raw : String) : Option String × String :=
  let cs := raw.toList
  match cs.dropWhile (· != ':') with
  | [] => (none, raw)
  | _ :: localPart => (some (String.ofList (cs.takeWhile (· != ':'))), String.ofList localPart)

def xmlNamespace : String := "http://www.w3.org/XML/1998/namespace"

def xmlnsNamespace : String := "http://www.w3.org/2000/xmlns/"

end SoapNode
