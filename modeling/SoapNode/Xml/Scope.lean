import SoapNode.Xml.Name

/-!
# Prefixes in scope

One frame of bindings for each open element, innermost first. Inside a frame the last binding of a
prefix counts. The prefix `xml` needs no binding and cannot be given another one.
-/

namespace SoapNode

/-- A prefix, empty for the default namespace, and the URI it is bound to. -/
abbrev PrefixBinding := String × String

abbrev Scopes := List (List PrefixBinding)

namespace Scopes

def resolve (scopes : Scopes) (p : String) : Option String :=
  if p = "xml" then some xmlNamespace else scopes.findSome? (fun frame => frame.reverse.lookup p)

@[simp] theorem resolve_xml (scopes : Scopes) : scopes.resolve "xml" = some xmlNamespace := by
  simp [resolve]

theorem resolve_cons_nil (scopes : Scopes) (p : String) : Scopes.resolve ([] :: scopes) p = scopes.resolve p := by
  simp [resolve, List.findSome?_cons]

end Scopes

end SoapNode
