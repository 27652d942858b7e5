import SoapNode.Proofs.Xml.Frames

/-!
# Reading qualified names

The text of a qualified name is read in the scopes at the end of a way down. A prefix has to be bound there;
without one the default namespace counts, and none is as good as an empty one.
-/

namespace SoapNode

/-- The scopes at the end of a way down. -/
def scopesOf (path : List Element) : Scopes := path.reverse.map (·.declarations)

theorem scopesOf_append (above path : List Element) : scopesOf (above ++ path) = scopesOf path ++ scopesOf above := by
  simp [scopesOf]

theorem scopesOf_cons (e : Element) (path : List Element) :
    scopesOf (e :: path) = scopesOf path ++ [e.declarations] := by
  simp [scopesOf]

theorem scopesOf_concat (path : List Element) (e : Element) :
    scopesOf (path ++ [e]) = e.declarations :: scopesOf path := by
  simp [scopesOf]

variable {text localPart : String} {p? : Option String} {path path' : List Element} {q : QName}

theorem resolveQName_default (h : splitQualified (Text.trim text) = (p?, localPart)) (hp : p?.getD "" = "")
    (path : List Element) :
    resolveQName text path = some ⟨((scopesOf path).resolve "").getD "", localPart⟩ := by
  rw [resolveQName, h, scopesOf]
  dsimp only
  rw [hp]
  cases Scopes.resolve (path.reverse.map (·.declarations)) "" <;> rfl

theorem resolveQName_prefixed (h : splitQualified (Text.trim text) = (p?, localPart)) (hp : p?.getD "" ≠ "")
    (path : List Element) :
    resolveQName text path = ((scopesOf path).resolve (p?.getD "")).map (⟨·, localPart⟩) := by
  rw [resolveQName, h, scopesOf]
  dsimp only
  rw [if_neg (by simpa using hp)]
  cases Scopes.resolve (path.reverse.map (·.declarations)) (p?.getD "") <;> rfl

/-- A text means the same where the scopes say at least as much. -/
theorem resolveQName_of_covers (h : Scopes.Covers (scopesOf path') (scopesOf path))
    (hq : resolveQName text path = some q) : resolveQName text path' = some q := by
  obtain ⟨p?, localPart, hsplit⟩ : ∃ p? localPart, splitQualified (Text.trim text) = (p?, localPart) :=
    ⟨_, _, rfl⟩
  by_cases hp : p?.getD "" = ""
  · rw [resolveQName_default hsplit hp] at hq ⊢
    rw [h.default, hq]
  · rw [resolveQName_prefixed hsplit hp] at hq ⊢
    obtain ⟨uri, hresolve, hq⟩ := Option.map_eq_some_iff.mp hq
    rw [h.resolve _ _ hresolve, Option.map_some, hq]

end SoapNode
