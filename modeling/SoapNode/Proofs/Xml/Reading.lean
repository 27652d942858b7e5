import SoapNode.Proofs.Xml.CharacterData
import SoapNode.Xml.Reader

/-!
# What a token makes of a reader

A token opens an element, closes the innermost one, adds to it, or is passed over. A document is read token
by token, so what every token keeps the whole reading keeps.
-/

namespace SoapNode

namespace Reader

/-- What a token that is accepted makes of a reader. -/
inductive Fed (r : Reader) : Token → Progress → Prop where
  | opens {content : Bytes} {tag : StartTag} (read : StartTag.read r.scopes content = .ok tag) :
    Fed r (.startTag content)
      (.reading ⟨tag.declarations :: r.scopes, ⟨StartTag.rawName content, tag, []⟩ :: r.opened⟩)
  | childless {content : Bytes} {tag : StartTag} (read : StartTag.read r.scopes content = .ok tag) :
    Fed r (.emptyTag content) (r.attach ⟨tag, []⟩)
  | closes {o : OpenElement} {os : List OpenElement} (innermost : r.opened = o :: os) :
    Fed r (.endTag o.rawName) (attach ⟨r.scopes.tail, os⟩ ⟨o.tag, o.children.reverse⟩)
  | adds {t : Token} (within : (∃ raw, t = .text raw) ∨ ∃ content, t = .cdata content) (text : String) :
    Fed r t (.reading { r with opened := addNode (.text text) r.opened })
  | passes {t : Token} (within : (∃ raw, t = .text raw) ∨ t = .comment ∨ t = .instruction) : Fed r t (.reading r)

variable {r : Reader} {t : Token} {p : Progress} {bytes rest : Bytes} {e : Element}

theorem fed_of_feed (h : r.feed t = .ok p) : Fed r t p := by
  cases t with
  | startTag content =>
    obtain ⟨tag, hread, h⟩ := ok_of_bind h
    cases h
    exact .opens hread
  | emptyTag content =>
    obtain ⟨tag, hread, h⟩ := ok_of_bind h
    cases h
    exact .childless hread
  | endTag name =>
    rw [feed, close] at h
    split at h
    · cases h
    · rename_i o os hopened
      split at h
      · rename_i hname
        cases h
        exact hname ▸ .closes hopened
      · cases h
  | text raw =>
    obtain ⟨text, -, h⟩ := ok_of_bind h
    cases h
    split
    · exact .passes (.inl ⟨raw, rfl⟩)
    · exact .adds (.inl ⟨raw, rfl⟩) text
  | cdata content =>
    cases h
    exact .adds (.inr ⟨content, rfl⟩) _
  | doctype => cases h
  | comment =>
    cases h
    exact .passes (.inr (.inl rfl))
  | «instruction» =>
    cases h
    exact .passes (.inr (.inr rfl))

def Progress.resume (rest : Bytes) : Progress → Except XmlError Element
  | .reading r => r.run rest
  | .finished e => .ok e

theorem run_eq (r : Reader) (hnext : Token.next bytes = .ok (some (t, rest))) :
    r.run bytes = (r.feed t).bind (Progress.resume rest) := by
  rw [run]
  split <;> rename_i heq <;> rw [hnext] at heq <;> cases heq
  cases r.feed t with
  | error cause => rfl
  | ok p => cases p <;> rfl

theorem run_of_next (hnext : Token.next bytes = .ok (some (t, rest))) (hfeed : r.feed t = .ok p) :
    r.run bytes = p.resume rest := by
  rw [run_eq r hnext, hfeed]
  rfl

/-- What every token keeps, as long as the root is not closed, is so of what is read. -/
theorem run_keeps {I : Progress → Prop} (hkeeps : ∀ {r t p}, I (.reading r) → Fed r t p → I p)
    (h : I (.reading r)) (hrun : r.run bytes = .ok e) : I (.finished e) := by
  fun_induction Reader.run r bytes with
  | case1 => cases hrun
  | case2 => cases hrun
  | case3 => cases hrun
  | case4 _ _ _ _ _ _ hfeed =>
    cases hrun
    exact hkeeps h (fed_of_feed hfeed)
  | case5 _ _ _ _ _ _ hfeed ih => exact ih (hkeeps h (fed_of_feed hfeed)) hrun

end Reader

end SoapNode
