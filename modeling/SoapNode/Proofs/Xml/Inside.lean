import SoapNode.Proofs.Xml.Prolog
import SoapNode.Proofs.Xml.Scoped

/-!
# A document inside an element

What is read as a document of its own is read as the same element where it stands inside another one, if the
scopes there leave prefixes and names without a prefix as they are. The texts around its root become
children of the outer element.
-/

namespace SoapNode

namespace Scopes

/-- Frames that say nothing else of what the inner ones leave open. -/
theorem covers_append {outer : Scopes} (h : Covers outer []) (inner : Scopes) : Covers (inner ++ outer) inner := by
  induction inner with
  | nil => exact h
  | cons frame inner ih => exact ih.cons frame

end Scopes

namespace StartTag

variable {inner outer : Scopes}

theorem mapM_ok_of_imp {α β ε : Type} {f g : α → Except ε β} {xs : List α} {ys : List β}
    (himp : ∀ x y, f x = .ok y → g x = .ok y) (h : xs.mapM f = .ok ys) : xs.mapM g = .ok ys := by
  induction xs generalizing ys with
  | nil => exact h
  | cons x xs ih =>
    rw [List.mapM_cons] at h ⊢
    obtain ⟨y, hy, h⟩ := ok_of_bind h
    obtain ⟨ys', hys, h⟩ := ok_of_bind h
    cases h
    rw [himp x y hy, ih hys]
    rfl

theorem namespaceOf_covers (hcovers : Scopes.Covers inner outer) {p uri : String} (h : namespaceOf outer p = .ok uri) :
    namespaceOf inner p = .ok uri := by
  rw [namespaceOf, hcovers.resolve p uri (resolve_of_namespaceOf h)]

theorem readAttribute_covers (hcovers : Scopes.Covers inner outer) (pair : String × String) (a : Attribute)
    (h : readAttribute outer pair = .ok a) : readAttribute inner pair = .ok a := by
  unfold readAttribute at h ⊢
  split at h
  · exact h
  · obtain ⟨uri, huri, h⟩ := ok_of_bind h
    cases h
    rw [namespaceOf_covers hcovers huri]
    rfl

/-- A tag is read the same in scopes that cover the ones where it is read. -/
theorem read_covers (hcovers : Scopes.Covers inner outer) {content : Bytes} {t : StartTag}
    (h : read outer content = .ok t) : read inner content = .ok t := by
  unfold read at h ⊢
  obtain ⟨pairs, hpairs, h⟩ := ok_of_bind h
  obtain ⟨name, hname, h⟩ := ok_of_bind h
  have hframe := hcovers.cons (pairs.filterMap (fun pair => (declaredPrefix? pair.1).map (·, pair.2)))
  simp only [hpairs, hname, bind, Except.bind]
  dsimp only at h
  split at h
  · rename_i p hp
    obtain ⟨uri, huri, h⟩ := ok_of_bind h
    obtain ⟨attributes, hattributes, h⟩ := ok_of_bind h
    simp only [hp, namespaceOf_covers hframe huri, mapM_ok_of_imp (readAttribute_covers hframe) hattributes]
    rwa [hp] at h
  · rename_i hp
    obtain ⟨uri, huri, h⟩ := ok_of_bind h
    obtain ⟨attributes, hattributes, h⟩ := ok_of_bind h
    cases huri
    simp only [hp, hframe.default, mapM_ok_of_imp (readAttribute_covers hframe) hattributes]
    rwa [hp] at h

end StartTag

namespace Token

variable {a rest : Bytes} {t : Token}

/-- A token is the same where markup follows, also if it is a text that ran to the end. -/
theorem next_open (h : next a = .ok (some (t, rest))) (b : Bytes) :
    next (a ++ lessThan :: b) = .ok (some (t, rest ++ lessThan :: b)) := by
  cases a with
  | nil => cases h
  | cons c a =>
    by_cases hc : c = lessThan
    · subst hc
      exact next_markup.mpr (bounded_markup.append (lessThan :: b) (next_markup.mp h))
    · have hplain : ¬(c == lessThan) = true := by simpa using hc
      rw [next, if_neg hplain] at h
      cases h
      by_cases hnil : a.dropWhile (· != lessThan) = []
      · have hall := List.dropWhile_eq_nil_iff.mp hnil
        rw [hnil, List.takeWhile_eq_self_iff.mpr hall]
        refine next_text (List.cons_ne_nil c a) (List.forall_mem_cons.mpr ⟨hc, fun x hx => ?_⟩) b
        simpa using hall x hx
      · obtain ⟨htext, hrest⟩ := span_append hnil (lessThan :: b)
        rw [List.cons_append, next, if_neg hplain, htext, hrest]

end Token

/-- What may follow the root where the document stands inside an element: any text that can be read, such as white
space, sections, comments and instructions. -/
def Token.Trails : Token → Prop
  | .text raw => ∃ text, StartTag.readText raw = .ok text
  | .cdata _ | .comment | .instruction => True
  | _ => False

/-- The element with further texts behind its children, the newest first. -/
def OpenElement.addTexts (o : OpenElement) (texts : List String) : OpenElement :=
  { o with children := texts.map Node.text ++ o.children }

theorem OpenElement.addTexts_addTexts (o : OpenElement) (texts texts' : List String) :
    (o.addTexts texts).addTexts texts' = o.addTexts (texts' ++ texts) := by
  simp [addTexts]

theorem Token.trails_of_space {raw : Bytes} (h : ∀ b ∈ raw, isSpace b = true) : (Token.text raw).Trails := by
  have hraw : Utf8.encodeChars (Entity.escapeChars (raw.map (fun b => Char.ofNat b.toNat))) = raw := by
    induction raw with
    | nil => rfl
    | cons b raw ih =>
      obtain ⟨hb, hraw⟩ := List.forall_mem_cons.mp h
      have hspace : b = 32 ∨ b = 9 ∨ b = 13 ∨ b = 10 := by simpa [isSpace, or_assoc] using hb
      have hone : Utf8.encodeChars (Entity.escapeChar (Char.ofNat b.toNat)) = [b] := by
        rcases hspace with rfl | rfl | rfl | rfl <;> rfl
      rw [List.map_cons, Entity.escapeChars, List.flatMap_cons, Utf8.encodeChars_append, hone,
        ← Entity.escapeChars, ih hraw]
      rfl
  have hread := StartTag.readText_escape (String.ofList (raw.map (fun b => Char.ofNat b.toNat)))
  rw [Entity.escape, String.toList_ofList, hraw] at hread
  exact ⟨_, hread⟩

namespace Reader

variable {r r' : Reader} {t : Token} {p : Progress} {bytes after : Bytes} {e : Element}

/-- One frame of bindings for each open element. -/
def Balanced (r : Reader) : Prop := r.scopes.length = r.opened.length

/-- The reader where other elements are open around the document. -/
def inside (r : Reader) (outer : Scopes) (os : List OpenElement) : Reader := ⟨r.scopes ++ outer, r.opened ++ os⟩

/-- A document that is complete is a child of the element around it. -/
def Progress.inside (outer : Scopes) (o : OpenElement) (os : List OpenElement) : Progress → Reader
  | .reading r => r.inside outer (o :: os)
  | .finished e => ⟨outer, { o with children := e.toNode :: o.children } :: os⟩

theorem Balanced.attach (hr : r.Balanced) (h : r.attach e = .reading r') : r'.Balanced := by
  obtain ⟨scopes, opened⟩ := r
  cases opened with
  | nil => cases h
  | cons o os =>
    cases h
    exact hr

theorem Fed.balanced (hr : r.Balanced) (h : Fed r t p) : p = .reading r' → r'.Balanced := by
  intro hp
  cases h with
  | opens read =>
    cases hp
    exact congrArg Nat.succ hr
  | childless read => exact hr.attach hp
  | closes innermost =>
    refine Balanced.attach ?_ hp
    rw [Balanced, List.length_tail, hr, innermost]
    rfl
  | adds within text =>
    cases hp
    exact hr.trans (length_addNode _ _).symm
  | passes within =>
    cases hp
    exact hr

variable (outer : Scopes) (o : OpenElement) (os : List OpenElement)

theorem attach_inside (hr : r.Balanced) (e : Element) :
    (r.inside outer (o :: os)).attach e = .reading ((r.attach e).inside outer o os) := by
  obtain ⟨scopes, opened⟩ := r
  cases opened with
  | nil =>
    obtain rfl : scopes = [] := List.eq_nil_of_length_eq_zero hr
    rfl
  | cons => rfl

theorem addText_inside (r : Reader) (text : String) :
    ∃ texts,
      ({ r.inside outer (o :: os) with opened := addNode (.text text) (r.inside outer (o :: os)).opened } : Reader) =
        ({ r with opened := addNode (.text text) r.opened } : Reader).inside outer (o.addTexts texts :: os) := by
  obtain ⟨scopes, opened⟩ := r
  cases opened with
  | nil => exact ⟨[text], rfl⟩
  | cons => exact ⟨[], rfl⟩

/-- A token does inside an element what it does in a document of its own, but that texts around the root are kept. -/
theorem feed_inside {outer : Scopes} (o : OpenElement) (os : List OpenElement) (hr : r.Balanced)
    (hcovers : Scopes.Covers outer []) (h : r.feed t = .ok p) :
    ∃ texts, (r.inside outer (o :: os)).feed t = .ok (.reading (p.inside outer (o.addTexts texts) os)) := by
  have hscopes : Scopes.Covers (r.inside outer (o :: os)).scopes r.scopes := Scopes.covers_append hcovers r.scopes
  cases t with
  | startTag content =>
    obtain ⟨tag, hread, h⟩ := ok_of_bind h
    cases h
    refine ⟨[], ?_⟩
    simp only [feed, StartTag.read_covers hscopes hread, bind, Except.bind]
    rfl
  | emptyTag content =>
    obtain ⟨tag, hread, h⟩ := ok_of_bind h
    cases h
    refine ⟨[], ?_⟩
    simp only [feed, StartTag.read_covers hscopes hread, bind, Except.bind]
    exact congrArg Except.ok (attach_inside outer o os hr _)
  | endTag name =>
    obtain ⟨scopes, opened⟩ := r
    cases opened with
    | nil => cases h
    | cons innermost opened =>
      cases scopes with
      | nil => cases hr
      | cons frame scopes =>
        -- the frame that is dropped is one of the document's own
        have hrest : (⟨scopes, opened⟩ : Reader).Balanced := Nat.succ.inj hr
        simp only [feed, close] at h
        split at h
        · rename_i hname
          cases h
          refine ⟨[], ?_⟩
          simp only [feed, close, inside, List.cons_append, if_pos hname]
          exact congrArg Except.ok (attach_inside outer o os hrest _)
        · cases h
  | text raw =>
    obtain ⟨text, hread, h⟩ := ok_of_bind h
    cases h
    simp only [feed, hread, bind, Except.bind]
    split
    · exact ⟨[], rfl⟩
    · obtain ⟨texts, htexts⟩ := addText_inside outer o os r text
      exact ⟨texts, congrArg (fun r => Except.ok (Progress.reading r)) htexts⟩
  | cdata content =>
    cases h
    obtain ⟨texts, htexts⟩ := addText_inside outer o os r (Utf8.decodeLossy content)
    exact ⟨texts, congrArg (fun r => Except.ok (Progress.reading r)) htexts⟩
  | doctype => cases h
  | comment | «instruction» =>
    cases h
    exact ⟨[], rfl⟩

/-- A document that is read is read inside an element, in front of whatever markup follows. -/
theorem Ends.inside {outer : Scopes} (h : r.Ends bytes e after) (hr : r.Balanced) (hcovers : Scopes.Covers outer [])
    (o : OpenElement) (os : List OpenElement) (rest : Bytes) :
    ∃ texts, (r.inside outer (o :: os)).run (bytes ++ Token.lessThan :: rest) =
      ((Progress.finished e).inside outer (o.addTexts texts) os).run (after ++ Token.lessThan :: rest) := by
  induction h generalizing o with
  | here first fed =>
    obtain ⟨texts, hfeed⟩ := feed_inside o os hr hcovers fed
    exact ⟨texts, run_of_next (Token.next_open first rest) hfeed⟩
  | further first fed _ ih =>
    obtain ⟨texts, hfeed⟩ := feed_inside o os hr hcovers fed
    obtain ⟨texts', hrun⟩ := ih ((fed_of_feed fed).balanced hr rfl) (o.addTexts texts)
    refine ⟨texts' ++ texts, ?_⟩
    rw [← OpenElement.addTexts_addTexts, ← hrun]
    exact run_of_next (Token.next_open first rest) hfeed

theorem feed_initial_trails (ht : t.Trails) : initial.feed t = .ok (.reading initial) := by
  cases t with
  | text raw =>
    obtain ⟨text, hread⟩ := ht
    simp only [feed, hread, bind, Except.bind]
    split <;> rfl
  | cdata content | comment | «instruction» => rfl
  | _ => exact ht.elim

/-- What follows the root inside an element only adds texts to that. -/
theorem run_trails {outer : Scopes} (h : Token.Consists Token.Trails bytes) (hcovers : Scopes.Covers outer [])
    (o : OpenElement) (os : List OpenElement) (rest : Bytes) :
    ∃ texts, run ⟨outer, o :: os⟩ (bytes ++ Token.lessThan :: rest) =
      run ⟨outer, o.addTexts texts :: os⟩ (Token.lessThan :: rest) := by
  induction h generalizing o with
  | nil => exact ⟨[], rfl⟩
  | cons first kind _ ih =>
    obtain ⟨texts, hfeed⟩ := feed_inside o os (r := initial) rfl hcovers (feed_initial_trails kind)
    obtain ⟨texts', hrun⟩ := ih (o.addTexts texts)
    refine ⟨texts' ++ texts, ?_⟩
    rw [← OpenElement.addTexts_addTexts, ← hrun]
    exact run_of_next (Token.next_open first rest) hfeed

/-- What may stand behind the root may stand in front of it. -/
theorem Ends.of_trails {rest : Bytes} (hnext : Token.next bytes = .ok (some (t, rest))) (ht : t.Trails)
    (h : initial.Ends rest e after) : initial.Ends bytes e after := .further hnext (feed_initial_trails ht) h

/-- A written element without content ends with its tag. -/
theorem ends_childless {tag : StartTag} (ht : tag.Writable) (rest : Bytes) :
    initial.Ends (Element.toBytes ⟨tag, []⟩ ++ rest) (Element.settle [] ⟨tag, []⟩) rest := by
  have hd := StartTag.declares_writtenFrame ht []
  rw [Element.toBytes, Element.toChars, Element.toNode, encodeChars_childless]
  refine .here (Token.next_emptyTag (ht.spelled hd.fits) rest) ?_
  simp only [feed, initial, StartTag.read_write ht hd, bind, Except.bind]
  rfl

end Reader

namespace Element

/-- The bytes are read as the element, and what follows its root may stand inside an element as well. -/
def IsDocument (e : Element) (bytes : Bytes) : Prop :=
  ∃ after, Reader.initial.Ends (dropByteOrderMark bytes) e after ∧ Token.Consists Token.Trails after

variable {e : Element} {bytes : Bytes}

theorem IsDocument.parse (h : e.IsDocument bytes) : Element.parse bytes = .ok e := by
  obtain ⟨after, hends, -⟩ := h
  exact hends.run

/-- Put inside an element, a document without its declaration adds the element to the children, and texts around it. -/
theorem IsDocument.run_inside {outer : Scopes} (h : e.IsDocument bytes)
    (hcovers : Scopes.Covers outer []) (o : OpenElement) (os : List OpenElement) (rest : Bytes) :
    ∃ before behind, Reader.run ⟨outer, o :: os⟩ (stripDeclaration bytes ++ Token.lessThan :: rest) =
      Reader.run
        ⟨outer, OpenElement.addTexts { o with children := e.toNode :: (o.addTexts before).children } behind :: os⟩
        (Token.lessThan :: rest) := by
  obtain ⟨after, hends, hafter⟩ := h
  obtain ⟨before, hrun⟩ := hends.stripDeclaration.inside rfl hcovers o os rest
  obtain ⟨behind, htrails⟩ :=
    Reader.run_trails hafter hcovers { o with children := e.toNode :: (o.addTexts before).children } os rest
  exact ⟨before, behind, hrun.trans htrails⟩

end Element

end SoapNode
