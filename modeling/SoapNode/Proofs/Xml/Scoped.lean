import Mathlib.Data.List.TakeWhile
import SoapNode.Proofs.Xml.Detach
import SoapNode.Proofs.Xml.Reading

/-!
# Names in their scopes

Every tag of a document that is read has its names from the bindings in scope where it stands. If the
document is well-formed as to namespaces, then all prefixes of a tag mean there what the tag needs, and the
tag can be written.
-/

namespace SoapNode

/-- A binding that a document may declare. -/
structure PrefixBinding.Legal (b : PrefixBinding) : Prop where
  spelled : b.1 = "" ∨ isNCName b.1 = true
  bound : b.1 ≠ "" → b.2 ≠ ""
  xml : b.1 = "xml" → b.2 = xmlNamespace

instance (b : PrefixBinding) : Decidable (PrefixBinding.Legal b) :=
  decidable_of_iff ((b.1 = "" ∨ isNCName b.1 = true) ∧ (b.1 ≠ "" → b.2 ≠ "") ∧
    (b.1 = "xml" → b.2 = xmlNamespace))
    ⟨fun ⟨spelled, bound, xml⟩ => ⟨spelled, bound, xml⟩,
      fun ⟨spelled, bound, xml⟩ => ⟨spelled, bound, xml⟩⟩

namespace Scopes

theorem resolve_congr {a b : Scopes} (h : ∀ p, a.resolve p = b.resolve p) (inner : Scopes) (p : String) :
    resolve (inner ++ a) p = resolve (inner ++ b) p := by
  by_cases hxml : p = "xml"
  · rw [hxml, resolve_xml, resolve_xml]
  · induction inner with
    | nil => exact h p
    | cons frame inner ih => rw [List.cons_append, List.cons_append, resolve_cons _ _ hxml, resolve_cons _ _ hxml, ih]

theorem resolve_cons_congr {a b : Scopes} (h : ∀ p, a.resolve p = b.resolve p)
    (frame : List PrefixBinding) (p : String) : resolve (frame :: a) p = resolve (frame :: b) p :=
  resolve_congr h [frame] p

/-- Only the empty prefix can be taken back. -/
theorem ne_empty_of_resolve {scopes : Scopes} (h : ∀ frame ∈ scopes, ∀ b ∈ frame, PrefixBinding.Legal b)
    {p uri : String} (hp : p ≠ "") (hresolve : scopes.resolve p = some uri) : uri ≠ "" := by
  by_cases hxml : p = "xml"
  · rw [hxml, resolve_xml] at hresolve
    cases hresolve
    decide
  · rw [resolve_of_ne_xml _ hxml] at hresolve
    obtain ⟨frame, hframe, hlookup⟩ := List.exists_of_findSome?_eq_some hresolve
    exact (h frame hframe _ (List.mem_reverse.mp (mem_of_lookup hlookup))).bound hp

end Scopes

/-- The name of an attribute comes from what is in scope, if it has a prefix. What declares a prefix is no attribute. -/
structure Attribute.Resolved (scopes : Scopes) (a : Attribute) : Prop where
  named : ∀ p ∈ a.tagPrefix, scopes.resolve p = some a.name.namespaceUri
  unnamed : a.tagPrefix = none → a.name.namespaceUri = "" ∧ a.name.localPart ≠ "xmlns"
  notXmlns : a.tagPrefix ≠ some "xmlns"

namespace StartTag

/-- A tag of a document that is well-formed as to namespaces. -/
structure WellFormed (t : StartTag) : Prop where
  localPart : isNCName t.name.localPart = true
  tagPrefix : ∀ p ∈ t.tagPrefix, isNCName p = true
  attributeLocalPart : ∀ a ∈ t.attributes, isNCName a.name.localPart = true
  attributePrefix : ∀ a ∈ t.attributes, ∀ p ∈ a.tagPrefix, isNCName p = true
  distinct : (t.attributes.map (·.name)).Nodup
  legal : ∀ b ∈ t.declarations, PrefixBinding.Legal b
  once : (t.declarations.map Prod.fst).Nodup

instance (t : StartTag) : Decidable t.WellFormed :=
  decidable_of_iff
    (isNCName t.name.localPart = true ∧ (∀ p ∈ t.tagPrefix, isNCName p = true) ∧
      (∀ a ∈ t.attributes, isNCName a.name.localPart = true) ∧
      (∀ a ∈ t.attributes, ∀ p ∈ a.tagPrefix, isNCName p = true) ∧
      (t.attributes.map (·.name)).Nodup ∧ (∀ b ∈ t.declarations, PrefixBinding.Legal b) ∧
        (t.declarations.map Prod.fst).Nodup)
    ⟨fun ⟨a, b, c, d, e, f, g⟩ => ⟨a, b, c, d, e, f, g⟩,
      fun ⟨a, b, c, d, e, f, g⟩ => ⟨a, b, c, d, e, f, g⟩⟩

/-- The names of a tag come from what is in scope. -/
structure Resolved (outer : Scopes) (t : StartTag) : Prop where
  named : ∀ p ∈ t.tagPrefix, Scopes.resolve (t.declarations :: outer) p = some t.name.namespaceUri
  unnamed : t.tagPrefix = none → (Scopes.resolve (t.declarations :: outer) "").getD "" = t.name.namespaceUri
  attributes : ∀ a ∈ t.attributes, a.Resolved (t.declarations :: outer)

/-- A tag whose prefixes mean in its scopes what its names need. -/
structure Stands (outer : Scopes) (t : StartTag) : Prop where
  wellFormed : t.WellFormed
  means : ∀ b ∈ t.bindings, (Scopes.resolve (t.declarations :: outer) b.1).getD "" = b.2
  reserved : ∀ a ∈ t.attributes, a.tagPrefix ≠ some "xmlns" ∧ a.name ≠ .unqualified "xmlns"

variable {t : StartTag} {outer outer' : Scopes}

theorem WellFormed.means_declared (h : t.WellFormed) (outer : Scopes) {b : PrefixBinding} (hb : b ∈ t.declarations) :
    Scopes.resolve (t.declarations :: outer) b.1 = some b.2 := by
  by_cases hxml : b.1 = "xml"
  · rw [hxml, Scopes.resolve_xml, (h.legal b hb).xml hxml]
  · exact Scopes.resolve_of_mem h.once outer hxml hb

theorem attribute_of_mem_bindings {b : PrefixBinding} (h : b ∈ t.attributeBindings) :
    ∃ a ∈ t.attributes, ∃ i, b = (StartTag.attributePrefix i a, a.name.namespaceUri) ∧
      a.name.namespaceUri ≠ "" := by
  obtain ⟨⟨a, i⟩, ha, hb⟩ := List.mem_filterMap.mp h
  dsimp only [attributeBinding?] at hb
  split at hb
  · cases hb
  · rename_i hbound
    cases hb
    refine ⟨a, mem_of_mem_zipIdx ha, i, rfl, ?_⟩
    intro huri
    exact hbound (by simp [huri])

theorem attributePrefix_of_named {a : Attribute} {p : String} (h : a.tagPrefix = some p) (hp : p ≠ "") (i : Nat) :
    StartTag.attributePrefix i a = p := by
  simp [StartTag.attributePrefix, h, hp]

theorem isNCName_attributePrefix {i : Nat} {a : Attribute} (h : ∀ p ∈ a.tagPrefix, isNCName p = true) :
    isNCName (StartTag.attributePrefix i a) = true := by
  cases hprefix : a.tagPrefix with
  | none => simpa [StartTag.attributePrefix, hprefix] using Name.isNCName_numbered i
  | some p =>
    have hp := h p hprefix
    rwa [attributePrefix_of_named hprefix (Name.ne_empty hp)]

theorem WellFormed.spelledPrefix (h : t.WellFormed) {b : PrefixBinding} (hb : b ∈ t.bindings) :
    b.1 = "" ∨ isNCName b.1 = true := by
  rcases List.mem_append.mp hb with hb | hb
  · exact (h.legal b hb).spelled
  · rcases List.mem_cons.mp hb with rfl | hb
    · rw [nameBinding, writtenPrefix]
      split
      · exact .inl rfl
      · cases hprefix : t.tagPrefix with
        | none => exact .inl rfl
        | some p => exact .inr (h.tagPrefix p hprefix)
    · obtain ⟨a, ha, i, rfl, -⟩ := attribute_of_mem_bindings hb
      exact .inr (isNCName_attributePrefix (h.attributePrefix a ha))

theorem Resolved.stands (h : t.Resolved outer) (ht : t.WellFormed)
    (houter : ∀ frame ∈ outer, ∀ b ∈ frame, PrefixBinding.Legal b) : t.Stands outer := by
  have hlegal : ∀ frame ∈ t.declarations :: outer, ∀ b ∈ frame, PrefixBinding.Legal b :=
    List.forall_mem_cons.mpr ⟨ht.legal, houter⟩
  have hnamed : ∀ p ∈ t.tagPrefix, t.name.namespaceUri ≠ "" := fun p hp =>
    Scopes.ne_empty_of_resolve hlegal (Name.ne_empty (ht.tagPrefix p hp)) (h.named p hp)
  refine ⟨ht, ?_, ?_⟩
  · intro b hb
    rcases List.mem_append.mp hb with hb | hb
    · rw [ht.means_declared outer hb]
      rfl
    · rcases List.mem_cons.mp hb with rfl | hb
      · rw [nameBinding, writtenPrefix]
        cases hprefix : t.tagPrefix with
        | none => simpa using h.unnamed hprefix
        | some p =>
          rw [if_neg (by simpa using hnamed p hprefix), Option.getD_some, h.named p hprefix]
          rfl
      · obtain ⟨a, ha, i, rfl, huri⟩ := attribute_of_mem_bindings hb
        cases hprefix : a.tagPrefix with
        | none => exact absurd ((h.attributes a ha).unnamed hprefix).1 huri
        | some p =>
          rw [attributePrefix_of_named hprefix (Name.ne_empty (ht.attributePrefix a ha p hprefix)),
            (h.attributes a ha).named p hprefix]
          rfl
  · intro a ha
    refine ⟨(h.attributes a ha).notXmlns, ?_⟩
    intro hname
    cases hprefix : a.tagPrefix with
    | none => exact ((h.attributes a ha).unnamed hprefix).2 (congrArg QName.localPart hname)
    | some p =>
      have huri := Scopes.ne_empty_of_resolve hlegal (Name.ne_empty (ht.attributePrefix a ha p hprefix))
        ((h.attributes a ha).named p hprefix)
      exact huri (congrArg QName.namespaceUri hname)

theorem Stands.writable (h : t.Stands outer) : t.Writable where
  localPart := h.wellFormed.localPart
  attributeLocalPart := h.wellFormed.attributeLocalPart
  prefixes _ hb := h.wellFormed.spelledPrefix hb
  consistent := consistent_of_means h.means
  reservedXml := by
    intro b hb hxml
    have hmeans := h.means b hb
    rw [hxml, Scopes.resolve_xml] at hmeans
    exact hmeans.symm
  reservedXmlns a ha := (h.reserved a ha).1
  distinct := h.wellFormed.distinct
  noDeclaration a ha := (h.reserved a ha).2

theorem Stands.congr (hresolve : ∀ p, outer.resolve p = outer'.resolve p) (h : t.Stands outer) : t.Stands outer' := by
  refine ⟨h.wellFormed, ?_, h.reserved⟩
  intro b hb
  rw [← Scopes.resolve_cons_congr hresolve]
  exact h.means b hb

/-! ### Tags that were read -/

theorem eq_of_splitQualified {key p localPart : String} (h : splitQualified key = (some p, localPart)) :
    key = p ++ ":" ++ localPart := by
  have hcut := List.takeWhile_append_dropWhile (p := (· != ':')) (l := key.toList)
  unfold splitQualified at h
  dsimp only at h
  split at h
  · cases h
  · rename_i c rest hrest
    have hcolon : c = ':' := by
      have hhead := List.head?_dropWhile_not (· != ':') key.toList
      rw [hrest] at hhead
      simpa using hhead
    cases h
    rw [hrest, hcolon] at hcut
    exact String.toList_injective (by simpa using hcut.symm)

theorem eq_of_splitQualified_none {key localPart : String} (h : splitQualified key = (none, localPart)) :
    key = localPart := by
  unfold splitQualified at h
  dsimp only at h
  split at h <;> cases h
  rfl

theorem exists_of_mapM {α β ε : Type} {f : α → Except ε β} {xs : List α} {ys : List β}
    (h : xs.mapM f = .ok ys) : ∀ y ∈ ys, ∃ x ∈ xs, f x = .ok y := by
  induction xs generalizing ys with
  | nil =>
    cases h
    exact nofun
  | cons x xs ih =>
    rw [List.mapM_cons] at h
    obtain ⟨y, hy, h⟩ := ok_of_bind h
    obtain ⟨ys', hys, h⟩ := ok_of_bind h
    cases h
    refine List.forall_mem_cons.mpr ⟨⟨x, List.mem_cons_self, hy⟩, fun z hz => ?_⟩
    obtain ⟨x', hx', hz⟩ := ih hys z hz
    exact ⟨x', List.mem_cons_of_mem _ hx', hz⟩

theorem resolve_of_namespaceOf {scopes : Scopes} {p uri : String} (h : namespaceOf scopes p = .ok uri) :
    scopes.resolve p = some uri := by
  unfold namespaceOf at h
  split at h
  · rename_i hresolve
    cases h
    exact hresolve
  · cases h

theorem resolved_of_readAttribute {scopes : Scopes} {pair : String × String} {a : Attribute}
    (hkey : declaredPrefix? pair.1 = none) (h : readAttribute scopes pair = .ok a) : a.Resolved scopes := by
  unfold readAttribute at h
  split at h
  · rename_i localPart hsplit
    cases h
    refine ⟨nofun, fun _ => ⟨rfl, ?_⟩, nofun⟩
    rintro rfl
    rw [eq_of_splitQualified_none hsplit] at hkey
    cases hkey
  · rename_i p localPart hsplit
    obtain ⟨uri, huri, h⟩ := ok_of_bind h
    cases h
    refine ⟨?_, nofun, ?_⟩
    · intro q hq
      cases hq
      exact resolve_of_namespaceOf huri
    · intro hp
      cases hp
      rw [eq_of_splitQualified hsplit, show "xmlns" ++ ":" ++ localPart = "xmlns:" ++ localPart from rfl,
        declaredPrefix?_xmlns_append] at hkey
      cases hkey

theorem resolved_of_read {content : Bytes} (h : read outer content = .ok t) : t.Resolved outer := by
  obtain ⟨pairs, -, h⟩ := ok_of_bind h
  obtain ⟨name, -, h⟩ := ok_of_bind h
  dsimp only at h
  have hattributes : ∀ {scopes : Scopes} {attributes : List Attribute},
      (pairs.filter (declaredPrefix? ·.1 |>.isNone)).mapM (readAttribute scopes) = .ok attributes →
        ∀ a ∈ attributes, a.Resolved scopes := by
    intro scopes attributes hread a ha
    obtain ⟨pair, hpair, ha⟩ := exists_of_mapM hread a ha
    exact resolved_of_readAttribute (Option.isNone_iff_eq_none.mp (List.mem_filter.mp hpair).2) ha
  split at h
  · rename_i p hp
    obtain ⟨uri, huri, h⟩ := ok_of_bind h
    obtain ⟨attributes, hread, h⟩ := ok_of_bind h
    cases h
    refine ⟨?_, fun hnone => absurd (hp.symm.trans hnone) nofun, hattributes hread⟩
    intro q hq
    cases hp.symm.trans hq
    exact resolve_of_namespaceOf huri
  · rename_i hp
    obtain ⟨uri, huri, h⟩ := ok_of_bind h
    obtain ⟨attributes, hread, h⟩ := ok_of_bind h
    cases h
    cases huri
    exact ⟨fun q hq => absurd (hp.symm.trans hq) nofun, fun _ => rfl, hattributes hread⟩

end StartTag

namespace Node

mutual

/-- Each tag in the tree has the property, in the scopes around it. -/
def Every (P : Scopes → StartTag → Prop) (outer : Scopes) : Node → Prop
  | .text _ => True
  | .element tag children => P outer tag ∧ EveryIn P (tag.declarations :: outer) children

def EveryIn (P : Scopes → StartTag → Prop) (outer : Scopes) : List Node → Prop
  | [] => True
  | n :: ns => n.Every P outer ∧ EveryIn P outer ns

end

section Decidable

variable {P : Scopes → StartTag → Prop} [∀ outer t, Decidable (P outer t)]

mutual

def decideEvery (outer : Scopes) : (n : Node) → Decidable (n.Every P outer)
  | .text _ => isTrue trivial
  | .element tag children =>
    have := decideEveryIn (tag.declarations :: outer) children
    inferInstanceAs (Decidable (P outer tag ∧ EveryIn P (tag.declarations :: outer) children))

def decideEveryIn (outer : Scopes) : (ns : List Node) → Decidable (EveryIn P outer ns)
  | [] => isTrue trivial
  | n :: ns =>
    have := decideEvery outer n
    have := decideEveryIn outer ns
    inferInstanceAs (Decidable (n.Every P outer ∧ EveryIn P outer ns))

end

end Decidable

theorem everyIn_iff {P : Scopes → StartTag → Prop} {outer : Scopes} {ns : List Node} :
    EveryIn P outer ns ↔ ∀ n ∈ ns, n.Every P outer := by
  induction ns with
  | nil => simp [EveryIn]
  | cons n ns ih => rw [EveryIn, ih, List.forall_mem_cons]

mutual

/-- Two properties give a third one in scopes of a kind that the declarations keep. -/
theorem Every.combine {P Q Q' : Scopes → StartTag → Prop} {R : Scopes → Prop}
    (h : ∀ outer t, R outer → P outer t → Q outer t → Q' outer t ∧ R (t.declarations :: outer)) :
    {outer : Scopes} → {n : Node} → R outer → n.Every P outer → n.Every Q outer → n.Every Q' outer
  | _, .text _, _, _, _ => trivial
  | outer, .element tag _, houter, ⟨hp, hps⟩, ⟨hq, hqs⟩ =>
    have hstep := h outer tag houter hp hq
    ⟨hstep.1, EveryIn.combine h hstep.2 hps hqs⟩

theorem EveryIn.combine {P Q Q' : Scopes → StartTag → Prop} {R : Scopes → Prop}
    (h : ∀ outer t, R outer → P outer t → Q outer t → Q' outer t ∧ R (t.declarations :: outer)) :
    {outer : Scopes} → {ns : List Node} → R outer → EveryIn P outer ns →
      EveryIn Q outer ns → EveryIn Q' outer ns
  | _, [], _, _, _ => trivial
  | _, _ :: _, houter, ⟨hp, hps⟩, ⟨hq, hqs⟩ =>
    ⟨Every.combine h houter hp hq, EveryIn.combine h houter hps hqs⟩

end

mutual

theorem Every.congr {P : Scopes → StartTag → Prop}
    (h : ∀ a b t, (∀ p, Scopes.resolve a p = Scopes.resolve b p) → P a t → P b t) :
    {a b : Scopes} → {n : Node} → (∀ p, a.resolve p = b.resolve p) → n.Every P a → n.Every P b
  | _, _, .text _, _, _ => trivial
  | a, b, .element tag _, hresolve, ⟨htag, hchildren⟩ =>
    ⟨h a b tag hresolve htag, EveryIn.congr h (Scopes.resolve_cons_congr hresolve tag.declarations) hchildren⟩

theorem EveryIn.congr {P : Scopes → StartTag → Prop}
    (h : ∀ a b t, (∀ p, Scopes.resolve a p = Scopes.resolve b p) → P a t → P b t) :
    {a b : Scopes} → {ns : List Node} → (∀ p, a.resolve p = b.resolve p) → EveryIn P a ns → EveryIn P b ns
  | _, _, [], _, _ => trivial
  | _, _, _ :: _, hresolve, ⟨hn, hns⟩ => ⟨Every.congr h hresolve hn, EveryIn.congr h hresolve hns⟩

end

mutual

theorem Every.writable : {outer : Scopes} → {n : Node} → n.Every StartTag.Stands outer → n.Writable
  | _, .text _, _ => trivial
  | _, .element _ _, ⟨htag, hchildren⟩ => ⟨htag.writable, EveryIn.writable hchildren⟩

theorem EveryIn.writable : {outer : Scopes} → {ns : List Node} → EveryIn StartTag.Stands outer ns → AllWritable ns
  | _, [], _ => trivial
  | _, _ :: _, ⟨hn, hns⟩ => ⟨Every.writable hn, EveryIn.writable hns⟩

end

end Node

/-! ### Trees that were read -/

namespace Reader

open Node

/-- The open elements are those that the scopes come from, and all that was read has its names from there. -/
def Resolves : Scopes → List OpenElement → Prop
  | [], [] => True
  | frame :: outer, o :: os =>
    frame = o.tag.declarations ∧ o.tag.Resolved outer ∧
      EveryIn StartTag.Resolved (frame :: outer) o.children ∧ Resolves outer os
  | _, _ => False

def Progress.Resolves : Progress → Prop
  | .reading r => Reader.Resolves r.scopes r.opened
  | .finished e => e.toNode.Every StartTag.Resolved []

theorem Resolves.addNode {scopes : Scopes} {os : List OpenElement} {n : Node} (h : Resolves scopes os)
    (hn : n.Every StartTag.Resolved scopes) : Resolves scopes (addNode n os) := by
  match scopes, os, h with
  | [], [], h => exact h
  | frame :: outer, o :: os, ⟨hframe, htag, hchildren, hos⟩ => exact ⟨hframe, htag, ⟨hn, hchildren⟩, hos⟩

theorem Resolves.attach {r : Reader} {e : Element} (h : Resolves r.scopes r.opened)
    (he : e.toNode.Every StartTag.Resolved r.scopes) : (r.attach e).Resolves := by
  obtain ⟨scopes, opened⟩ := r
  match scopes, opened, h with
  | [], [], _ => exact he
  | frame :: outer, o :: os, h => exact h.addNode he

theorem Resolves.fed {r : Reader} {t : Token} {p : Progress} (h : Resolves r.scopes r.opened) (hfed : Fed r t p) :
    p.Resolves := by
  cases hfed with
  | opens read => exact ⟨rfl, StartTag.resolved_of_read read, trivial, h⟩
  | childless read => exact h.attach ⟨StartTag.resolved_of_read read, trivial⟩
  | @closes o os innermost =>
    obtain ⟨scopes, opened⟩ := r
    cases innermost
    cases scopes with
    | nil => exact h.elim
    | cons frame outer =>
      obtain ⟨hframe, htag, hchildren, hos⟩ := h
      refine Resolves.attach hos ⟨htag, everyIn_iff.mpr (fun n hn => ?_)⟩
      exact hframe ▸ everyIn_iff.mp hchildren n (List.mem_reverse.mp hn)
  | adds => exact h.addNode trivial
  | passes => exact h

end Reader

namespace Element

/-- A tree whose tags are well-formed as to namespaces. -/
def WellFormed (e : Element) : Prop := e.toNode.Every (fun _ t => t.WellFormed) []

instance (e : Element) : Decidable e.WellFormed := Node.decideEvery [] e.toNode

/-- A tree whose tags mean what they need in the scopes around it. -/
def Stands (outer : Scopes) (e : Element) : Prop := e.toNode.Every StartTag.Stands outer

theorem Stands.writable {outer : Scopes} {e : Element} (h : e.Stands outer) : e.Writable := Node.Every.writable h

theorem resolved_of_parse {bytes : Bytes} {e : Element} (h : parse bytes = .ok e) :
    e.toNode.Every StartTag.Resolved [] := by
  have hinitial : Reader.Progress.Resolves (.reading .initial) := trivial
  exact Reader.run_keeps Reader.Resolves.fed hinitial h

theorem stands_of_parse {bytes : Bytes} {e : Element} (hparse : parse bytes = .ok e) (he : e.WellFormed) :
    e.Stands [] := by
  refine Node.Every.combine (R := fun scopes => ∀ frame ∈ scopes, ∀ b ∈ frame, PrefixBinding.Legal b) ?_ nofun
    (resolved_of_parse hparse) he
  intro outer t houter htag hwell
  exact ⟨htag.stands hwell houter, List.forall_mem_cons.mpr ⟨hwell.legal, houter⟩⟩

end Element

end SoapNode
