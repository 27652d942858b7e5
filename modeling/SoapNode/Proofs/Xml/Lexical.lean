import SoapNode.Proofs.Xml.Meaning

/-!
# Names by lexical scope

What a prefix means in an element is said by the declarations on the way down to it, of which the last
one counts. The names of a tree that is read come from there. While it is read, the frames of bindings
are those of the elements that are open; an element that is closed leaves nothing behind.
-/

namespace SoapNode

/-- The declarations on a way down, the outermost first. -/
def declaredAlong (path : List Element) : List PrefixBinding := path.flatMap (·.declarations)

/-- What a prefix means behind these declarations. The prefix `xml` cannot be given another meaning. -/
inductive Means (declared : List PrefixBinding) : String → String → Prop where
  | xml : Means declared "xml" xmlNamespace
  | last {p uri : String} {earlier later : List PrefixBinding} (notXml : p ≠ "xml")
      (parts : declared = earlier ++ (p, uri) :: later) (kept : ∀ b ∈ later, b.1 ≠ p) : Means declared p uri

variable {declared : List PrefixBinding} {p uri uri' : String} {path : List Element}

theorem means_iff_of_ne_xml (hxml : p ≠ "xml") : Means declared p uri ↔ declared.reverse.lookup p = some uri := by
  rw [List.lookup_eq_some_iff]
  constructor
  · intro h
    cases h with
    | xml => exact absurd rfl hxml
    | @last _ _ earlier later _ parts kept =>
      refine ⟨later.reverse, earlier.reverse, by simp [parts], fun b hb => ?_⟩
      exact bne_iff_ne.mpr (Ne.symm (kept b (List.mem_reverse.mp hb)))
  · rintro ⟨later, earlier, hparts, hkept⟩
    refine @Means.last declared p uri earlier.reverse later.reverse hxml ?_ (fun b hb => ?_)
    · rw [← List.reverse_reverse declared, hparts]
      simp
    · exact Ne.symm (bne_iff_ne.mp (hkept b (List.mem_reverse.mp hb)))

theorem Scopes.resolve_scopesOf (hxml : p ≠ "xml") (path : List Element) :
    (scopesOf path).resolve p = (declaredAlong path).reverse.lookup p := by
  induction path with
  | nil => exact resolve_of_ne_xml _ hxml
  | cons e path ih =>
    rw [resolve_of_ne_xml _ hxml] at ih ⊢
    have halong : declaredAlong (e :: path) = e.declarations ++ declaredAlong path := List.flatMap_cons
    rw [scopesOf_cons, List.findSome?_append, ih, halong, List.reverse_append, List.lookup_append,
      List.findSome?_singleton]

/-- The search through the frames, innermost first, finds what the prefix means by lexical scope. -/
theorem Scopes.resolve_eq_some_iff : (scopesOf path).resolve p = some uri ↔ Means (declaredAlong path) p uri := by
  by_cases hxml : p = "xml"
  · subst hxml
    rw [resolve_xml, Option.some_inj]
    constructor
    · rintro rfl
      exact .xml
    · intro h
      cases h with
      | xml => rfl
      | last notXml => exact absurd rfl notXml
  · rw [resolve_scopesOf hxml, means_iff_of_ne_xml hxml]

theorem Means.unique (h : Means declared p uri) (h' : Means declared p uri') : uri = uri' := by
  by_cases hxml : p = "xml"
  · subst hxml
    cases h with
    | last notXml => exact absurd rfl notXml
    | xml =>
      cases h' with
      | last notXml => exact absurd rfl notXml
      | xml => rfl
  · rw [means_iff_of_ne_xml hxml] at h h'
    exact Option.some_inj.mp (h.symm.trans h')

/-- An element at the end of a way down has its names by lexical scope: each prefix means the namespace of the name,
an element without one is in the default namespace or in none, an attribute without one is in none. -/
structure Element.Named (path : List Element) (e : Element) : Prop where
  prefixed : ∀ p ∈ e.tag.tagPrefix, Means (declaredAlong path) p e.name.namespaceUri
  plain : e.tag.tagPrefix = none →
    Means (declaredAlong path) "" e.name.namespaceUri ∨ e.name.namespaceUri = "" ∧
    ∀ uri, ¬Means (declaredAlong path) "" uri
  attributes : ∀ a ∈ e.tag.attributes, (∀ p ∈ a.tagPrefix, Means (declaredAlong path) p a.name.namespaceUri) ∧
    (a.tagPrefix = none → a.name.namespaceUri = "")

namespace Element

variable {e e' d d' : Element} {above above' : List Element} {way : List Nat} {outer : Scopes}

theorem named_of_resolved (h : d.tag.Resolved (scopesOf above)) : d.Named (above ++ [d]) := by
  have hscopes : scopesOf (above ++ [d]) = d.tag.declarations :: scopesOf above := scopesOf_concat above d
  obtain ⟨hnamed, hunnamed, hattributes⟩ := h
  rw [← hscopes] at hnamed hunnamed hattributes
  refine ⟨fun p hp => Scopes.resolve_eq_some_iff.mp (hnamed p hp), fun hnone => ?_, fun a ha => ?_⟩
  · have huri := hunnamed hnone
    cases hdefault : (scopesOf (above ++ [d])).resolve "" with
    | some uri =>
      rw [hdefault, Option.getD_some] at huri
      exact .inl (Scopes.resolve_eq_some_iff.mp (huri ▸ hdefault))
    | none =>
      rw [hdefault, Option.getD_none] at huri
      refine .inr ⟨huri.symm, fun uri hmeans => ?_⟩
      cases hdefault.symm.trans (Scopes.resolve_eq_some_iff.mpr hmeans)
  · obtain ⟨hbound, hnone, -⟩ := hattributes a ha
    exact ⟨fun p hp => Scopes.resolve_eq_some_iff.mp (hbound p hp), fun h => (hnone h).1⟩

/-- What every tag of a tree has in its scopes, the element at the end of a way down has in those of the way. -/
theorem every_descend {P : Scopes → StartTag → Prop} (h : e.toNode.Every P outer)
    (hpath : e.descend way = some path) :
    ∃ above d, path = above ++ [d] ∧ P (scopesOf above ++ outer) d.tag := by
  induction way generalizing e path outer with
  | nil =>
    cases hpath
    exact ⟨[], e, rfl, h.1⟩
  | cons i way ih =>
    obtain ⟨child, rest, hchild, hrest, rfl⟩ := descend_cons_iff.mp hpath
    obtain ⟨above, d, rfl, hd⟩ := ih (every_of_mem h (List.mem_of_getElem? hchild)) hrest
    refine ⟨e :: above, d, rfl, ?_⟩
    rw [scopesOf_cons, List.append_assoc]
    exact hd

theorem named_of_descend (h : e.toNode.Every StartTag.Resolved []) (hpath : e.descend way = some (above ++ [d])) :
    d.Named (above ++ [d]) := by
  obtain ⟨above', d', heq, hd⟩ := every_descend h hpath
  obtain ⟨rfl, hlast⟩ := List.append_inj' heq rfl
  cases hlast
  exact named_of_resolved (List.append_nil (scopesOf above) ▸ hd)

/-- Names that are spelled with the same prefix are in the same namespace. -/
structure SameNamespaces (d d' : Element) : Prop where
  element : d.tag.tagPrefix = d'.tag.tagPrefix → d.name.namespaceUri = d'.name.namespaceUri
  attributes : ∀ a ∈ d.tag.attributes, ∀ a' ∈ d'.tag.attributes, a.tagPrefix = a'.tagPrefix →
    a.name.namespaceUri = a'.name.namespaceUri

/-- Whatever else stands in their trees, the declarations on the way down settle the namespaces. -/
theorem Named.same {path path' : List Element} (h : d.Named path) (h' : d'.Named path')
    (hdeclared : declaredAlong path = declaredAlong path') : SameNamespaces d d' := by
  obtain ⟨hprefixed, hplain, hattributes⟩ := h
  rw [hdeclared] at hprefixed hplain hattributes
  constructor
  · intro hspelled
    cases hown : d'.tag.tagPrefix with
    | some p => exact (hprefixed p (hspelled.trans hown)).unique (h'.prefixed p hown)
    | none =>
      rcases hplain (hspelled.trans hown) with hmeans | ⟨huri, hnone⟩
      · rcases h'.plain hown with hmeans' | ⟨-, hnone'⟩
        · exact hmeans.unique hmeans'
        · exact absurd hmeans (hnone' _)
      · rcases h'.plain hown with hmeans' | ⟨huri', -⟩
        · exact absurd hmeans' (hnone _)
        · exact huri.trans huri'.symm
  · intro a ha a' ha' hspelled
    obtain ⟨hnamed, hunnamed⟩ := hattributes a ha
    obtain ⟨hnamed', hunnamed'⟩ := h'.attributes a' ha'
    cases hown : a'.tagPrefix with
    | some p => exact (hnamed p (hspelled.trans hown)).unique (hnamed' p hown)
    | none => exact (hunnamed (hspelled.trans hown)).trans (hunnamed' hown).symm

end Element

namespace Reader

variable {r r' : Reader} {bytes rest rest' : Bytes} {t : Token}

/-- Where the reading of a document comes to: the state of the reader, and the bytes that are left. -/
inductive Comes (bytes : Bytes) : Reader → Bytes → Prop where
  | start : Comes bytes initial (dropByteOrderMark bytes)
  | step {r r' : Reader} {rest rest' : Bytes} {t : Token} (before : Comes bytes r rest)
      (first : Token.next rest = .ok (some (t, rest'))) (fed : r.feed t = .ok (.reading r')) : Comes bytes r' rest'

theorem Comes.run_eq (h : Comes bytes r rest) : r.run rest = Element.parse bytes := by
  induction h with
  | start => rfl
  | step _ first fed ih => exact (run_of_next first fed).symm.trans ih

theorem Comes.resolves (h : Comes bytes r rest) : Resolves r.scopes r.opened := by
  induction h with
  | start => exact trivial
  | step _ _ fed ih => exact ih.fed (fed_of_feed fed)

theorem Resolves.scopes_eq :
    {scopes : Scopes} → {os : List OpenElement} → Resolves scopes os → scopes = os.map (·.tag.declarations)
  | [], [], _ => rfl
  | _ :: _, _ :: _, ⟨hframe, _, _, hos⟩ => congrArg₂ List.cons hframe hos.scopes_eq

end Reader

namespace Element

/-- The names of a document that is read are those of lexical scope: each element has its names from the declarations on
the way down to it, whatever else the documents hold in which that way is found. At each step of the
reading there is one frame of bindings for each open element, and it holds the declarations of that element. -/
theorem names_of_parse {bytes : Bytes} {e : Element} (h : parse bytes = .ok e) :
    (∀ way above d, e.descend way = some (above ++ [d]) → d.Named (above ++ [d])) ∧
      (∀ bytes' e' way way' above above' d d', parse bytes' = .ok e' → e.descend way = some (above ++ [d]) →
        e'.descend way' = some (above' ++ [d']) → declaredAlong (above ++ [d]) = declaredAlong (above' ++ [d']) →
          SameNamespaces d d') ∧
      ∀ r rest, Reader.Comes bytes r rest → r.run rest = .ok e ∧
        r.scopes = r.opened.map (·.tag.declarations) := by
  refine ⟨fun way above d hpath => named_of_descend (resolved_of_parse h) hpath, ?_, ?_⟩
  · intro bytes' e' way way' above above' d d' h' hpath hpath' hdeclared
    have hnamed := named_of_descend (resolved_of_parse h) hpath
    have hnamed' := named_of_descend (resolved_of_parse h') hpath'
    exact hnamed.same hnamed' hdeclared
  · intro r rest hcomes
    exact ⟨hcomes.run_eq.trans h, hcomes.resolves.scopes_eq⟩

/-- A prefix that the first child declares anew, and the second one uses. -/
def shadowing : Element :=
  let first := ((named ⟨"urn:b", "First"⟩).withPrefix "p").declare "p" "urn:b"
  let second := ((named ⟨"urn:a", "Second"⟩).withPrefix "p").pushAttribute
    ⟨⟨"urn:a", "mark"⟩, some "p", "1"⟩
  ((((named ⟨"urn:a", "Root"⟩).withPrefix "p").declare "p" "urn:a").push first).push second

theorem names_of_parse_shadowing :
    ∃ e first second, parse shadowing.toBytes = .ok e ∧ e.descend [0] = some ([e] ++ [first]) ∧
      e.descend [1] = some ([e] ++ [second]) ∧ first.name.namespaceUri = "urn:b" ∧
      second.name.namespaceUri = "urn:a" ∧
      first.Named ([e] ++ [first]) ∧ second.Named ([e] ++ [second]) ∧ SameNamespaces e second := by
  have hparse : parse shadowing.toBytes = .ok (shadowing.settle []) := parse_toBytes (by decide)
  obtain ⟨hnamed, hsame, -⟩ := names_of_parse hparse
  refine ⟨_, (shadowing.settle []).elements[0], (shadowing.settle []).elements[1], hparse, rfl, rfl,
    rfl, rfl, ?_, ?_, ?_⟩
  · exact hnamed [0] [_] _ rfl
  · exact hnamed [1] [_] _ rfl
  · exact hsame _ _ [] [1] [] [_] _ _ hparse rfl rfl rfl

end Element

end SoapNode
