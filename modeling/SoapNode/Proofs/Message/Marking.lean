import SoapNode.Proofs.Message.Envelopes
import SoapNode.Proofs.Xml.Repeats

/-!
# Marked header blocks

A block is marked by attributes of the version, which stand behind its other ones and have no prefix. The
writer makes their prefixes from their places. As long as the block declares no such prefix with another
meaning, the marks come back from a written envelope with the block; else the envelope cannot be read.
-/

namespace SoapNode

open StartTag Name

/-! ### Attributes that are set -/

/-- How an attribute is written, up to its place and its value. -/
def Attribute.spelling (a : Attribute) : QName × Option String := (a.name, a.tagPrefix)

namespace Element

section Attributes

variable {name other : QName} {as : List Attribute} {value : String}

/-- Setting an attribute keeps how the others are spelt, and puts one behind them if it is new. -/
theorem map_spelling_setAttributeIn (name : QName) (value : String) (as : List Attribute) :
    (setAttributeIn name value as).map Attribute.spelling =
      as.map Attribute.spelling ++ if as.any (·.name == name) then [] else [(name, none)] := by
  induction as with
  | nil => rfl
  | cons a as ih =>
    rw [setAttributeIn, List.any_cons]
    by_cases ha : a.name == name
    · rw [if_pos ha, ha, Bool.true_or, if_pos rfl, List.append_nil]
      rfl
    · rw [if_neg ha, eq_false_of_ne_true ha, Bool.false_or, List.map_cons, ih]
      rfl

theorem filter_setAttributeIn {p : Attribute → Bool} (hp : ∀ a : Attribute, a.name = name → p a = false) :
    (setAttributeIn name value as).filter p = as.filter p := by
  induction as with
  | nil => simp [setAttributeIn, hp]
  | cons a as ih =>
    rw [setAttributeIn]
    by_cases ha : a.name = name
    · rw [if_pos (beq_iff_eq.mpr ha), List.filter_cons_of_neg (by simp [hp, ha]),
        List.filter_cons_of_neg (by simp [hp, ha])]
    · rw [if_neg (by simpa using ha), List.filter_cons, List.filter_cons, ih]

theorem find?_setAttributeIn :
    ((setAttributeIn name value as).find? (·.name == name)).map (·.value) = some value := by
  induction as with
  | nil => simp [setAttributeIn]
  | cons a as ih =>
    rw [setAttributeIn]
    by_cases ha : a.name == name
    · rw [if_pos ha, List.find?_cons_of_pos (by simpa using ha)]
      rfl
    · rw [if_neg ha, List.find?_cons_of_neg (by simpa using ha), ih]

theorem find?_setAttributeIn_of_ne (h : other ≠ name) :
    (setAttributeIn name value as).find? (·.name == other) = as.find? (·.name == other) := by
  have hp : ∀ a : Attribute, a.name = name → (a.name == other) = false := fun a ha => by simpa [ha] using h.symm
  rw [← List.head?_filter, ← List.head?_filter, filter_setAttributeIn hp]

theorem any_setAttributeIn_of_ne (h : other ≠ name) :
    (setAttributeIn name value as).any (·.name == other) = as.any (·.name == other) := by
  rw [← List.isSome_find?, find?_setAttributeIn_of_ne h, List.isSome_find?]

end Attributes

/-! ### Both marks of a block -/

/-- The names of the marks that the element does not have yet. -/
def missingMarks (e : Element) (v : SoapVersion) : List QName :=
  [v.mustUnderstandAttribute, v.roleAttribute].filter (fun name => !e.tag.attributes.any (·.name == name))

/-- The bindings that the writer makes for the marks, from their places. -/
def madeBindings (e : Element) (v : SoapVersion) : List PrefixBinding :=
  (List.range' e.tag.attributes.length (e.missingMarks v).length).map (fun i => (s!"ns{i}", v.envelopeUri))

/-- The element declares no prefix that the writer makes for its marks with another meaning. -/
def Markable (e : Element) (v : SoapVersion) : Prop :=
  ∀ b ∈ e.madeBindings v, ∀ c ∈ e.declarations, c.1 = b.1 → c.2 = b.2

instance (e : Element) (v : SoapVersion) : Decidable (e.Markable v) :=
  inferInstanceAs (Decidable (∀ b ∈ e.madeBindings v, _))

/-- The attributes that are no marks, by name and value. -/
def otherAttributes (e : Element) (v : SoapVersion) : List (QName × String) :=
  (e.tag.attributes.filter (fun a => a.name ≠ v.mustUnderstandAttribute ∧ a.name ≠ v.roleAttribute)).map
    (fun a => (a.name, a.value))

end Element

namespace Header

/-- The block of an element with both marks. -/
def marking (e : Element) (v : SoapVersion) (role : String) : Header :=
  ((Header.mk e).withMustUnderstand v).withRole v role

/-- The block of an element, with both marks and all else as it was. -/
structure Marks (e : Element) (v : SoapVersion) (role : String) (h : Header) : Prop where
  name : h.name = e.name
  mustUnderstand : h.mustUnderstand v = true
  role : h.role? v = some role
  others : h.element.otherAttributes v = e.otherAttributes v

end Header

section Marking

variable (e : Element) (v : SoapVersion) (role : String)

theorem SoapVersion.roleAttribute_ne : v.roleAttribute ≠ v.mustUnderstandAttribute := by
  cases v <;> decide

theorem Header.attributes_marking :
    ∃ demand, (demand = "1" ∨ demand = "true") ∧ (marking e v role).element.tag.attributes =
      Element.setAttributeIn v.roleAttribute role
        (Element.setAttributeIn v.mustUnderstandAttribute demand e.tag.attributes) := by
  cases v with
  | v11 => exact ⟨"1", .inl rfl, rfl⟩
  | v12 => exact ⟨"true", .inr rfl, rfl⟩

theorem Header.map_spelling_marking :
    (marking e v role).element.tag.attributes.map Attribute.spelling =
      e.tag.attributes.map Attribute.spelling ++ (e.missingMarks v).map (·, none) := by
  obtain ⟨demand, -, hattributes⟩ := attributes_marking e v role
  rw [hattributes, Element.map_spelling_setAttributeIn, Element.any_setAttributeIn_of_ne v.roleAttribute_ne,
    Element.map_spelling_setAttributeIn, List.append_assoc, Element.missingMarks]
  congr 1
  cases hdemand : e.tag.attributes.any (·.name == v.mustUnderstandAttribute) <;>
    cases hrole : e.tag.attributes.any (·.name == v.roleAttribute) <;> simp [hdemand, hrole]

theorem Header.marks_marking : (marking e v role).Marks e v role where
  name := rfl
  mustUnderstand := by
    obtain ⟨demand, hdemand, hattributes⟩ := attributes_marking e v role
    rw [mustUnderstand, Element.attribute?, hattributes, Element.find?_setAttributeIn_of_ne v.roleAttribute_ne.symm,
      Element.find?_setAttributeIn]
    rcases hdemand with rfl | rfl <;> decide
  role := Element.find?_setAttributeIn
  others := by
    obtain ⟨demand, -, hattributes⟩ := attributes_marking e v role
    rw [Element.otherAttributes, hattributes, Element.filter_setAttributeIn (by simp +contextual),
      Element.filter_setAttributeIn (by simp +contextual)]
    rfl

/-- Nothing that a block says with its attributes depends on their prefixes. -/
theorem Header.Marks.congr {e : Element} {v : SoapVersion} {role : String} {h h' : Header} (hmarks : h.Marks e v role)
    (herase : h'.element.tag.erase = h.element.tag.erase) : h'.Marks e v role := by
  have hname : h'.name = h.name := congrArg (·.name) herase
  have hattributes : h'.element.tag.attributes.map Attribute.erase = h.element.tag.attributes.map Attribute.erase :=
    congrArg (·.attributes) herase
  have hfind : ∀ (x : Element) (name : QName),
      x.attribute? name = ((x.tag.attributes.map Attribute.erase).find? (·.name == name)).map (·.value) := by
    intro x name
    rw [List.find?_map, Option.map_map]
    rfl
  have hothers : ∀ x : Element, x.otherAttributes v =
      ((x.tag.attributes.map Attribute.erase).filter
        (fun a => a.name ≠ v.mustUnderstandAttribute ∧ a.name ≠ v.roleAttribute)).map
        (fun a => (a.name, a.value)) := by
    intro x
    rw [List.filter_map, List.map_map]
    rfl
  refine ⟨hname.trans hmarks.name, ?_, ?_, ?_⟩
  · have hdemand := hmarks.mustUnderstand
    rw [Header.mustUnderstand, hfind] at hdemand ⊢
    rwa [hattributes]
  · have hrole := hmarks.role
    rw [Header.role?, hfind] at hrole ⊢
    rwa [hattributes]
  · rw [← hmarks.others, hothers, hothers, hattributes]

end Marking

namespace StartTag

/-! ### The tag of a marked block -/

variable {t : StartTag} {as bs : List Attribute} {b : PrefixBinding}

theorem attributeBindings_congr (h : as.map Attribute.spelling = bs.map Attribute.spelling) (k : Nat) :
    (as.zipIdx k).filterMap (fun (a, i) => attributeBinding? i a) =
      (bs.zipIdx k).filterMap (fun (a, i) => attributeBinding? i a) := by
  induction as generalizing bs k with
  | nil => rw [List.map_eq_nil_iff.mp h.symm]
  | cons a as ih =>
    cases bs with
    | nil => cases h
    | cons b bs =>
      obtain ⟨hhead, htail⟩ := List.cons.inj h
      obtain ⟨hname, hprefixed⟩ := Prod.mk.inj hhead
      have hbinding : attributeBinding? k a = attributeBinding? k b := by
        simp only [attributeBinding?, StartTag.attributePrefix, hname, hprefixed]
      simp only [List.zipIdx_cons, List.filterMap_cons, hbinding, ih htail]

theorem attributeBindings_unspelt {uri : String} (huri : uri ≠ "") (hxml : uri ≠ xmlNamespace) (names : List QName)
    (hnames : ∀ name ∈ names, name.namespaceUri = uri) (k : Nat) :
    ((names.map (Attribute.mk · none "")).zipIdx k).filterMap (fun (a, i) => attributeBinding? i a) =
      (List.range' k names.length).map (fun i => (s!"ns{i}", uri)) := by
  induction names generalizing k with
  | nil => rfl
  | cons name names ih =>
    obtain ⟨hname, hnames⟩ := List.forall_mem_cons.mp hnames
    have hbinding : attributeBinding? k ⟨name, none, ""⟩ = some (s!"ns{k}", uri) := by
      simp [attributeBinding?, StartTag.attributePrefix, hname, huri, hxml]
    simp only [List.map_cons, List.zipIdx_cons, List.filterMap_cons, hbinding, ih hnames,
      List.length_cons, List.range'_succ]

theorem WellFormed.bound (h : t.WellFormed) (hb : b ∈ t.bindings) (hnamed : b.1 ≠ "") : b.2 ≠ "" := by
  rcases List.mem_append.mp hb with hb | hb
  · exact (h.legal b hb).bound hnamed
  · rcases List.mem_cons.mp hb with rfl | hb
    · intro huri
      exact hnamed (by simp [nameBinding, writtenPrefix, show t.name.namespaceUri = "" from huri])
    · obtain ⟨a, -, i, rfl, huri⟩ := attribute_of_mem_bindings hb
      exact huri

end StartTag

namespace Header

variable {e : Element} {v : SoapVersion} {role : String}

theorem mem_missingMarks {name : QName} (h : name ∈ e.missingMarks v) :
    (name = v.mustUnderstandAttribute ∨ name = v.roleAttribute) ∧ ∀ a ∈ e.tag.attributes, a.name ≠ name := by
  obtain ⟨hmem, hnew⟩ := List.mem_filter.mp h
  exact ⟨by simpa using hmem, by simpa using hnew⟩

theorem mem_marking {a : Attribute} (ha : a ∈ (marking e v role).element.tag.attributes) :
    (∃ b ∈ e.tag.attributes, b.spelling = a.spelling) ∨ (a.name ∈ e.missingMarks v ∧ a.tagPrefix = none) := by
  have hmem := List.mem_map_of_mem (f := Attribute.spelling) ha
  rw [map_spelling_marking] at hmem
  rcases List.mem_append.mp hmem with hmem | hmem
  · exact .inl (List.mem_map.mp hmem)
  · obtain ⟨name, hname, heq⟩ := List.mem_map.mp hmem
    obtain ⟨rfl, hprefixed⟩ := Prod.mk.inj heq
    exact .inr ⟨hname, hprefixed.symm⟩

theorem missing_in_namespace {name : QName} (h : name ∈ e.missingMarks v) :
    name.namespaceUri = v.envelopeUri ∧ isNCName name.localPart = true := by
  rcases (mem_missingMarks h).1 with rfl | rfl <;> cases v <;> decide

theorem attributeBindings_marking :
    (marking e v role).element.tag.attributeBindings = e.tag.attributeBindings ++ e.madeBindings v := by
  have hspelling : (marking e v role).element.tag.attributes.map Attribute.spelling =
      (e.tag.attributes ++ (e.missingMarks v).map (Attribute.mk · none "")).map Attribute.spelling := by
    rw [map_spelling_marking, List.map_append, List.map_map]
    rfl
  have huri : v.envelopeUri ≠ "" ∧ v.envelopeUri ≠ xmlNamespace := by cases v <;> decide
  rw [attributeBindings, attributeBindings_congr hspelling, List.zipIdx_append, List.filterMap_append, Nat.zero_add,
    attributeBindings_unspelt huri.1 huri.2 _ (fun name hname => (missing_in_namespace hname).1)]
  rfl

/-- What the prefixes of a marked tag have to mean: the same as before, and what the writer makes for the marks. -/
theorem bindings_marking : (marking e v role).element.tag.bindings = e.tag.bindings ++ e.madeBindings v := by
  rw [bindings, attributeBindings_marking, bindings, List.append_assoc, List.cons_append]
  rfl

theorem of_mem_madeBindings {b : PrefixBinding} (hb : b ∈ e.madeBindings v) :
    b.1 ≠ "" ∧ b.1 ≠ "xml" ∧ b.2 = v.envelopeUri := by
  obtain ⟨i, -, rfl⟩ := List.mem_map.mp hb
  refine ⟨ne_empty (isNCName_numbered i), ?_, rfl⟩
  intro hxml
  have hlist := congrArg String.toList hxml
  simp [toString] at hlist

theorem wellFormed_marking (h : e.tag.WellFormed) : (marking e v role).element.tag.WellFormed where
  localPart := h.localPart
  tagPrefix := h.tagPrefix
  attributeLocalPart := by
    intro a ha
    obtain ⟨b, hb, heq⟩ | ⟨hname, -⟩ := mem_marking ha
    · rw [← (Prod.mk.inj heq).1]
      exact h.attributeLocalPart b hb
    · exact (missing_in_namespace hname).2
  attributePrefix := by
    intro a ha
    obtain ⟨b, hb, heq⟩ | ⟨-, hprefixed⟩ := mem_marking ha
    · rw [← (Prod.mk.inj heq).2]
      exact h.attributePrefix b hb
    · rw [hprefixed]
      exact nofun
  distinct := by
    have hnames : (marking e v role).element.tag.attributes.map (·.name) = e.tag.attributes.map (·.name) ++
        e.missingMarks v := by
      have hfst := congrArg (List.map Prod.fst) (map_spelling_marking e v role)
      rw [List.map_append, List.map_map, List.map_map, List.map_map] at hfst
      exact hfst.trans (congrArg _ (List.map_id _))
    rw [hnames, List.nodup_append]
    refine ⟨h.distinct, List.Pairwise.filter _ (by cases v <;> decide), ?_⟩
    rintro _ hold name hname rfl
    obtain ⟨a, ha, heq⟩ := List.mem_map.mp hold
    exact (mem_missingMarks hname).2 a ha heq
  legal := h.legal
  once := h.once

/-- If the prefixes for the marks are free, then a marked tag stands where the writer's bindings are in scope. -/
theorem stands_marking (h : e.tag.Stands []) (hfree : e.Markable v) :
    (marking e v role).element.tag.Stands [e.madeBindings v] := by
  have hdefault : (Scopes.resolve [e.madeBindings v] "").getD "" = "" := by
    have hnone : (e.madeBindings v).reverse.lookup "" = none :=
      Scopes.lookup_eq_none_iff.mpr (fun b hb => (of_mem_madeBindings (List.mem_reverse.mp hb)).1)
    rw [Scopes.resolve_cons _ _ (by decide), hnone]
    rfl
  have hcovers := (Scopes.covers_nil hdefault).cons e.tag.declarations
  refine ⟨wellFormed_marking h.wellFormed, ?_, ?_⟩
  · intro b hb
    rw [bindings_marking] at hb
    rcases List.mem_append.mp hb with hb | hb
    · have hmeans := h.means b hb
      by_cases hprefixed : b.1 = ""
      · rw [← hmeans, hprefixed]
        exact hcovers.default
      · cases hresolve : Scopes.resolve [e.tag.declarations] b.1 with
        | none =>
          rw [hresolve] at hmeans
          exact absurd hmeans.symm (h.wellFormed.bound hb hprefixed)
        | some uri =>
          rw [← hmeans, hresolve]
          exact congrArg (Option.getD · "") (hcovers.resolve _ _ hresolve)
    · obtain ⟨-, hxml, huri⟩ := of_mem_madeBindings hb
      show (Scopes.resolve [e.tag.declarations, e.madeBindings v] b.1).getD "" = b.2
      rw [Scopes.resolve_cons _ _ hxml, Scopes.resolve_cons _ _ hxml]
      cases hown : e.tag.declarations.reverse.lookup b.1 with
      | some uri => exact hfree b hb _ (List.mem_reverse.mp (Scopes.mem_of_lookup hown)) rfl
      | none =>
        cases hlookup : (e.madeBindings v).reverse.lookup b.1 with
        | some uri =>
          exact (of_mem_madeBindings (List.mem_reverse.mp (Scopes.mem_of_lookup hlookup))).2.2.trans huri.symm
        | none => exact absurd rfl (Scopes.lookup_eq_none_iff.mp hlookup b (List.mem_reverse.mpr hb))
  · intro a ha
    obtain ⟨b, hb, heq⟩ | ⟨hname, hprefixed⟩ := mem_marking ha
    · obtain ⟨hname, hprefixed⟩ := Prod.mk.inj heq
      rw [← hname, ← hprefixed]
      exact h.reserved b hb
    · refine ⟨hprefixed ▸ nofun, fun hbare => ?_⟩
      have huri := (missing_in_namespace hname).1
      rw [hbare] at huri
      revert huri
      cases v <;> decide

end Header

/-! ### Over the wire -/

namespace Message

/-- The message that carries a block and no payload. -/
def carrying (v : SoapVersion) (h : Header) : Message := (Message.empty (some v)).addHeader h

variable {bytes : Bytes} {e : Element} {v : SoapVersion} {role : String}

def written (v : SoapVersion) (h : Header) : Bytes :=
  Envelope.declaration ++ Utf8.encodeChars (Envelope.chars v [h.element] [])

theorem toEnvelope_carrying (v : SoapVersion) (h : Header) : (carrying v h).toEnvelope.1 = .ok (written v h) :=
  @toEnvelope_eq (carrying v h) v rfl none rfl

theorem parse_written_marked (hparse : Element.parse bytes = .ok e) (he : e.WellFormed) (hfree : e.Markable v) :
    ∃ m h, Envelope.parse (written v (.marking e v role)) = .ok m ∧ m.headers.blocks = [h] ∧
      h.Marks e v role := by
  have hstands := Element.stands_of_parse hparse he
  have htag : (Header.marking e v role).element.tag.Writable := (Header.stands_marking hstands.1 hfree).writable
  have hwritable : (Header.marking e v role).element.Writable := ⟨htag, hstands.writable.2⟩
  have hread := Envelope.parse_written v [(Header.marking e v role).element] none (by simpa using hwritable) nofun
  refine ⟨_, _, hread, rfl, (Header.marks_marking e v role).congr ?_⟩
  exact StartTag.erase_settle (Header.marking e v role).element.tag _

/-- A prefix that has to mean two things on the block makes the envelope unreadable. -/
theorem parse_written_unmarkable (role : String) (he : e.tag.WellFormed) (hclash : ¬ e.Markable v) :
    ∃ cause, Envelope.parse (written v (.marking e v role)) = .error (.xml cause) := by
  have htag : (Header.marking e v role).element.tag.WellFormed := Header.wellFormed_marking he
  have hbad : ∀ root, Element.parse (written v (.marking e v role)) ≠ .ok root := by
    intro root hroot
    obtain ⟨r, rest, hrun⟩ := Envelope.exists_run_of_parse hroot
    obtain ⟨t', hread⟩ := Reader.tag_of_run (htag.spelled (writtenFrame_subset [] _)) hrun
    apply hclash
    intro b hb c hc heq
    have hmade : b ∈ (Header.marking e v role).element.tag.attributeBindings := by
      rw [Header.attributeBindings_marking]
      exact List.mem_append_right _ hb
    exact consistent_of_read htag hread (List.mem_append_left _ hc) (List.mem_append_right _ hmade)
      (heq ▸ (Header.of_mem_madeBindings hb).2.1) heq
  cases hroot : Element.parse (written v (.marking e v role)) with
  | ok root => exact absurd hroot (hbad root)
  | error cause =>
    refine ⟨cause, ?_⟩
    rw [Envelope.parse, hroot]
    rfl

/-- The marks of a block come back with it from a written envelope, whenever its prefixes leave room for them; else
nothing comes back. -/
theorem marks_over_the_wire (hparse : Element.parse bytes = .ok e) (he : e.WellFormed)
    (v : SoapVersion) (role : String) :
    ∃ envelope, (carrying v (.marking e v role)).toEnvelope.1 = .ok envelope ∧
      (e.Markable v → ∃ m h, Envelope.parse envelope = .ok m ∧ m.headers.blocks = [h] ∧ h.Marks e v role) ∧
      (¬ e.Markable v → ∃ cause, Envelope.parse envelope = .error (.xml cause)) :=
  ⟨written v (.marking e v role), toEnvelope_carrying v _, parse_written_marked hparse he,
    parse_written_unmarkable role he.1⟩

/-- A block that declares prefixes which the writer makes too, at places where it does not make them. -/
def numbered : Element :=
  (((((Element.named ⟨"urn:x", "a"⟩).withPrefix "ns0").declare "ns0" "urn:x").declare "ns3" "urn:y").setAttribute
    (.unqualified "id") "1").setAttribute SoapVersion.v12.roleAttribute "urn:old"

theorem marks_over_the_wire_numbered :
    (numbered.settle []).WellFormed ∧ (numbered.settle []).Markable .v12 ∧
      ∃ envelope, (carrying .v12 (.marking (numbered.settle []) .v12 "urn:new")).toEnvelope.1 = .ok envelope ∧
        ∃ m h, Envelope.parse envelope = .ok m ∧ m.headers.blocks = [h] ∧
          h.Marks (numbered.settle []) .v12 "urn:new" := by
  have hparse : Element.parse numbered.toBytes = .ok (numbered.settle []) := Element.parse_toBytes (by decide)
  have hwell : (numbered.settle []).WellFormed := by decide
  have hfree : (numbered.settle []).Markable .v12 := by decide
  obtain ⟨envelope, hwritten, hmarked, -⟩ := marks_over_the_wire hparse hwell .v12 "urn:new"
  exact ⟨hwell, hfree, envelope, hwritten, hmarked hfree⟩

/-- A block whose own prefix is the one that the writer makes for a first attribute. -/
def clashing : Element := ((Element.named ⟨"urn:x", "a"⟩).withPrefix "ns0").declare "ns0" "urn:x"

theorem marks_lost_on_clashing :
    Element.parse clashing.toBytes = .ok (clashing.settle []) ∧ (clashing.settle []).WellFormed ∧
      ∃ envelope cause, (carrying .v11 (.marking (clashing.settle []) .v11 "urn:other")).toEnvelope.1 =
        .ok envelope ∧
        Envelope.parse envelope = .error (.xml cause) := by
  have hwell : (clashing.settle []).WellFormed := by decide
  have hclash : ¬ (clashing.settle []).Markable .v11 := by decide
  obtain ⟨cause, hcause⟩ := parse_written_unmarkable "urn:other" hwell.1 hclash
  exact ⟨Element.parse_toBytes (by decide), hwell, _, cause, toEnvelope_carrying .v11 _, hcause⟩

end Message

end SoapNode
