import SoapNode.Proofs.Xml.Names
import SoapNode.Xml.Writer

/-!
# The declarations that are written

A tag uses prefixes for its name and its attributes and declares others; `bindings` lists what each
has to mean. Where no prefix has two meanings, the declarations that the writer puts on the tag bind
every prefix once and make all of them mean what they have to, whatever is in scope outside. A reader
whose scopes say at least what the writer's say sees the same meanings.
-/

namespace SoapNode

namespace Scopes

theorem resolve_of_ne_xml (scopes : Scopes) {p : String} (h : p ≠ "xml") :
    scopes.resolve p = scopes.findSome? (fun frame => frame.reverse.lookup p) := by
  rw [resolve, if_neg h]

theorem resolve_cons (frame : List PrefixBinding) (scopes : Scopes) {p : String} (h : p ≠ "xml") :
    resolve (frame :: scopes) p = (frame.reverse.lookup p).or (scopes.resolve p) := by
  rw [resolve_of_ne_xml _ h, resolve_of_ne_xml _ h, List.findSome?_cons]
  cases frame.reverse.lookup p <;> rfl

theorem resolve_append_singleton (frame : List PrefixBinding) (b : PrefixBinding) (scopes : Scopes) {p : String}
    (h : p ≠ "xml") :
    resolve ((frame ++ [b]) :: scopes) p = if p = b.1 then some b.2 else resolve (frame :: scopes) p := by
  obtain ⟨q, uri⟩ := b
  rw [resolve_cons _ _ h, resolve_cons _ _ h, List.reverse_append, List.reverse_singleton, List.singleton_append,
    List.lookup_cons]
  by_cases hp : p = q
  · simp [hp]
  · simp [hp, beq_eq_false_iff_ne.mpr hp]

theorem lookup_reverse_of_mem {frame : List PrefixBinding} (hnodup : (frame.map Prod.fst).Nodup) {b : PrefixBinding}
    (h : b ∈ frame) : frame.reverse.lookup b.1 = some b.2 := by
  have hperm : (frame.reverse.map Prod.fst).Nodup := by
    rw [List.map_reverse]
    exact (List.reverse_perm _).nodup_iff.mpr hnodup
  have hmem : b ∈ frame.reverse := List.mem_reverse.mpr h
  generalize frame.reverse = l at hperm hmem
  induction l with
  | nil => cases hmem
  | cons c l ih =>
    obtain ⟨hc, hl⟩ := List.nodup_cons.mp hperm
    rw [List.lookup_cons]
    rcases List.mem_cons.mp hmem with rfl | hb
    · simp
    · have hne : b.1 ≠ c.1 := by
        intro heq
        exact hc (heq ▸ List.mem_map_of_mem hb)
      rw [beq_eq_false_iff_ne.mpr hne]
      exact ih hl hb

theorem resolve_of_mem {frame : List PrefixBinding} (hnodup : (frame.map Prod.fst).Nodup) (scopes : Scopes)
    {b : PrefixBinding} (hxml : b.1 ≠ "xml") (h : b ∈ frame) : resolve (frame :: scopes) b.1 = some b.2 := by
  rw [resolve_cons _ _ hxml, lookup_reverse_of_mem hnodup h, Option.some_or]

theorem lookup_eq_none_iff {l : List PrefixBinding} {p : String} : l.lookup p = none ↔ ∀ b ∈ l, b.1 ≠ p := by
  induction l with
  | nil => simp
  | cons b l ih =>
    rw [List.lookup_cons]
    by_cases hp : p = b.1
    · simp [hp]
    · simp only [beq_eq_false_iff_ne.mpr hp, List.forall_mem_cons, ih]
      exact ⟨fun h => ⟨Ne.symm hp, h⟩, fun h => h.2⟩

theorem mem_of_lookup {l : List PrefixBinding} {p uri : String} (h : l.lookup p = some uri) : (p, uri) ∈ l := by
  induction l with
  | nil => cases h
  | cons b l ih =>
    rw [List.lookup_cons] at h
    by_cases hp : p = b.1
    · simp only [hp, beq_self_eq_true, Option.some.injEq] at h
      subst hp h
      exact List.mem_cons_self
    · rw [beq_eq_false_iff_ne.mpr hp] at h
      exact List.mem_cons_of_mem _ (ih h)

/-- The first scopes say at least what the second ones say, and have the same default namespace. -/
structure Covers (inner outer : Scopes) : Prop where
  resolve : ∀ p uri, outer.resolve p = some uri → inner.resolve p = some uri
  default : (inner.resolve "").getD "" = (outer.resolve "").getD ""

theorem Covers.refl (scopes : Scopes) : Covers scopes scopes := ⟨fun _ _ h => h, rfl⟩

theorem Covers.cons {inner outer : Scopes} (h : Covers inner outer) (frame : List PrefixBinding) :
    Covers (frame :: inner) (frame :: outer) := by
  constructor
  · intro p uri hp
    by_cases hxml : p = "xml"
    · subst hxml
      rwa [resolve_xml] at hp ⊢
    · rw [resolve_cons _ _ hxml] at hp ⊢
      cases hl : frame.reverse.lookup p with
      | none => rw [hl, Option.none_or] at hp; exact h.resolve p uri hp
      | some u => rwa [hl, Option.some_or] at hp
  · have hxml : "" ≠ "xml" := by decide
    rw [resolve_cons _ _ hxml, resolve_cons _ _ hxml]
    cases frame.reverse.lookup "" with
    | none => exact h.default
    | some u => rfl

theorem covers_nil {scopes : Scopes} (h : (scopes.resolve "").getD "" = "") : Covers scopes [] := by
  constructor
  · intro p uri hp
    by_cases hxml : p = "xml"
    · subst hxml
      rwa [resolve_xml] at hp ⊢
    · rw [resolve_of_ne_xml _ hxml] at hp
      cases hp
  · rw [h]
    rfl

end Scopes

namespace StartTag

def attributeBindings (t : StartTag) : List PrefixBinding :=
  t.attributes.zipIdx.filterMap (fun (a, i) => attributeBinding? i a)

def nameBinding (t : StartTag) : PrefixBinding := (t.writtenPrefix, t.name.namespaceUri)

/-- All prefixes of a tag, declared or used, with what they have to mean. -/
def bindings (t : StartTag) : List PrefixBinding := t.declarations ++ t.nameBinding :: t.attributeBindings

/-- The names of the tag are NCNames, no prefix has two meanings, `xml` has its own one and `xmlns` is
no prefix of an attribute, and no attribute is there twice or looks like a declaration. -/
structure Writable (t : StartTag) : Prop where
  localPart : isNCName t.name.localPart = true
  attributeLocalPart : ∀ a ∈ t.attributes, isNCName a.name.localPart = true
  prefixes : ∀ b ∈ t.bindings, b.1 = "" ∨ isNCName b.1 = true
  consistent : ∀ b ∈ t.bindings, ∀ c ∈ t.bindings, b.1 = c.1 → b.2 = c.2
  reservedXml : ∀ b ∈ t.bindings, b.1 = "xml" → b.2 = xmlNamespace
  reservedXmlns : ∀ a ∈ t.attributes, a.tagPrefix ≠ some "xmlns"
  distinct : (t.attributes.map (·.name)).Nodup
  noDeclaration : ∀ a ∈ t.attributes, a.name ≠ .unqualified "xmlns"

instance (t : StartTag) : Decidable t.Writable :=
  decidable_of_iff
    (isNCName t.name.localPart = true ∧ (∀ a ∈ t.attributes, isNCName a.name.localPart = true) ∧
      (∀ b ∈ t.bindings, b.1 = "" ∨ isNCName b.1 = true) ∧
      (∀ b ∈ t.bindings, ∀ c ∈ t.bindings, b.1 = c.1 → b.2 = c.2) ∧
      (∀ b ∈ t.bindings, b.1 = "xml" → b.2 = xmlNamespace) ∧
        (∀ a ∈ t.attributes, a.tagPrefix ≠ some "xmlns") ∧
      (t.attributes.map (·.name)).Nodup ∧ (∀ a ∈ t.attributes, a.name ≠ .unqualified "xmlns"))
    ⟨fun ⟨a, b, c, d, e, f, g, h⟩ => ⟨a, b, c, d, e, f, g, h⟩,
      fun ⟨a, b, c, d, e, f, g, h⟩ => ⟨a, b, c, d, e, f, g, h⟩⟩

theorem mem_bindings_of_declared {t : StartTag} {b : PrefixBinding} (h : b ∈ t.declarations) : b ∈ t.bindings :=
  List.mem_append_left _ h

theorem nameBinding_mem_bindings (t : StartTag) : t.nameBinding ∈ t.bindings :=
  List.mem_append_right _ List.mem_cons_self

theorem mem_bindings_of_attribute {t : StartTag} {b : PrefixBinding} (h : b ∈ t.attributeBindings) :
    b ∈ t.bindings :=
  List.mem_append_right _ (List.mem_cons_of_mem _ h)

/-- What a frame under construction keeps: it binds only what the tag needs, each prefix once. -/
structure Fits (t : StartTag) (frame : List PrefixBinding) : Prop where
  subset : ∀ b ∈ frame, b ∈ t.bindings
  nodup : (frame.map Prod.fst).Nodup
  notXml : ∀ b ∈ frame, b.1 ≠ "xml"

theorem fits_nil (t : StartTag) : Fits t [] := ⟨by simp, List.nodup_nil, by simp⟩

theorem Fits.append {t : StartTag} (ht : t.Writable) {frame : List PrefixBinding} (h : Fits t frame) {outer : Scopes}
    {b : PrefixBinding} (hb : b ∈ t.bindings) (hne : Scopes.resolve (frame :: outer) b.1 ≠ some b.2) :
    Fits t (frame ++ [b]) := by
  constructor
  · intro c hc
    rcases List.mem_append.mp hc with hc | hc
    · exact h.subset c hc
    · rwa [List.mem_singleton.mp hc]
  · rw [List.map_append, List.nodup_append]
    refine ⟨h.nodup, by simp, ?_⟩
    intro p hp q hq heq
    simp only [List.map_cons, List.map_nil, List.mem_singleton] at hq
    obtain ⟨c, hc, rfl⟩ := List.mem_map.mp hp
    apply hne
    have hcb : c.1 = b.1 := heq.trans hq
    rw [← hcb, Scopes.resolve_of_mem h.nodup outer (h.notXml c hc) hc,
      ht.consistent c (h.subset c hc) b hb hcb]
  · intro c hc
    rcases List.mem_append.mp hc with hc | hc
    · exact h.notXml c hc
    · rw [List.mem_singleton.mp hc]
      intro hxml
      apply hne
      rw [hxml, Scopes.resolve_xml, ht.reservedXml b hb hxml]

theorem resolve_append_of_consistent {t : StartTag} (ht : t.Writable) {frame : List PrefixBinding} {outer : Scopes}
    {b c : PrefixBinding} (hb : b ∈ t.bindings) (hc : c ∈ t.bindings) :
    Scopes.resolve ((frame ++ [b]) :: outer) c.1 = Scopes.resolve (frame :: outer) c.1 ∨
      Scopes.resolve ((frame ++ [b]) :: outer) c.1 = some c.2 := by
  by_cases hxml : c.1 = "xml"
  · left
    rw [hxml, Scopes.resolve_xml, Scopes.resolve_xml]
  · rw [Scopes.resolve_append_singleton _ _ _ hxml]
    split
    · right
      rw [ht.consistent b hb c hc (Eq.symm ‹_›)]
    · exact .inl rfl

/-- What a prefix of the tag means is kept when declarations are added that the tag needs. -/
structure Grows (t : StartTag) (outer : Scopes) (frame frame' : List PrefixBinding) : Prop where
  fits : Fits t frame'
  keeps : ∀ c ∈ t.bindings, Scopes.resolve (frame' :: outer) c.1 = Scopes.resolve (frame :: outer) c.1 ∨
    Scopes.resolve (frame' :: outer) c.1 = some c.2

theorem Grows.refl {t : StartTag} {outer : Scopes} {frame : List PrefixBinding} (h : Fits t frame) :
    Grows t outer frame frame := ⟨h, fun _ _ => .inl rfl⟩

theorem Grows.trans {t : StartTag} {outer : Scopes} {f g k : List PrefixBinding} (h : Grows t outer f g)
    (h' : Grows t outer g k) : Grows t outer f k := by
  refine ⟨h'.fits, ?_⟩
  intro c hc
  rcases h'.keeps c hc with heq | hsome
  · rw [heq]
    exact h.keeps c hc
  · exact .inr hsome

theorem Grows.holds {t : StartTag} {outer : Scopes} {f g : List PrefixBinding} (h : Grows t outer f g)
    {c : PrefixBinding} (hc : c ∈ t.bindings) (hf : Scopes.resolve (f :: outer) c.1 = some c.2) :
    Scopes.resolve (g :: outer) c.1 = some c.2 := by
  rcases h.keeps c hc with heq | hsome
  · rw [heq, hf]
  · exact hsome

theorem grows_append {t : StartTag} (ht : t.Writable) {outer : Scopes} {frame : List PrefixBinding} (h : Fits t frame)
    {b : PrefixBinding} (hb : b ∈ t.bindings) (hne : Scopes.resolve (frame :: outer) b.1 ≠ some b.2) :
    Grows t outer frame (frame ++ [b]) :=
  ⟨h.append ht hb hne, fun _ hc => resolve_append_of_consistent ht hb hc⟩

theorem grows_need {t : StartTag} (ht : t.Writable) (outer : Scopes) {frame : List PrefixBinding} (h : Fits t frame)
    {b : PrefixBinding} (hb : b ∈ t.bindings) :
    Grows t outer frame (need outer frame b) ∧ Scopes.resolve (need outer frame b :: outer) b.1 = some b.2 := by
  unfold need
  split
  · exact ⟨.refl h, ‹_›⟩
  · rename_i hne
    refine ⟨grows_append ht h hb hne, ?_⟩
    have hxml : b.1 ≠ "xml" := (h.append ht hb hne).notXml b (by simp)
    rw [Scopes.resolve_append_singleton _ _ _ hxml, if_pos rfl]

theorem grows_foldl_need {t : StartTag} (ht : t.Writable) (outer : Scopes) (bs : List PrefixBinding)
    {frame : List PrefixBinding} (h : Fits t frame) (hbs : ∀ b ∈ bs, b ∈ t.bindings) :
    Grows t outer frame (bs.foldl (need outer) frame) ∧
      ∀ b ∈ bs, Scopes.resolve (bs.foldl (need outer) frame :: outer) b.1 = some b.2 := by
  induction bs generalizing frame with
  | nil => exact ⟨.refl h, by simp⟩
  | cons b bs ih =>
    obtain ⟨hstep, hb⟩ := grows_need ht outer h (hbs b List.mem_cons_self)
    obtain ⟨hrest, hall⟩ := ih hstep.fits (fun c hc => hbs c (List.mem_cons_of_mem _ hc))
    refine ⟨hstep.trans hrest, ?_⟩
    intro c hc
    rcases List.mem_cons.mp hc with rfl | hc
    · exact hrest.holds (hbs c List.mem_cons_self) hb
    · exact hall c hc

theorem grows_needName {t : StartTag} (ht : t.Writable) (outer : Scopes) {frame : List PrefixBinding}
    (h : Fits t frame) :
    Grows t outer frame (needName outer frame t) ∧
      (Scopes.resolve (needName outer frame t :: outer) t.writtenPrefix).getD "" = t.name.namespaceUri := by
  unfold needName
  split
  · exact ⟨.refl h, ‹_›⟩
  · rename_i hne
    have hne' : Scopes.resolve (frame :: outer) t.nameBinding.1 ≠ some t.nameBinding.2 := by
      intro heq
      apply hne
      rw [show t.writtenPrefix = t.nameBinding.1 from rfl, heq]
      rfl
    refine ⟨grows_append ht h t.nameBinding_mem_bindings hne', ?_⟩
    have hxml : t.writtenPrefix ≠ "xml" :=
      (h.append ht t.nameBinding_mem_bindings hne').notXml t.nameBinding (by simp)
    rw [Scopes.resolve_append_singleton _ _ _ hxml, if_pos rfl]
    rfl

/-- What the written declarations of a tag achieve inside some scopes. -/
structure Declares (t : StartTag) (outer : Scopes) (frame : List PrefixBinding) : Prop where
  fits : Fits t frame
  declared : ∀ b ∈ t.declarations, Scopes.resolve (frame :: outer) b.1 = some b.2
  name : (Scopes.resolve (frame :: outer) t.writtenPrefix).getD "" = t.name.namespaceUri
  attributes : ∀ b ∈ t.attributeBindings, Scopes.resolve (frame :: outer) b.1 = some b.2

theorem declares_writtenFrame {t : StartTag} (ht : t.Writable) (outer : Scopes) :
    Declares t outer (t.writtenFrame outer) := by
  obtain ⟨hown, howns⟩ := grows_foldl_need ht outer t.declarations (fits_nil t)
    (fun b hb => mem_bindings_of_declared hb)
  obtain ⟨hname, hmeans⟩ := grows_needName ht outer hown.fits
  obtain ⟨hlast, hattributes⟩ := grows_foldl_need ht outer t.attributeBindings hname.fits
    (fun b hb => mem_bindings_of_attribute hb)
  refine ⟨hlast.fits, ?_, ?_, hattributes⟩
  · intro b hb
    have hmem := mem_bindings_of_declared hb
    exact hlast.holds hmem (hname.holds hmem (howns b hb))
  · rcases hlast.keeps t.nameBinding t.nameBinding_mem_bindings with heq | hsome
    · exact (congrArg (Option.getD · "") heq).trans hmeans
    · exact congrArg (Option.getD · "") hsome

theorem Declares.of_covers {t : StartTag} {inner outer : Scopes} {frame : List PrefixBinding}
    (h : Declares t outer frame) (hcovers : Scopes.Covers inner outer) : Declares t inner frame := by
  have hc := hcovers.cons frame
  refine ⟨h.fits, fun b hb => hc.resolve _ _ (h.declared b hb), ?_, fun b hb => hc.resolve _ _ (h.attributes b hb)⟩
  by_cases hp : t.writtenPrefix = ""
  · have hname := h.name
    rw [hp] at hname ⊢
    rw [hc.default, hname]
  · have huri : t.name.namespaceUri ≠ "" := by
      intro huri
      exact hp (by simp [writtenPrefix, huri])
    cases hr : Scopes.resolve (frame :: outer) t.writtenPrefix with
    | none =>
      have hname := h.name
      rw [hr] at hname
      exact absurd hname.symm huri
    | some uri =>
      have hname := h.name
      rw [hr] at hname
      rw [hc.resolve _ _ hr, hname]

end StartTag

end SoapNode
