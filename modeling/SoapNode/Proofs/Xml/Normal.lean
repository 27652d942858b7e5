import SoapNode.Proofs.Xml.Tags

/-!
# What a written tree is read back as

`norm` merges adjacent texts and drops the runs that are white space alone; this is all that writing
and reading changes of the content of a tree. `settle` is the tree exactly as it is read back, with the
prefixes and declarations that the writer chose. The two are the same once the spelling is erased,
and a settled tree is normal and can be written again.
-/

namespace SoapNode

namespace Node

/-- A run of text as nodes. White space alone is none. -/
def ofRun (run : String) : List Node := if Text.blank run then [] else [.text run]

mutual

def norm : Node → Node
  | .text s => .text s
  | .element tag children => .element tag (normAll "" children)

/-- Merges adjacent texts and drops those of white space alone, `run` being the text in front. -/
def normAll (run : String) : List Node → List Node
  | [] => ofRun run
  | .text s :: ns => normAll (run ++ s) ns
  | n :: ns => ofRun run ++ n.norm :: normAll "" ns

end

mutual

def settle (outer : Scopes) : Node → Node
  | .text s => .text s
  | .element tag children =>
    let frame := tag.writtenFrame outer
    .element (tag.settle frame) (settleAll (frame :: outer) "" children)

/-- The nodes as they are read back when they were written inside some scopes. -/
def settleAll (outer : Scopes) (run : String) : List Node → List Node
  | [] => ofRun run
  | .text s :: ns => settleAll outer (run ++ s) ns
  | n :: ns => ofRun run ++ n.settle outer :: settleAll outer "" ns

end

mutual

def Writable : Node → Prop
  | .text _ => True
  | .element tag children => tag.Writable ∧ AllWritable children

def AllWritable : List Node → Prop
  | [] => True
  | n :: ns => n.Writable ∧ AllWritable ns

end

mutual

def decideWritable : (n : Node) → Decidable n.Writable
  | .text _ => isTrue trivial
  | .element tag children =>
    have := decideAllWritable children
    inferInstanceAs (Decidable (tag.Writable ∧ AllWritable children))

def decideAllWritable : (ns : List Node) → Decidable (AllWritable ns)
  | [] => isTrue trivial
  | n :: ns =>
    have := decideWritable n
    have := decideAllWritable ns
    inferInstanceAs (Decidable (n.Writable ∧ AllWritable ns))

end

instance (n : Node) : Decidable n.Writable := decideWritable n

instance (ns : List Node) : Decidable (AllWritable ns) := decideAllWritable ns

end Node

namespace Element

def norm (e : Element) : Element := ⟨e.tag, Node.normAll "" e.children⟩

def settle (outer : Scopes) (e : Element) : Element :=
  let frame := e.tag.writtenFrame outer
  ⟨e.tag.settle frame, Node.settleAll (frame :: outer) "" e.children⟩

/-- Every tag in the tree can be written. -/
def Writable (e : Element) : Prop := e.toNode.Writable

instance (e : Element) : Decidable e.Writable := inferInstanceAs (Decidable e.toNode.Writable)

end Element

namespace StartTag

open Name

theorem writtenPrefix_settle (t : StartTag) (frame : List PrefixBinding) :
    (t.settle frame).writtenPrefix = t.writtenPrefix := by
  by_cases huri : t.name.namespaceUri = ""
  · simp [writtenPrefix, settle, huri]
  · by_cases hp : t.writtenPrefix = ""
    · rw [writtenPrefix, settle]
      simp only [String.isEmpty_iff, huri, hp, if_false, if_true, Option.getD_none]
    · rw [writtenPrefix, settle]
      simp only [String.isEmpty_iff, huri, hp, if_false, Option.getD_some]

theorem attributeBinding?_settledPrefix (i : Nat) (a : Attribute) :
    attributeBinding? i { a with tagPrefix := settledPrefix i a } = attributeBinding? i a := by
  by_cases huri : a.name.namespaceUri = ""
  · simp [attributeBinding?, huri]
  · by_cases hxml : a.name.namespaceUri = xmlNamespace
    · simp [attributeBinding?, hxml]
    · have hspelling : attributePrefix i { a with tagPrefix := some (attributePrefix i a) } = attributePrefix i a := by
        rw [attributePrefix]
        simp only [String.isEmpty_iff, attributePrefix_ne_empty i a, if_false]
      simp only [attributeBinding?, settledPrefix, String.isEmpty_iff, huri, hxml, if_false, hspelling]

theorem mem_zipIdx_settle {t : StartTag} {frame : List PrefixBinding} {a' : Attribute} {i : Nat}
    (h : (a', i) ∈ (t.settle frame).attributes.zipIdx) :
    ∃ a, (a, i) ∈ t.attributes.zipIdx ∧ a' = { a with tagPrefix := settledPrefix i a } := by
  rw [List.mk_mem_zipIdx_iff_getElem?] at h
  simp only [settle, List.getElem?_map, List.getElem?_zipIdx, Option.map_map] at h
  obtain ⟨a, ha, rfl⟩ := Option.map_eq_some_iff.mp h
  refine ⟨a, List.mk_mem_zipIdx_iff_getElem?.mpr ha, ?_⟩
  simp

theorem mem_attributeBindings_settle {t : StartTag} {frame : List PrefixBinding} {b : PrefixBinding}
    (h : b ∈ (t.settle frame).attributeBindings) : b ∈ t.attributeBindings := by
  obtain ⟨⟨a', i⟩, hmem, hb⟩ := List.mem_filterMap.mp h
  obtain ⟨a, ha, rfl⟩ := mem_zipIdx_settle hmem
  simp only [attributeBinding?_settledPrefix] at hb
  exact List.mem_filterMap.mpr ⟨(a, i), ha, hb⟩

theorem mem_bindings_settle {t : StartTag} {frame : List PrefixBinding} (hframe : Fits t frame) {b : PrefixBinding}
    (h : b ∈ (t.settle frame).bindings) : b ∈ t.bindings := by
  rcases List.mem_append.mp h with hb | hb
  · exact hframe.subset b hb
  · rcases List.mem_cons.mp hb with rfl | hb
    · rw [nameBinding, writtenPrefix_settle]
      exact t.nameBinding_mem_bindings
    · exact mem_bindings_of_attribute (mem_attributeBindings_settle hb)

theorem mem_settle_attributes {t : StartTag} {frame : List PrefixBinding} {a' : Attribute}
    (h : a' ∈ (t.settle frame).attributes) :
    ∃ a i, (a, i) ∈ t.attributes.zipIdx ∧ a' = { a with tagPrefix := settledPrefix i a } := by
  obtain ⟨⟨a, i⟩, ha, rfl⟩ := List.mem_map.mp h
  exact ⟨a, i, ha, rfl⟩

theorem map_name_settle (t : StartTag) (frame : List PrefixBinding) :
    (t.settle frame).attributes.map (·.name) = t.attributes.map (·.name) := by
  have hfst := congrArg (List.map (·.name)) (List.zipIdx_map_fst 0 t.attributes)
  rw [List.map_map] at hfst
  rw [settle, List.map_map, ← hfst]
  rfl

theorem Writable.settle {t : StartTag} (ht : t.Writable) {frame : List PrefixBinding} (hframe : Fits t frame) :
    (t.settle frame).Writable where
  localPart := ht.localPart
  attributeLocalPart := by
    intro a' ha'
    obtain ⟨a, i, ha, rfl⟩ := mem_settle_attributes ha'
    exact ht.attributeLocalPart a (mem_of_mem_zipIdx ha)
  prefixes b hb := ht.prefixes b (mem_bindings_settle hframe hb)
  consistent b hb c hc := ht.consistent b (mem_bindings_settle hframe hb) c (mem_bindings_settle hframe hc)
  reservedXml b hb := ht.reservedXml b (mem_bindings_settle hframe hb)
  reservedXmlns := by
    intro a' ha'
    obtain ⟨a, i, ha, rfl⟩ := mem_settle_attributes ha'
    cases spelling ht ha with
    | bare _ _ settled => simp [settled]
    | prefixed p _ notXmlns _ settled _ => simp [settled, notXmlns]
  distinct := by
    rw [map_name_settle]
    exact ht.distinct
  noDeclaration := by
    intro a' ha'
    obtain ⟨a, i, ha, rfl⟩ := mem_settle_attributes ha'
    exact ht.noDeclaration a (mem_of_mem_zipIdx ha)

theorem erase_settle (t : StartTag) (frame : List PrefixBinding) : (t.settle frame).erase = t.erase := by
  have hfst := congrArg (List.map Attribute.erase) (List.zipIdx_map_fst 0 t.attributes)
  rw [List.map_map] at hfst
  simp only [erase, settle, StartTag.mk.injEq, true_and, List.map_map]
  rw [← hfst]
  rfl

end StartTag

namespace Node

theorem eraseAll_append (as bs : List Node) : eraseAll (as ++ bs) = eraseAll as ++ eraseAll bs := by
  induction as with
  | nil => rfl
  | cons a as ih => rw [List.cons_append, eraseAll, eraseAll, ih, List.cons_append]

mutual

theorem erase_settle (outer : Scopes) : (n : Node) → (n.settle outer).erase = n.norm.erase
  | .text _ => rfl
  | .element tag children => by
    rw [settle, norm, erase, erase, StartTag.erase_settle, eraseAll_settleAll]

theorem eraseAll_settleAll (outer : Scopes) (run : String) : (ns : List Node) →
    eraseAll (settleAll outer run ns) = eraseAll (normAll run ns)
  | [] => rfl
  | .text s :: ns => eraseAll_settleAll outer (run ++ s) ns
  | .element tag children :: ns => by
    rw [settleAll, normAll, eraseAll_append, eraseAll_append, eraseAll, eraseAll, erase_settle, eraseAll_settleAll]
    all_goals simp

end

theorem normAll_ofRun_append (run : String) (tag : StartTag) (children ns : List Node) :
    normAll "" (ofRun run ++ .element tag children :: ns) =
      ofRun run ++ .element tag (normAll "" children) :: normAll "" ns := by
  by_cases hblank : Text.blank run = true
  · rw [ofRun, if_pos hblank]
    rfl
  · have hrun : ofRun run = [.text run] := if_neg hblank
    have hstep : normAll "" (.text run :: .element tag children :: ns) =
        ofRun ("" ++ run) ++ .element tag (normAll "" children) :: normAll "" ns := rfl
    rw [hrun, List.singleton_append, hstep, String.empty_append, hrun, List.singleton_append]

theorem normAll_ofRun (run : String) : normAll "" (ofRun run) = ofRun run := by
  by_cases hblank : Text.blank run = true
  · rw [ofRun, if_pos hblank]
    rfl
  · have hrun : ofRun run = [.text run] := if_neg hblank
    have hstep : normAll "" [.text run] = ofRun ("" ++ run) := rfl
    rw [hrun, hstep, String.empty_append, hrun]

mutual

theorem norm_settle (outer : Scopes) : (n : Node) → (n.settle outer).norm = n.settle outer
  | .text _ => rfl
  | .element tag children => by
    rw [settle, norm, normAll_settleAll]

theorem normAll_settleAll (outer : Scopes) (run : String) : (ns : List Node) →
    normAll "" (settleAll outer run ns) = settleAll outer run ns
  | [] => normAll_ofRun run
  | .text s :: ns => normAll_settleAll outer (run ++ s) ns
  | .element tag children :: ns => by
    have hchildren := normAll_settleAll (tag.writtenFrame outer :: outer) "" children
    have hns := normAll_settleAll outer "" ns
    rw [settleAll, settle]
    · rw [normAll_ofRun_append, hchildren, hns]
    · simp

end

theorem allWritable_append {as bs : List Node} : AllWritable (as ++ bs) ↔ AllWritable as ∧ AllWritable bs := by
  induction as with
  | nil => simp [AllWritable]
  | cons a as ih => simp only [List.cons_append, AllWritable, ih, and_assoc]

theorem allWritable_ofRun (run : String) : AllWritable (ofRun run) := by
  unfold ofRun
  split
  · trivial
  · exact ⟨trivial, trivial⟩

mutual

theorem Writable.settle (outer : Scopes) : {n : Node} → n.Writable → (n.settle outer).Writable
  | .text _, _ => trivial
  | .element _ _, ⟨ht, hchildren⟩ =>
    ⟨ht.settle (StartTag.declares_writtenFrame ht outer).fits, AllWritable.settleAll _ "" hchildren⟩

theorem AllWritable.settleAll (outer : Scopes) (run : String) : {ns : List Node} → AllWritable ns →
    AllWritable (settleAll outer run ns)
  | [], _ => allWritable_ofRun run
  | .text s :: _, ⟨_, hns⟩ => AllWritable.settleAll outer (run ++ s) hns
  | .element _ _ :: _, ⟨hn, hns⟩ =>
    allWritable_append.mpr ⟨allWritable_ofRun run, Writable.settle outer hn, AllWritable.settleAll outer "" hns⟩

end

end Node

namespace Element

/-- What is read back is the written tree up to `norm` and spelling. -/
theorem same_settle (outer : Scopes) (e : Element) : Same (e.settle outer) e.norm := by
  have herase := Node.eraseAll_settleAll (e.tag.writtenFrame outer :: outer) "" e.children
  simp only [Same, erase, settle, norm, StartTag.erase_settle, herase]

theorem norm_settle (outer : Scopes) (e : Element) : (e.settle outer).norm = e.settle outer := by
  simp only [norm, settle, Node.normAll_settleAll]

theorem Writable.settle {e : Element} (h : e.Writable) (outer : Scopes) : (e.settle outer).Writable :=
  Node.Writable.settle outer h

end Element

end SoapNode
