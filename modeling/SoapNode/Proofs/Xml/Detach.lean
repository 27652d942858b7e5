import SoapNode.Proofs.Xml.Normal

/-!
# Elements taken out of a document

An element that was read is taken out together with the bindings in scope around it. It says the same
as before, it is still normal, and it can be written again: what it inherits are prefixes that it does
not declare itself, so they mean to it what they meant where it stood.
-/

namespace SoapNode

namespace Element

theorem mem_addMissing {bound inherited : List PrefixBinding} {b : PrefixBinding}
    (h : b ∈ addMissing bound inherited) :
    b ∈ bound ∨ inherited.lookup b.1 = some b.2 ∧ ∀ c ∈ bound, c.1 ≠ b.1 := by
  induction inherited generalizing bound with
  | nil => exact .inl h
  | cons c inherited ih =>
    rw [addMissing, List.foldl_cons] at h
    split at h
    · rename_i hany
      rcases ih h with hb | ⟨hlookup, hnew⟩
      · exact .inl hb
      · obtain ⟨d, hd, hdc⟩ := List.any_eq_true.mp hany
        have hne : b.1 ≠ c.1 := by
          intro heq
          exact hnew d hd ((beq_iff_eq.mp hdc).trans heq.symm)
        refine .inr ⟨?_, hnew⟩
        rw [List.lookup_cons, beq_eq_false_iff_ne.mpr hne]
        exact hlookup
    · rename_i hany
      have hnone : ∀ d ∈ bound, d.1 ≠ c.1 := by
        intro d hd heq
        exact hany (List.any_eq_true.mpr ⟨d, hd, beq_iff_eq.mpr heq⟩)
      rcases ih h with hb | ⟨hlookup, hnew⟩
      · rcases List.mem_append.mp hb with hb | hb
        · exact .inl hb
        · rw [List.mem_singleton.mp hb]
          refine .inr ⟨?_, hnone⟩
          rw [List.lookup_cons, beq_self_eq_true]
      · have hne : b.1 ≠ c.1 := Ne.symm (hnew c (by simp))
        refine .inr ⟨?_, fun d hd => hnew d (List.mem_append_left _ hd)⟩
        rw [List.lookup_cons, beq_eq_false_iff_ne.mpr hne]
        exact hlookup

end Element

open Element

namespace StartTag

open Name

theorem consistent_of_means {bs : List PrefixBinding} {scopes : Scopes}
    (h : ∀ b ∈ bs, (scopes.resolve b.1).getD "" = b.2) : ∀ b ∈ bs, ∀ c ∈ bs, b.1 = c.1 → b.2 = c.2 := by
  intro b hb c hc heq
  rw [← h b hb, ← h c hc, heq]

theorem Declares.means {t : StartTag} {outer : Scopes} {frame : List PrefixBinding} (h : Declares t outer frame)
    {b : PrefixBinding} (hb : b ∈ (t.settle frame).bindings) :
    (Scopes.resolve (frame :: outer) b.1).getD "" = b.2 := by
  rcases List.mem_append.mp hb with hb | hb
  · rw [Scopes.resolve_of_mem h.fits.nodup outer (h.fits.notXml b hb) hb]
    rfl
  · rcases List.mem_cons.mp hb with rfl | hb
    · rw [nameBinding, writtenPrefix_settle]
      exact h.name
    · rw [h.attributes b (mem_attributeBindings_settle hb)]
      rfl

theorem Writable.inherit {t : StartTag} (ht : t.Writable) {outer : Scopes} {frame : List PrefixBinding}
    (hd : Declares t outer frame) {inherited : List PrefixBinding}
    (hinherited : ∀ b : PrefixBinding, inherited.lookup b.1 = some b.2 →
      (b.1 = "" ∨ isNCName b.1 = true) ∧ outer.resolve b.1 = some b.2) :
    Writable { t.settle frame with declarations := addMissing frame inherited } := by
  have hsettled := ht.settle hd.fits
  have hcases : ∀ b ∈ bindings { t.settle frame with declarations := addMissing frame inherited },
      b ∈ (t.settle frame).bindings ∨ inherited.lookup b.1 = some b.2 ∧ ∀ c ∈ frame, c.1 ≠ b.1 := by
    intro b hb
    rcases List.mem_append.mp hb with hb | hb
    · exact (mem_addMissing hb).imp_left (fun hframe => List.mem_append_left _ hframe)
    · exact .inl (List.mem_append_right _ hb)
  have hmeans : ∀ b ∈ bindings { t.settle frame with declarations := addMissing frame inherited },
      (Scopes.resolve (frame :: outer) b.1).getD "" = b.2 := by
    intro b hb
    rcases hcases b hb with hb | ⟨hlookup, hnew⟩
    · exact hd.means hb
    · have houter := (hinherited b hlookup).2
      by_cases hxml : b.1 = "xml"
      · rw [hxml, Scopes.resolve_xml] at houter ⊢
        exact congrArg (Option.getD · "") houter
      · have hnone : frame.reverse.lookup b.1 = none :=
          Scopes.lookup_eq_none_iff.mpr (fun c hc => hnew c (List.mem_reverse.mp hc))
        rw [Scopes.resolve_cons _ _ hxml, hnone, Option.none_or, houter]
        rfl
  refine ⟨hsettled.localPart, hsettled.attributeLocalPart, ?_, consistent_of_means hmeans, ?_, hsettled.reservedXmlns,
    hsettled.distinct, hsettled.noDeclaration⟩
  · intro b hb
    rcases hcases b hb with hb | ⟨hlookup, _⟩
    · exact hsettled.prefixes b hb
    · exact (hinherited b hlookup).1
  · intro b hb hxml
    have hb := hmeans b hb
    rw [hxml, Scopes.resolve_xml] at hb
    exact hb.symm

end StartTag

namespace Element

@[simp] theorem erase_inherit (e : Element) (bindings : List PrefixBinding) : (e.inherit bindings).erase = e.erase :=
  rfl

theorem norm_inherit (e : Element) (bindings : List PrefixBinding) :
    (e.inherit bindings).norm = e.norm.inherit bindings :=
  rfl

@[simp] theorem name_settle (outer : Scopes) (e : Element) : (e.settle outer).name = e.name := rfl

theorem erase_settle (outer : Scopes) (e : Element) : (e.settle outer).erase = e.norm.erase := same_settle outer e

theorem Writable.inherit {e : Element} (h : e.Writable) {inner outer : Scopes} (hcovers : Scopes.Covers inner outer)
    {inherited : List PrefixBinding}
    (hinherited : ∀ b : PrefixBinding, inherited.lookup b.1 = some b.2 →
      (b.1 = "" ∨ isNCName b.1 = true) ∧ inner.resolve b.1 = some b.2) :
    ((e.settle outer).inherit inherited).Writable := by
  have hd := (StartTag.declares_writtenFrame h.1 outer).of_covers hcovers
  exact ⟨StartTag.Writable.inherit h.1 hd hinherited, (h.settle outer).2⟩

end Element

end SoapNode
