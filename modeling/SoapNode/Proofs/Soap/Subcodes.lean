import SoapNode.Proofs.Soap.FaultCode

/-!
# The chain of subcodes

Code and Subcode elements hold a value and, if there are further subcodes, the next Subcode element.
The list of subcodes is read back from the nested elements, by induction on the list: each step goes
one element deeper on the path that prefixes are looked up on.
-/

namespace SoapNode

open StartTag Name FaultElement

namespace FaultElement

theorem codeName_fc : CodeName "fc" where
  ncName := by decide
  notXml := by decide
  notEnvelope := by decide
  first := by
    intro c hc
    obtain rfl : 'f' = c := Option.some_inj.mp hc
    decide

theorem codeName_sc (depth : Nat) : CodeName s!"sc{depth}" where
  ncName := isNCName_append_toString (p := "sc") (by decide) depth
  notXml := by
    intro h
    have hlist := congrArg String.toList h
    simp [toString] at hlist
  notEnvelope := by
    intro h
    have hlist := congrArg String.toList h
    simp [toString, envelopePrefix] at hlist
  first := by
    intro c hc
    have hlist : (s!"sc{depth}").toList = 's' :: 'c' :: Nat.toDigits 10 depth := by
      simp [toString, Nat.repr]
    rw [hlist, List.head?_cons, Option.mem_some_iff] at hc
    rw [← hc]
    decide

theorem holder_tag {q : QName} (h : q.namespaceUri ≠ SoapVersion.v11.envelopeUri) {part : String}
    (hpart : isNCName part = true) : Holder (Envelope.tag .v12 part) q where
  localPart := hpart
  attributes := rfl
  own := by
    refine .inr ⟨rfl, ?_⟩
    intro hsome
    obtain ⟨v, hv⟩ := Option.isSome_iff_exists.mp hsome
    have huri := SoapVersion.eq_envelopeUri_of_ofUri? hv
    cases v with
    | v11 => exact absurd huri h
    | v12 => exact huri

end FaultElement

namespace Fault12

theorem valueElement_eq (q : QName) {p : String} (hp : p ≠ "") :
    valueElement q p = coded (Envelope.tag .v12 "Value") q p := by
  rw [valueElement, ofCode_eq _ q hp]
  rfl

def coding (part : String) (q : QName) (p : String) (inner : Option Element) : Element :=
  .around (Envelope.tag .v12 part) (coded (Envelope.tag .v12 "Value") q p :: inner.toList)

theorem subcodeElement_cons (depth : Nat) (q : QName) (qs : List QName) :
    subcodeElement depth (q :: qs) = some (coding "Subcode" q s!"sc{depth}" (subcodeElement (depth + 1) qs)) := by
  have hne := ne_empty (codeName_sc depth).ncName
  rw [subcodeElement, valueElement_eq q hne]
  cases subcodeElement (depth + 1) qs <;> rfl

theorem name_subcodeElement {depth : Nat} {qs : List QName} {e : Element} (h : e ∈ subcodeElement depth qs) :
    e.name = name "Subcode" := by
  cases qs with
  | nil => cases h
  | cons q qs =>
    rw [subcodeElement_cons, Option.mem_some_iff] at h
    rw [← h]
    rfl

theorem writable_coding {part : String} (hpart : isNCName part = true) {q : QName}
    (hq : q.namespaceUri ≠ SoapVersion.v11.envelopeUri) {p : String} (hp : CodeName p) {inner : Option Element}
    (hinner : ∀ e ∈ inner, e.Writable) : (coding part q p inner).Writable := by
  refine Element.writable_around.mpr ⟨Envelope.writable_tag .v12 hpart, ?_⟩
  intro e he
  rcases List.mem_cons.mp he with rfl | he
  · exact writable_coded (holder_tag hq (by decide)) hp
  · exact hinner e (by simpa using he)

theorem writable_subcodeElement {qs : List QName} (h : ∀ q ∈ qs, q.namespaceUri ≠ SoapVersion.v11.envelopeUri)
    (depth : Nat) : ∀ e ∈ subcodeElement depth qs, e.Writable := by
  induction qs generalizing depth with
  | nil =>
    intro e he
    cases he
  | cons q qs ih =>
    intro e he
    rw [subcodeElement_cons, Option.mem_some_iff] at he
    rw [← he]
    exact writable_coding (by decide) (h q List.mem_cons_self) (codeName_sc depth)
      (ih (fun q' hq' => h q' (List.mem_cons_of_mem _ hq')) (depth + 1))

def within (part : String) (outer : Scopes) : Scopes := (Envelope.tag .v12 part).writtenFrame outer :: outer

theorem default_within {part : String} (hpart : isNCName part = true) {outer : Scopes}
    (h : (outer.resolve "").getD "" = "") : ((within part outer).resolve "").getD "" = "" := by
  refine Scopes.resolve_default_cons ?_ h
  intro b hb hb1
  have hmem := (declares_writtenFrame (Envelope.writable_tag .v12 hpart) outer).fits.subset b hb
  rw [Envelope.bindings_tag, Envelope.frame, List.mem_singleton] at hmem
  rw [hmem] at hb1
  exact absurd hb1 (by decide)

theorem child?_value (part : String) (q : QName) (p : String) (inner : Option Element) (outer : Scopes) :
    ((coding part q p inner).settle outer).child? (name "Value") =
      some ((coded (Envelope.tag .v12 "Value") q p).settle (within part outer)) := by
  rw [coding, Element.child?_settle, List.find?_cons_of_pos (by rfl)]
  rfl

theorem child?_subcode (part : String) (q : QName) (p : String) (inner : Option Element)
    (h : ∀ e ∈ inner, e.name = name "Subcode") (outer : Scopes) :
    ((coding part q p inner).settle outer).child? (name "Subcode") = inner.map (·.settle (within part outer)) := by
  have hfind : inner.toList.find? (·.name == name "Subcode") = inner :=
    Element.find?_optional (b := true) (fun e he => by simp [h e he])
  rw [coding, Element.child?_settle, List.find?_cons_of_neg (by rintro ⟨⟩), hfind]
  rfl

theorem readSubcodes_of_none {path : List Element} {parent : Element} (h : parent.child? (name "Subcode") = none) :
    readSubcodes path parent = .ok [] := by
  rw [readSubcodes]
  split
  · rfl
  · rename_i hsome
    rw [h] at hsome
    cases hsome

theorem readSubcodes_of_some {path : List Element} {parent sub value : Element} {q : QName}
    (hsub : parent.child? (name "Subcode") = some sub) (hvalue : sub.child? (name "Value") = some value)
    (hq : readCode (path ++ [sub, value]) value = .ok q) :
    readSubcodes path parent = (readSubcodes (path ++ [sub]) sub).map (q :: ·) := by
  rw [readSubcodes]
  split
  · rename_i hnone
    rw [hsub] at hnone
    cases hnone
  · rename_i sub' hsome
    cases hsub.symm.trans hsome
    simp only [hvalue, require, hq, bind, Except.bind]
    cases readSubcodes (path ++ [sub]) sub <;> rfl

/-- The subcodes below a settled Code or Subcode element are the ones that were told, in order. -/
theorem readSubcodes_settle {qs : List QName}
    (hqs : ∀ q ∈ qs, q.Tellable ∧ q.namespaceUri ≠ SoapVersion.v11.envelopeUri) (depth : Nat) {part : String}
    (hpart : isNCName part = true) (q : QName) (p : String) {path : List Element} {outer : Scopes}
    (hpath : scopesOf path = outer) (hdefault : (outer.resolve "").getD "" = "") :
    readSubcodes (path ++ [(coding part q p (subcodeElement depth qs)).settle outer])
      ((coding part q p (subcodeElement depth qs)).settle outer) = .ok (qs.map QName.told) := by
  have hinside : scopesOf (path ++ [(coding part q p (subcodeElement depth qs)).settle outer]) = within part outer := by
    rw [scopesOf_concat, hpath]
    rfl
  have hsub := child?_subcode part q p (subcodeElement depth qs) (fun e he => name_subcodeElement he) outer
  have hdefault' := default_within hpart hdefault
  induction qs generalizing depth part q p path outer with
  | nil => exact readSubcodes_of_none hsub
  | cons q' qs ih =>
    obtain ⟨hq', hqs⟩ := List.forall_mem_cons.mp hqs
    rw [subcodeElement_cons, Option.map_some] at hsub
    rw [subcodeElement_cons] at hinside ⊢
    have hnested : scopesOf (path ++ [(coding part q p (some (coding "Subcode" q' s!"sc{depth}"
        (subcodeElement (depth + 1) qs)))).settle outer] ++
        [(coding "Subcode" q' s!"sc{depth}" (subcodeElement (depth + 1) qs)).settle (within part outer)]) =
          within "Subcode" (within part outer) := by
      rw [scopesOf_concat, hinside]
      rfl
    have hdefault'' := default_within (show isNCName "Subcode" = true by decide) hdefault'
    have hread := readCode_settle hq'.1 (holder_tag hq'.2 (show isNCName "Value" = true by decide))
      (codeName_sc depth) hnested hdefault''
    rw [List.append_assoc] at hread
    rw [readSubcodes_of_some hsub (child?_value _ _ _ _ _) hread,
      ih hqs (depth + 1) (show isNCName "Subcode" = true by decide) q' _ hinside hdefault' hnested
        (child?_subcode _ _ _ _ (fun e he => name_subcodeElement he) _) hdefault'']
    rfl

end Fault12

end SoapNode
