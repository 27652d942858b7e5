import SoapNode.Proofs.Soap.Subcodes

/-!
# Faults are read from what is written of them

The elements of either version are an outermost tag around parts that are looked up by name. Reading a
settled fault gives its codes as they were, its texts trimmed, and its detail entries settled and
detached.
-/

namespace SoapNode

open StartTag Name

namespace FaultElement

def rootTag (v : SoapVersion) : StartTag := { Envelope.tag v "Fault" with declarations := Envelope.frame v }

def plainTag (part : String) : StartTag := ⟨.unqualified part, none, [], []⟩

theorem bindings_plainTag (part : String) : (plainTag part).bindings = [("", "")] := rfl

theorem writable_plainTag {part : String} (h : isNCName part = true) : (plainTag part).Writable := by
  refine ⟨h, by simp [plainTag], ?_, ?_, ?_, by simp [plainTag], List.nodup_nil, by simp [plainTag]⟩
  · intro b hb
    rw [bindings_plainTag, List.mem_singleton] at hb
    exact .inl (congrArg Prod.fst hb)
  · intro b hb c hc _
    rw [bindings_plainTag, List.mem_singleton] at hb hc
    rw [hb, hc]
  · intro b hb hxml
    rw [bindings_plainTag, List.mem_singleton] at hb
    rw [hb] at hxml
    exact absurd hxml (by decide)

theorem writable_rootTag (v : SoapVersion) : (rootTag v).Writable := by
  cases v <;> decide

theorem writtenFrame_rootTag (v : SoapVersion) : (rootTag v).writtenFrame [] = Envelope.frame v := by
  cases v <;> decide

theorem default_frame (v : SoapVersion) : (Scopes.resolve [Envelope.frame v] "").getD "" = "" := by
  cases v <;> decide

def detailElement (tag : StartTag) (entries : Option (List Element)) : Option Element :=
  if (entries.getD []).isEmpty then none else some (.around tag (entries.getD []))

theorem pushDetail_around (root tag : StartTag) (es : List Element) (entries : Option (List Element)) :
    pushDetail (.around root es) (.around tag []) entries =
      .around root (es ++ (detailElement tag entries).toList) := by
  unfold pushDetail detailElement
  split
  · simp
  · rw [Element.foldl_push_around, List.nil_append, Element.push_around]
    rfl

theorem pushOptional_around (root tag : StartTag) (es : List Element) (text : Option String) :
    pushOptional (.around root es) (.around tag []) text =
      .around root (es ++ (text.map (Element.telling tag)).toList) := by
  cases text with
  | none => simp [pushOptional]
  | some s =>
    rw [pushOptional, Element.push_around]
    rfl

theorem find?_detailElement {p : Element → Bool} {tag : StartTag} {b : Bool} (hp : ∀ es, p (.around tag es) = b)
    (entries : Option (List Element)) :
    (detailElement tag entries).toList.find? p = if b then detailElement tag entries else none := by
  apply Element.find?_optional
  intro e he
  unfold detailElement at he
  split at he
  · cases he
  · rw [← Option.mem_some_iff.mp he]
    exact hp _

theorem writable_detailElement {tag : StartTag} (htag : tag.Writable) {entries : Option (List Element)}
    (h : ∀ e ∈ entries.getD [], e.Writable) : ∀ e ∈ (detailElement tag entries).toList, e.Writable := by
  unfold detailElement
  split
  · simp
  · intro e he
    rw [Option.toList_some, List.mem_singleton] at he
    rw [he]
    exact Element.writable_around.mpr ⟨htag, h⟩

/-- An entry as it is read back: settled inside the detail element and taken out of the fault. -/
def detached (v : SoapVersion) (e : Element) : Element := (e.settle (Envelope.scopes v)).inherit (Envelope.frame v)

/-- The detail entries as they are read back. An empty list is told like none. -/
def receivedDetail (v : SoapVersion) (entries : Option (List Element)) : Option (List Element) :=
  (entries.filter (!·.isEmpty)).map (·.map (detached v))

theorem readDetail_settle {v : SoapVersion} {tag : StartTag} (htag : tag.writtenFrame [Envelope.frame v] = [])
    {fault : Element} (hfault : fault.declarations = Envelope.frame v) (entries : Option (List Element)) :
    ((detailElement tag entries).map (·.settle [Envelope.frame v])).map (readDetail fault) =
      receivedDetail v entries := by
  match entries with
  | none => rfl
  | some [] => rfl
  | some (e :: es) =>
    have hdetail : detailElement tag (some (e :: es)) = some (.around tag (e :: es)) := rfl
    rw [hdetail, Option.map_some, Option.map_some, readDetail, Element.settle_around,
      Element.elements_around, htag, hfault, List.map_map]
    rfl

end FaultElement

open FaultElement

namespace Fault12

def textElement (t : ReasonText) : Element :=
  .telling { Envelope.tag .v12 "Text" with attributes := [⟨⟨xmlNamespace, "lang"⟩, none, t.lang⟩] } t.text

theorem reasonElement_eq (texts : List ReasonText) :
    reasonElement texts = .around (Envelope.tag .v12 "Reason") (texts.map textElement) := by
  have hfold := Element.foldl_push_around (Envelope.tag .v12 "Reason") [] (texts.map textElement)
  rw [List.foldl_map] at hfold
  exact hfold

def parts (f : Fault12) : List Element :=
  coding "Code" f.code "fc" (subcodeElement 0 f.subcodes) ::
    .around (Envelope.tag .v12 "Reason") (f.reason.map textElement) ::
    ((f.node.map (Element.telling (Envelope.tag .v12 "Node"))).toList ++
      ((f.role.map (Element.telling (Envelope.tag .v12 "Role"))).toList ++
        (detailElement (Envelope.tag .v12 "Detail") f.detail).toList))

theorem toElement_eq (f : Fault12) : f.toElement = .around (rootTag .v12) f.parts := by
  have hvalue : valueElement f.code "fc" = coded (Envelope.tag .v12 "Value") f.code "fc" :=
    valueElement_eq f.code (by decide)
  have hroot : root .v12 = .around (rootTag .v12) [] := rfl
  have hnamed : ∀ part, named part = .around (Envelope.tag .v12 part) [] := fun _ => rfl
  cases hsub : subcodeElement 0 f.subcodes <;>
    simp only [toElement, hsub, hvalue, hroot, hnamed, Element.push_around, pushOptional_around, pushDetail_around,
      reasonElement_eq, parts, coding, Option.toList_none, Option.toList_some, List.nil_append,
      List.cons_append, List.append_assoc]

/-- What a fault of SOAP 1.2 needs to be told: codes outside the envelope namespace of SOAP 1.1 and
detail entries that can be written. -/
structure Writable (f : Fault12) : Prop where
  code : f.code.Tellable
  codeUri : f.code.namespaceUri ≠ SoapVersion.v11.envelopeUri
  subcodes : ∀ q ∈ f.subcodes, q.Tellable ∧ q.namespaceUri ≠ SoapVersion.v11.envelopeUri
  detail : ∀ e ∈ f.detail.getD [], e.Writable

theorem writable_textElement (t : ReasonText) : (textElement t).Writable := by
  have htag := Envelope.writable_tag .v12 (show isNCName "Text" = true by decide)
  refine Element.writable_telling.mpr ⟨htag.localPart, ?_, htag.prefixes, htag.consistent,
    htag.reservedXml, ?_, ?_, ?_⟩
  · intro a ha
    rw [List.mem_singleton.mp ha]
    exact (show isNCName "lang" = true by decide)
  · intro a ha
    rw [List.mem_singleton.mp ha]
    exact (Option.some_ne_none "xmlns").symm
  · exact List.pairwise_singleton _ _
  · intro a ha
    rw [List.mem_singleton.mp ha]
    exact (show (⟨xmlNamespace, "lang"⟩ : QName) ≠ .unqualified "xmlns" by decide)

theorem Writable.toElement {f : Fault12} (h : f.Writable) : f.toElement.Writable := by
  have hoptional : ∀ {part : String} {o : Option String}, isNCName part = true →
      ∀ e ∈ (o.map (Element.telling (Envelope.tag .v12 part))).toList, e.Writable := by
    intro part o hpart e he
    obtain ⟨s, _, rfl⟩ := Option.map_eq_some_iff.mp (Option.mem_toList.mp he)
    exact Element.writable_telling.mpr (Envelope.writable_tag .v12 hpart)
  rw [toElement_eq, parts, Element.writable_around]
  refine ⟨writable_rootTag .v12, ?_⟩
  simp only [List.forall_mem_cons, List.forall_mem_append]
  refine ⟨?_, ?_, hoptional (by decide), hoptional (by decide), ?_⟩
  · exact writable_coding (by decide) h.codeUri codeName_fc
      (writable_subcodeElement (fun q hq => (h.subcodes q hq).2) 0)
  · rw [Element.writable_around]
    refine ⟨Envelope.writable_tag .v12 (by decide), ?_⟩
    intro e he
    obtain ⟨t, _, rfl⟩ := List.mem_map.mp he
    exact writable_textElement t
  · exact writable_detailElement (Envelope.writable_tag .v12 (by decide)) h.detail

def received (f : Fault12) : Fault12 where
  code := f.code.told
  subcodes := f.subcodes.map QName.told
  reason := f.reason.map (fun t => { t with text := Text.trim t.text })
  node := f.node.map Text.trim
  role := f.role.map Text.trim
  detail := receivedDetail .v12 f.detail

abbrev inside : Scopes := [Envelope.frame .v12]

theorem child?_settle_toElement (f : Fault12) (part : String) :
    (f.toElement.settle []).child? (name part) = (f.parts.find? (·.name == name part)).map (·.settle inside) := by
  rw [toElement_eq, Element.child?_settle, writtenFrame_rootTag]

theorem find?_parts (f : Fault12) {part : String} (hcode : part ≠ "Code") (hreason : part ≠ "Reason") :
    f.parts.find? (·.name == name part) =
      ((if part = "Node" then f.node.map (Element.telling (Envelope.tag .v12 "Node")) else none).or
        ((if part = "Role" then f.role.map (Element.telling (Envelope.tag .v12 "Role")) else none).or
          (if part = "Detail" then detailElement (Envelope.tag .v12 "Detail") f.detail else none))) := by
  have hname : ∀ p : String, ((Envelope.tag .v12 p).name == name part) = decide (part = p) := by
    intro p
    refine decide_eq_decide.mpr ⟨fun h => (congrArg QName.localPart h).symm, ?_⟩
    rintro rfl
    rfl
  rw [parts, List.find?_cons_of_neg, List.find?_cons_of_neg, List.find?_append, List.find?_append,
    Element.find?_optional_telling (fun _ => hname "Node"), Element.find?_optional_telling (fun _ => hname "Role"),
    find?_detailElement (fun _ => hname "Detail")]
  · simp only [decide_eq_true_eq]
  · intro h
    exact hreason (of_decide_eq_true ((hname "Reason").symm.trans h))
  · intro h
    exact hcode (of_decide_eq_true ((hname "Code").symm.trans h))

/-- Reasons are read from elements that have the name, the language and the text of those that tell them. -/
theorem readReason_of_elements {e : Element} {texts : List ReasonText} (g : Element → Element)
    (hname : ∀ e, (g e).name = e.name)
    (hlang : ∀ t, (g (textElement t)).attribute? ⟨xmlNamespace, "lang"⟩ = some t.lang)
    (htext : ∀ t, (g (textElement t)).textContent = Text.trim t.text)
    (helements : e.elements = texts.map (g ∘ textElement)) :
    readReason e = texts.map (fun t => { t with text := Text.trim t.text }) := by
  have hfilter : (texts.map (g ∘ textElement)).filter (·.name = name "Text") = texts.map (g ∘ textElement) := by
    rw [List.filter_eq_self]
    intro e he
    obtain ⟨t, _, rfl⟩ := List.mem_map.mp he
    exact decide_eq_true (hname (textElement t))
  rw [readReason, helements, hfilter, List.map_map]
  refine List.map_congr_left (fun t _ => ?_)
  simp only [Function.comp_apply, hlang, htext, Option.getD_some]

theorem readReason_settle (texts : List ReasonText) (outer : Scopes) :
    readReason ((Element.around (Envelope.tag .v12 "Reason") (texts.map textElement)).settle outer) =
      texts.map (fun t => { t with text := Text.trim t.text }) := by
  refine readReason_of_elements (Element.settle ((Envelope.tag .v12 "Reason").writtenFrame outer :: outer))
    (fun _ => rfl) (fun _ => rfl)
    (fun t => Element.textContent_settle _ _ t.text) ?_
  rw [Element.settle_around, Element.elements_around, List.map_map]

theorem ofElement_settle {f : Fault12} (h : f.Writable) : ofElement (f.toElement.settle []) = .ok f.received := by
  have hname : (f.toElement.settle []).name = SoapVersion.v12.faultName := by
    rw [toElement_eq]
    rfl
  have hdeclarations : (f.toElement.settle []).declarations = Envelope.frame .v12 := by
    rw [Element.declarations_settle, toElement_eq]
    exact writtenFrame_rootTag .v12
  have hroot : scopesOf [f.toElement.settle []] = inside := by
    rw [scopesOf, List.reverse_singleton, List.map_singleton, hdeclarations]
  have hdefault := default_frame .v12
  have hcode : (f.toElement.settle []).child? (name "Code") =
      some ((coding "Code" f.code "fc" (subcodeElement 0 f.subcodes)).settle inside) := by
    rw [child?_settle_toElement, parts, List.find?_cons_of_pos (by rfl)]
    rfl
  have hreason : (f.toElement.settle []).child? (name "Reason") =
      some ((Element.around (Envelope.tag .v12 "Reason") (f.reason.map textElement)).settle inside) := by
    rw [child?_settle_toElement, parts, List.find?_cons_of_neg (by rintro ⟨⟩), List.find?_cons_of_pos (by rfl)]
    rfl
  have hnode : ((f.toElement.settle []).child? (name "Node")).map (·.textContent) = f.node.map Text.trim := by
    rw [child?_settle_toElement, find?_parts f (by decide) (by decide)]
    cases f.node <;> simp [Element.textContent_settle]
  have hrole : ((f.toElement.settle []).child? (name "Role")).map (·.textContent) = f.role.map Text.trim := by
    rw [child?_settle_toElement, find?_parts f (by decide) (by decide)]
    cases f.role <;> simp [Element.textContent_settle]
  have hdetail : ((f.toElement.settle []).child? (name "Detail")).map (readDetail (f.toElement.settle [])) =
      receivedDetail .v12 f.detail := by
    rw [child?_settle_toElement, find?_parts f (by decide) (by decide)]
    simpa using readDetail_settle (show (Envelope.tag .v12 "Detail").writtenFrame _ = [] by decide)
      hdeclarations f.detail
  have hvalue : readCode ([f.toElement.settle []] ++
    [(coding "Code" f.code "fc" (subcodeElement 0 f.subcodes)).settle inside] ++
      [(coded (Envelope.tag .v12 "Value") f.code "fc").settle (within "Code" inside)])
      ((coded (Envelope.tag .v12 "Value") f.code "fc").settle (within "Code" inside)) = .ok f.code.told := by
    refine readCode_settle h.code (holder_tag h.codeUri (by decide)) codeName_fc ?_
      (default_within (by decide) hdefault)
    rw [scopesOf_concat, hroot]
    rfl
  have hsubcodes := readSubcodes_settle h.subcodes 0 (show isNCName "Code" = true by decide) f.code "fc" hroot hdefault
  unfold ofElement
  rw [if_neg (not_not_intro hname), hcode, hreason, hnode, hrole, hdetail]
  rw [List.singleton_append] at hvalue hsubcodes
  simp only [require, child?_value, bind, Except.bind]
  rw [show [f.toElement.settle [], (coding "Code" f.code "fc" (subcodeElement 0 f.subcodes)).settle inside,
      (coded (Envelope.tag .v12 "Value") f.code "fc").settle (within "Code" inside)] =
    [f.toElement.settle [], (coding "Code" f.code "fc" (subcodeElement 0 f.subcodes)).settle inside] ++
      [(coded (Envelope.tag .v12 "Value") f.code "fc").settle (within "Code" inside)] from rfl, hvalue, hsubcodes,
    readReason_settle]
  rfl

end Fault12

namespace Fault11

def parts (f : Fault11) : List Element :=
  coded (plainTag "faultcode") f.code "fc" :: Element.telling (plainTag "faultstring") f.string ::
    ((f.actor.map (Element.telling (plainTag "faultactor"))).toList ++
      (detailElement (plainTag "detail") f.detail).toList)

theorem toElement_eq (f : Fault11) : f.toElement = .around (rootTag .v11) f.parts := by
  have hcode : ofCode (.unqualified "faultcode") f.code "fc" = coded (plainTag "faultcode") f.code "fc" :=
    ofCode_eq _ f.code (by decide)
  have hroot : root .v11 = .around (rootTag .v11) [] := rfl
  have hnamed : ∀ part, Element.named (.unqualified part) = .around (plainTag part) [] := fun _ => rfl
  simp only [toElement, hcode, hroot, hnamed, Element.push_around, Element.pushText_around_nil, pushOptional_around,
    pushDetail_around, parts, List.nil_append, List.cons_append]

structure Writable (f : Fault11) : Prop where
  code : f.code.Tellable
  detail : ∀ e ∈ f.detail.getD [], e.Writable

theorem holder_faultcode (q : QName) : Holder (plainTag "faultcode") q :=
  ⟨show isNCName "faultcode" = true by decide, rfl, .inl rfl⟩

theorem Writable.toElement {f : Fault11} (h : f.Writable) : f.toElement.Writable := by
  rw [toElement_eq, parts, Element.writable_around]
  refine ⟨writable_rootTag .v11, ?_⟩
  simp only [List.forall_mem_cons, List.forall_mem_append]
  refine ⟨writable_coded (holder_faultcode f.code) codeName_fc, ?_, ?_, ?_⟩
  · exact Element.writable_telling.mpr (writable_plainTag (by decide))
  · intro e he
    obtain ⟨s, _, rfl⟩ := Option.map_eq_some_iff.mp (Option.mem_toList.mp he)
    exact Element.writable_telling.mpr (writable_plainTag (by decide))
  · exact writable_detailElement (writable_plainTag (by decide)) h.detail

def received (f : Fault11) : Fault11 :=
  ⟨f.code.told, Text.trim f.string, f.actor.map Text.trim, receivedDetail .v11 f.detail⟩

abbrev inside : Scopes := [Envelope.frame .v11]

theorem childLocal?_settle_toElement (f : Fault11) (part : String) :
    (f.toElement.settle []).childLocal? part = (f.parts.find? (·.name.localPart == part)).map (·.settle inside) := by
  rw [toElement_eq, Element.childLocal?_settle, writtenFrame_rootTag]

theorem find?_parts (f : Fault11) {part : String} (hcode : part ≠ "faultcode") (hstring : part ≠ "faultstring") :
    f.parts.find? (·.name.localPart == part) =
      ((if part = "faultactor" then f.actor.map (Element.telling (plainTag "faultactor")) else none).or
        (if part = "detail" then detailElement (plainTag "detail") f.detail else none)) := by
  have hname : ∀ p : String, ((plainTag p).name.localPart == part) = decide (part = p) :=
    fun p => decide_eq_decide.mpr eq_comm
  rw [parts, List.find?_cons_of_neg, List.find?_cons_of_neg, List.find?_append,
    Element.find?_optional_telling (fun _ => hname "faultactor"), find?_detailElement (fun _ => hname "detail")]
  · simp only [decide_eq_true_eq]
  · intro h
    exact hstring (of_decide_eq_true ((hname "faultstring").symm.trans h))
  · intro h
    exact hcode (of_decide_eq_true ((hname "faultcode").symm.trans h))

theorem ofElement_settle {f : Fault11} (h : f.Writable) : ofElement (f.toElement.settle []) = .ok f.received := by
  have hname : (f.toElement.settle []).name = SoapVersion.v11.faultName := by
    rw [toElement_eq]
    rfl
  have hdeclarations : (f.toElement.settle []).declarations = Envelope.frame .v11 := by
    rw [Element.declarations_settle, toElement_eq]
    exact writtenFrame_rootTag .v11
  have hcode : (f.toElement.settle []).childLocal? "faultcode" =
      some ((coded (plainTag "faultcode") f.code "fc").settle inside) := by
    rw [childLocal?_settle_toElement, parts, List.find?_cons_of_pos (by rfl)]
    rfl
  have hstring : (f.toElement.settle []).childLocal? "faultstring" =
      some ((Element.telling (plainTag "faultstring") f.string).settle inside) := by
    rw [childLocal?_settle_toElement, parts, List.find?_cons_of_neg (by rintro ⟨⟩), List.find?_cons_of_pos (by rfl)]
    rfl
  have hactor : ((f.toElement.settle []).childLocal? "faultactor").map (·.textContent) = f.actor.map Text.trim := by
    rw [childLocal?_settle_toElement, find?_parts f (by decide) (by decide)]
    cases f.actor <;> simp [Element.textContent_settle]
  have hdetail : ((f.toElement.settle []).childLocal? "detail").map (readDetail (f.toElement.settle [])) =
      receivedDetail .v11 f.detail := by
    rw [childLocal?_settle_toElement, find?_parts f (by decide) (by decide)]
    simpa using readDetail_settle (show (plainTag "detail").writtenFrame _ = [] by decide) hdeclarations f.detail
  have hvalue : readCode ([f.toElement.settle []] ++ [(coded (plainTag "faultcode") f.code "fc").settle inside])
      ((coded (plainTag "faultcode") f.code "fc").settle inside) = .ok f.code.told := by
    refine readCode_settle h.code (holder_faultcode f.code) codeName_fc ?_ (default_frame .v11)
    rw [scopesOf, List.reverse_singleton, List.map_singleton, hdeclarations]
  rw [List.singleton_append] at hvalue
  unfold ofElement
  rw [if_neg (not_not_intro hname), hcode, hstring, hactor, hdetail]
  simp only [require, bind, Except.bind]
  rw [hvalue, Element.textContent_settle]
  rfl

end Fault11

namespace SoapFault

def Writable : SoapFault → Prop
  | v11 f => f.Writable
  | v12 f => f.Writable

def received : SoapFault → SoapFault
  | v11 f => .v11 f.received
  | v12 f => .v12 f.received

theorem Writable.toElement {f : SoapFault} (h : f.Writable) : f.toElement.Writable := by
  cases f with
  | v11 f => exact Fault11.Writable.toElement h
  | v12 f => exact Fault12.Writable.toElement h

theorem tag_toElement (f : SoapFault) : f.toElement.tag = rootTag f.version := by
  cases f with
  | v11 f => exact congrArg Element.tag f.toElement_eq
  | v12 f => exact congrArg Element.tag f.toElement_eq

theorem ofElement_settle {f : SoapFault} (h : f.Writable) : ofElement (f.toElement.settle []) = .ok f.received := by
  have hname : (f.toElement.settle []).name.namespaceUri = f.version.envelopeUri := by
    rw [Element.name_settle, Element.name, tag_toElement]
    rfl
  unfold ofElement
  rw [hname, SoapVersion.ofUri?_envelopeUri]
  cases f with
  | v11 f => exact congrArg (Except.map v11) (Fault11.ofElement_settle h)
  | v12 f => exact congrArg (Except.map v12) (Fault12.ofElement_settle h)

end SoapFault

end SoapNode
