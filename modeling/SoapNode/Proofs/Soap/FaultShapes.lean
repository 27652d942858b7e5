import SoapNode.Proofs.Soap.FaultElement

/-!
# Faults are read from their own elements

The element of a fault need not be written to be read. Each code is bound on the element that holds it,
innermost on the way down, so it is read as it was told in whatever namespace it is, and at whatever
depth. A fault whose texts and names have no white space around them is itself again.
-/

namespace SoapNode

open StartTag Name

namespace QName

/-- A name that is read as it was told. -/
structure Tidy (q : QName) : Prop where
  tellable : q.Tellable
  trimmed : Text.Trimmed q.localPart.toList

instance (q : QName) : Decidable q.Tidy :=
  decidable_of_iff (q.Tellable ∧ Text.Trimmed q.localPart.toList) ⟨fun ⟨a, b⟩ => ⟨a, b⟩,
    fun ⟨a, b⟩ => ⟨a, b⟩⟩

theorem Tidy.told_eq {q : QName} (h : q.Tidy) : q.told = q := by
  by_cases huri : q.namespaceUri = ""
  · rw [told_of_unqualified huri, h.trimmed.trim_eq, ← huri]
  · rw [told_of_qualified huri, Text.trimEnd_eq_self h.trimmed.last, String.ofList_toList]

theorem map_told_eq {qs : List QName} (h : ∀ q ∈ qs, q.Tidy) : qs.map told = qs := by
  rw [List.map_congr_left (fun q hq => (h q hq).told_eq), List.map_id']

end QName

namespace FaultElement

theorem readCode_coded {q : QName} {p : String} (hq : q.Tellable) (hp : CodeName p) (t : StartTag) {path : List Element}
    (hdefault : ((scopesOf path).resolve "").getD "" = "") :
    readCode (path ++ [coded t q p]) (coded t q p) = .ok q.told := by
  have hscopes : scopesOf (path ++ [coded t q p]) = codeBindings p q :: scopesOf path := scopesOf_concat path _
  refine readCode_of_bound hq hp (Element.textContent_telling _ _) (fun hempty => ?_) (fun hempty => ?_)
  · rw [hscopes, codeBindings, if_neg hempty, Scopes.resolve_cons _ _ (codePrefix_ne_xml hp q), List.reverse_singleton,
      List.lookup_cons_self, Option.some_or]
  · rw [hscopes, codeBindings, if_pos hempty, Scopes.resolve_cons_nil]
    exact hdefault

theorem default_concat {e : Element} {path : List Element} (he : e.declarations = [])
    (h : ((scopesOf path).resolve "").getD "" = "") : ((scopesOf (path ++ [e])).resolve "").getD "" = "" := by
  rw [scopesOf_concat, he, Scopes.resolve_cons_nil]
  exact h

/-- The entries as they are taken out of a fault. -/
def takenDetail (v : SoapVersion) (entries : Option (List Element)) : Option (List Element) :=
  (entries.filter (!·.isEmpty)).map (·.map (·.inherit (Envelope.frame v)))

theorem readDetail_detailElement {v : SoapVersion} {tag : StartTag} (htag : tag.declarations = []) {fault : Element}
    (hfault : fault.declarations = Envelope.frame v) (entries : Option (List Element)) :
    (detailElement tag entries).map (readDetail fault) = takenDetail v entries := by
  match entries with
  | none => rfl
  | some [] => rfl
  | some (e :: es) =>
    have hdetail : detailElement tag (some (e :: es)) = some (.around tag (e :: es)) := rfl
    have hdeclarations : (Element.around tag (e :: es)).declarations = [] := htag
    rw [hdetail, Option.map_some, readDetail, Element.elements_around, hdeclarations, List.nil_append, hfault]
    rfl

/-- Taking entries out gives them bindings and changes nothing else of them. -/
theorem erase_takenDetail (v : SoapVersion) {entries : Option (List Element)} (h : entries ≠ some []) :
    (takenDetail v entries).map (·.map Element.erase) = entries.map (·.map Element.erase) := by
  match entries with
  | none => rfl
  | some [] => exact absurd rfl h
  | some (e :: es) => simp [takenDetail, Function.comp_def, Element.erase_inherit]

end FaultElement

open FaultElement

namespace Fault12

theorem child?_coding_value (part : String) (q : QName) (p : String) (inner : Option Element) :
    (coding part q p inner).child? (name "Value") = some (coded (Envelope.tag .v12 "Value") q p) :=
  Element.child?_around_self (Envelope.tag .v12 part) (coded (Envelope.tag .v12 "Value") q p) inner.toList

theorem child?_coding_subcode (part : String) (q : QName) (p : String) (inner : Option Element)
    (h : ∀ e ∈ inner, e.name = name "Subcode") : (coding part q p inner).child? (name "Subcode") = inner := by
  have hvalue : (coded (Envelope.tag .v12 "Value") q p).name ≠ name "Subcode" :=
    show name "Value" ≠ name "Subcode" by decide
  rw [coding, Element.child?_around_of_ne hvalue, Element.child?, Element.elements_around]
  exact Element.find?_optional (b := true) (fun e he => by simp [h e he])

/-- The subcodes below a Code or Subcode element are the ones that were told, in order. -/
theorem readSubcodes_coding {qs : List QName} (hqs : ∀ q ∈ qs, q.Tellable) (depth : Nat) (part : String)
    (q : QName) (p : String) {path : List Element} (hdefault : ((scopesOf path).resolve "").getD "" = "") :
    readSubcodes (path ++ [coding part q p (subcodeElement depth qs)]) (coding part q p (subcodeElement depth qs)) =
      .ok (qs.map QName.told) := by
  have hsub := child?_coding_subcode part q p (subcodeElement depth qs) (fun e he => name_subcodeElement he)
  have hinside := default_concat (e := coding part q p (subcodeElement depth qs)) rfl hdefault
  induction qs generalizing depth part q p path with
  | nil => exact readSubcodes_of_none hsub
  | cons q' qs ih =>
    obtain ⟨hq', hqs⟩ := List.forall_mem_cons.mp hqs
    rw [subcodeElement_cons] at hsub hinside ⊢
    -- the path has grown by the Subcode element, which declares nothing
    have hdeeper := default_concat (e := coding "Subcode" q' s!"sc{depth}" (subcodeElement (depth + 1) qs)) rfl hinside
    have hread := readCode_coded hq' (codeName_sc depth) (Envelope.tag .v12 "Value") hdeeper
    rw [List.append_assoc] at hread
    rw [readSubcodes_of_some hsub (child?_coding_value _ _ _ _) hread,
      ih hqs (depth + 1) "Subcode" q' _ hinside
        (child?_coding_subcode _ _ _ _ (fun e he => name_subcodeElement he)) hdeeper]
    rfl

/-- The fault as it is taken out of its element. -/
def taken (f : Fault12) : Fault12 := { f.received with detail := takenDetail .v12 f.detail }

theorem child?_toElement (f : Fault12) (part : String) :
    f.toElement.child? (name part) = f.parts.find? (·.name == name part) := by
  rw [toElement_eq, Element.child?, Element.elements_around]

theorem ofElement_toElement {f : Fault12} (hcode : f.code.Tellable) (hsubcodes : ∀ q ∈ f.subcodes, q.Tellable) :
    ofElement f.toElement = .ok f.taken := by
  have hname : f.toElement.name = SoapVersion.v12.faultName := by
    rw [toElement_eq]
    rfl
  have hdeclarations : f.toElement.declarations = Envelope.frame .v12 := by
    rw [toElement_eq]
    rfl
  have hroot : ((scopesOf [f.toElement]).resolve "").getD "" = "" := by
    rw [scopesOf, List.reverse_singleton, List.map_singleton, hdeclarations]
    exact default_frame .v12
  have hcodeElement : f.toElement.child? (name "Code") =
      some (coding "Code" f.code "fc" (subcodeElement 0 f.subcodes)) := by
    rw [child?_toElement, parts, List.find?_cons_of_pos (by rfl)]
  have hreason : f.toElement.child? (name "Reason") =
      some (.around (Envelope.tag .v12 "Reason") (f.reason.map textElement)) := by
    rw [child?_toElement, parts, List.find?_cons_of_neg (by rintro ⟨⟩), List.find?_cons_of_pos (by rfl)]
  have hnode : (f.toElement.child? (name "Node")).map (·.textContent) = f.node.map Text.trim := by
    rw [child?_toElement, find?_parts f (by decide) (by decide)]
    cases f.node <;> simp [Element.textContent_telling]
  have hrole : (f.toElement.child? (name "Role")).map (·.textContent) = f.role.map Text.trim := by
    rw [child?_toElement, find?_parts f (by decide) (by decide)]
    cases f.role <;> simp [Element.textContent_telling]
  have hdetail : (f.toElement.child? (name "Detail")).map (readDetail f.toElement) = takenDetail .v12 f.detail := by
    rw [child?_toElement, find?_parts f (by decide) (by decide)]
    simpa using readDetail_detailElement (show (Envelope.tag .v12 "Detail").declarations = [] from rfl)
      hdeclarations f.detail
  have htexts : readReason (.around (Envelope.tag .v12 "Reason") (f.reason.map textElement)) =
      f.reason.map (fun t => { t with text := Text.trim t.text }) :=
    readReason_of_elements id (fun _ => rfl) (fun _ => rfl) (fun t => Element.textContent_telling _ t.text)
      (Element.elements_around _ _)
  have hinside := default_concat (e := coding "Code" f.code "fc" (subcodeElement 0 f.subcodes)) rfl hroot
  have hvalue := readCode_coded hcode codeName_fc (Envelope.tag .v12 "Value") hinside
  have hread := readSubcodes_coding hsubcodes 0 "Code" f.code "fc" hroot
  simp only [List.cons_append, List.nil_append] at hvalue hread
  unfold ofElement
  rw [if_neg (not_not_intro hname), hcodeElement, hreason, hnode, hrole, hdetail]
  simp only [require, child?_coding_value, bind, Except.bind]
  rw [hvalue, hread, htexts]
  rfl

/-- A fault that is itself again when it is read: its names and texts have no white space around them, a name in no
namespace has no colon, and there is a detail only with entries in it. -/
structure Tidy (f : Fault12) : Prop where
  code : f.code.Tidy
  subcodes : ∀ q ∈ f.subcodes, q.Tidy
  reason : ∀ t ∈ f.reason, Text.Trimmed t.text.toList
  node : ∀ s ∈ f.node, Text.Trimmed s.toList
  role : ∀ s ∈ f.role, Text.Trimmed s.toList
  detail : f.detail ≠ some []

instance (f : Fault12) : Decidable f.Tidy :=
  decidable_of_iff (f.code.Tidy ∧ (∀ q ∈ f.subcodes, q.Tidy) ∧
    (∀ t ∈ f.reason, Text.Trimmed t.text.toList) ∧
      (∀ s ∈ f.node, Text.Trimmed s.toList) ∧ (∀ s ∈ f.role, Text.Trimmed s.toList) ∧ f.detail ≠ some [])
    ⟨fun ⟨a, b, c, d, e, f⟩ => ⟨a, b, c, d, e, f⟩, fun ⟨a, b, c, d, e, f⟩ => ⟨a, b, c, d, e, f⟩⟩

theorem Tidy.received_eq {f : Fault12} (h : f.Tidy) :
    f.received = { f with detail := receivedDetail .v12 f.detail } := by
  have hreason : f.reason.map (fun t => { t with text := Text.trim t.text }) = f.reason := by
    refine (List.map_congr_left (fun t ht => ?_)).trans (List.map_id' f.reason)
    rw [(h.reason t ht).trim_eq]
  rw [received, h.code.told_eq, QName.map_told_eq h.subcodes, hreason, Text.map_trim_eq h.node, Text.map_trim_eq h.role]

theorem Tidy.erase_taken {f : Fault12} (h : f.Tidy) : f.taken.erase = f.erase := by
  rw [taken, h.received_eq, erase, erase, erase_takenDetail .v12 h.detail]

end Fault12

namespace Fault11

def taken (f : Fault11) : Fault11 := { f.received with detail := takenDetail .v11 f.detail }

theorem childLocal?_toElement (f : Fault11) (part : String) :
    f.toElement.childLocal? part = f.parts.find? (·.name.localPart == part) := by
  rw [toElement_eq, Element.childLocal?, Element.elements_around]

theorem ofElement_toElement {f : Fault11} (hcode : f.code.Tellable) : ofElement f.toElement = .ok f.taken := by
  have hname : f.toElement.name = SoapVersion.v11.faultName := by
    rw [toElement_eq]
    rfl
  have hdeclarations : f.toElement.declarations = Envelope.frame .v11 := by
    rw [toElement_eq]
    rfl
  have hroot : ((scopesOf [f.toElement]).resolve "").getD "" = "" := by
    rw [scopesOf, List.reverse_singleton, List.map_singleton, hdeclarations]
    exact default_frame .v11
  have hcodeElement : f.toElement.childLocal? "faultcode" = some (coded (plainTag "faultcode") f.code "fc") := by
    rw [childLocal?_toElement, parts, List.find?_cons_of_pos (by rfl)]
  have hstring : f.toElement.childLocal? "faultstring" = some (.telling (plainTag "faultstring") f.string) := by
    rw [childLocal?_toElement, parts, List.find?_cons_of_neg (by rintro ⟨⟩), List.find?_cons_of_pos (by rfl)]
  have hactor : (f.toElement.childLocal? "faultactor").map (·.textContent) = f.actor.map Text.trim := by
    rw [childLocal?_toElement, find?_parts f (by decide) (by decide)]
    cases f.actor <;> simp [Element.textContent_telling]
  have hdetail : (f.toElement.childLocal? "detail").map (readDetail f.toElement) = takenDetail .v11 f.detail := by
    rw [childLocal?_toElement, find?_parts f (by decide) (by decide)]
    simpa using readDetail_detailElement (show (plainTag "detail").declarations = [] from rfl) hdeclarations f.detail
  have hvalue := readCode_coded hcode codeName_fc (plainTag "faultcode") hroot
  rw [List.singleton_append] at hvalue
  unfold ofElement
  rw [if_neg (not_not_intro hname), hcodeElement, hstring, hactor, hdetail]
  simp only [require, bind, Except.bind]
  rw [hvalue, Element.textContent_telling]
  rfl

structure Tidy (f : Fault11) : Prop where
  code : f.code.Tidy
  string : Text.Trimmed f.string.toList
  actor : ∀ s ∈ f.actor, Text.Trimmed s.toList
  detail : f.detail ≠ some []

instance (f : Fault11) : Decidable f.Tidy :=
  decidable_of_iff (f.code.Tidy ∧ Text.Trimmed f.string.toList ∧
    (∀ s ∈ f.actor, Text.Trimmed s.toList) ∧ f.detail ≠ some [])
    ⟨fun ⟨a, b, c, d⟩ => ⟨a, b, c, d⟩, fun ⟨a, b, c, d⟩ => ⟨a, b, c, d⟩⟩

theorem Tidy.erase_taken {f : Fault11} (h : f.Tidy) : f.taken.erase = f.erase := by
  rw [taken, received, h.code.told_eq, h.string.trim_eq, Text.map_trim_eq h.actor, erase, erase,
    erase_takenDetail .v11 h.detail]

end Fault11

namespace SoapFault

/-- A fault of either version is itself again when it is read from its element, field for field, whatever namespaces its
codes are in. Detail entries are the same elements, with the bindings that they were taken out with. -/
theorem ofElement_toElement_tidy :
    (∀ f : Fault12, f.Tidy → ∃ g, Fault12.ofElement f.toElement = .ok g ∧ g.erase = f.erase) ∧
      ∀ f : Fault11, f.Tidy → ∃ g, Fault11.ofElement f.toElement = .ok g ∧ g.erase = f.erase := by
  constructor
  · intro f hf
    exact ⟨f.taken, Fault12.ofElement_toElement hf.code.tellable (fun q hq => (hf.subcodes q hq).tellable),
      hf.erase_taken⟩
  · intro f hf
    exact ⟨f.taken, Fault11.ofElement_toElement hf.code.tellable, hf.erase_taken⟩

/-- Codes in both envelope namespaces, in none and in another one, where a colon is a part of the name. -/
def mixed12 : Fault12 where
  code := SoapVersion.v11.clientCode
  subcodes := [SoapVersion.v12.serverCode, .unqualified "late", ⟨"urn:codes", "order:late"⟩]
  reason := [⟨"en", "too late"⟩, ⟨"", ""⟩]
  node := some "urn:node"
  role := none
  detail := some [(Element.named ⟨"urn:orders", "Order"⟩).declare "S" "urn:orders"]

def mixed11 : Fault11 := ⟨SoapVersion.v12.clientCode, "too late", some "urn:actor", none⟩

theorem ofElement_toElement_mixed :
    mixed12.Tidy ∧ (∃ g, Fault12.ofElement mixed12.toElement = .ok g ∧ g.erase = mixed12.erase) ∧
      mixed11.Tidy ∧ ∃ g, Fault11.ofElement mixed11.toElement = .ok g ∧ g.erase = mixed11.erase := by
  have h12 : mixed12.Tidy := by decide
  have h11 : mixed11.Tidy := by decide
  exact ⟨h12, ofElement_toElement_tidy.1 mixed12 h12, h11, ofElement_toElement_tidy.2 mixed11 h11⟩

end SoapFault

end SoapNode
