import SoapNode.Proofs.Soap.EnvelopeTags
import SoapNode.Proofs.Xml.Resolution
import SoapNode.Proofs.Xml.Shapes

/-!
# Codes in the text of elements

A code is written as a prefix and a local part in the text of an element that declares the prefix.
Reading trims the text and looks the prefix up on the way down to the element. What is found there is
the written code with its local part trimmed, however deep the element stands, as long as no default
namespace is in scope.
-/

namespace SoapNode

namespace QName

/-- The name that is read where this one was told: trimming cuts the end of the local part, and its
beginning where no prefix stands in front. -/
def told (q : QName) : QName where
  namespaceUri := q.namespaceUri
  localPart := if q.namespaceUri = "" then Text.trim q.localPart else String.ofList (Text.trimEnd q.localPart.toList)

/-- A name that can be told: without a prefix in front, its first colon would be read as one. -/
def Tellable (q : QName) : Prop := q.namespaceUri = "" → ':' ∉ q.localPart.toList

instance (q : QName) : Decidable q.Tellable := inferInstanceAs (Decidable (_ → _))

theorem tellable_of_isNCName {q : QName} (h : isNCName q.localPart = true) : q.Tellable := fun _ => Name.colon_not_mem h

@[simp] theorem told_told (q : QName) : q.told.told = q.told := by
  by_cases huri : q.namespaceUri = ""
  · simp [told, huri]
  · simp [told, huri]

theorem told_of_unqualified {q : QName} (h : q.namespaceUri = "") : q.told = ⟨"", Text.trim q.localPart⟩ := by
  rw [told, if_pos h, h]

theorem told_of_qualified {q : QName} (h : q.namespaceUri ≠ "") :
    q.told = ⟨q.namespaceUri, String.ofList (Text.trimEnd q.localPart.toList)⟩ := by
  rw [told, if_neg h]

theorem colon_not_mem_trim {s : String} (h : ':' ∉ s.toList) : ':' ∉ (Text.trim s).toList := by
  intro hmem
  rw [Text.toList_trim, Text.trimChars, Text.trimEnd_eq_rdropWhile] at hmem
  have hstart := (List.rdropWhile_prefix Text.isBlank _).subset hmem
  exact h ((List.dropWhile_sublist Text.isBlank).subset hstart)

theorem Tellable.told {q : QName} (h : q.Tellable) : q.told.Tellable := by
  intro huri
  have hq := told_of_unqualified (q := q) huri
  rw [hq]
  exact colon_not_mem_trim (h huri)

end QName

namespace Scopes

/-- A frame that binds the empty prefix to nothing else than no namespace. -/
def Plain (frame : List PrefixBinding) : Prop := ∀ b ∈ frame, b.1 = "" → b.2 = ""

theorem resolve_default_cons {frame : List PrefixBinding} (h : Plain frame) {outer : Scopes}
    (houter : (outer.resolve "").getD "" = "") : (Scopes.resolve (frame :: outer) "").getD "" = "" := by
  rw [resolve_cons _ _ (by decide)]
  cases hlookup : frame.reverse.lookup "" with
  | none => exact houter
  | some uri => exact h ("", uri) (List.mem_reverse.mp (mem_of_lookup hlookup)) rfl

end Scopes

open StartTag Name

namespace FaultElement

def codePrefix (p : String) (q : QName) : String :=
  if (SoapVersion.ofUri? q.namespaceUri).isSome then envelopePrefix else if q.namespaceUri.isEmpty then "" else p

def codeBindings (p : String) (q : QName) : List PrefixBinding :=
  if codePrefix p q = "" then [] else [(codePrefix p q, q.namespaceUri)]

def codeText (p : String) (q : QName) : String :=
  if codePrefix p q = "" then q.localPart else codePrefix p q ++ ":" ++ q.localPart

def coded (t : StartTag) (q : QName) (p : String) : Element :=
  .telling { t with declarations := codeBindings p q } (codeText p q)

theorem ofCode_eq (name q : QName) {p : String} (hp : p ≠ "") :
    ofCode name q p = coded ⟨name, none, [], []⟩ q p := by
  have henvelope : envelopePrefix ≠ "" := by decide
  by_cases hsome : (SoapVersion.ofUri? q.namespaceUri).isSome = true
  · simp only [ofCode, coded, codeBindings, codeText, codePrefix, hsome, if_true, henvelope, if_false]
    rfl
  · by_cases hempty : q.namespaceUri = ""
    · have hwritten : codePrefix p q = "" := by
        rw [codePrefix, if_neg hsome, if_pos (by simpa using hempty)]
      rw [coded, codeBindings, codeText, if_pos hwritten, if_pos hwritten]
      simp only [ofCode, hempty, String.isEmpty_iff, if_true]
      rfl
    · simp only [ofCode, coded, codeBindings, codeText, codePrefix, hsome, hempty, String.isEmpty_iff, hp, if_false,
        Bool.false_eq_true]
      rfl

/-- A code is written with the envelope prefix, with the given one, or with none in no namespace. -/
inductive CodePrefix (p : String) (q : QName) : Prop where
  | envelope (uri : (SoapVersion.ofUri? q.namespaceUri).isSome = true) (written : codePrefix p q = envelopePrefix)
  | none (uri : q.namespaceUri = "") (written : codePrefix p q = "")
  | given (written : codePrefix p q = p)

theorem codePrefix_cases (p : String) (q : QName) : CodePrefix p q := by
  by_cases hsome : (SoapVersion.ofUri? q.namespaceUri).isSome = true
  · exact .envelope hsome (if_pos hsome)
  · by_cases hempty : q.namespaceUri = ""
    · refine .none hempty ?_
      rw [codePrefix, if_neg hsome, hempty]
      rfl
    · refine .given ?_
      rw [codePrefix, if_neg hsome, if_neg (by simpa using hempty)]

/-- The prefix of a code is a name that is not reserved, and its first character is not blank. -/
structure CodeName (p : String) : Prop where
  ncName : isNCName p = true
  notXml : p ≠ "xml"
  notEnvelope : p ≠ envelopePrefix
  first : ∀ c ∈ p.toList.head?, Text.isBlank c = false

theorem mem_codeBindings {p : String} {q : QName} {b : PrefixBinding} (h : b ∈ codeBindings p q) :
    b = (codePrefix p q, q.namespaceUri) ∧ codePrefix p q ≠ "" := by
  unfold codeBindings at h
  split at h
  · cases h
  · exact ⟨List.mem_singleton.mp h, ‹_›⟩

theorem isNCName_codePrefix {p : String} (hp : CodeName p) {q : QName} (h : codePrefix p q ≠ "") :
    isNCName (codePrefix p q) = true := by
  cases codePrefix_cases p q with
  | envelope _ written =>
    rw [written]
    decide
  | none _ written => exact absurd written h
  | given written =>
    rw [written]
    exact hp.ncName

theorem codePrefix_ne_xml {p : String} (hp : CodeName p) (q : QName) : codePrefix p q ≠ "xml" := by
  cases codePrefix_cases p q with
  | envelope _ written =>
    rw [written]
    decide
  | none _ written =>
    rw [written]
    decide
  | given written =>
    rw [written]
    exact hp.notXml

/-- A tag that can hold a code: its own prefix is none, in no namespace, or that of the envelope, where a
code in an envelope namespace has to be in the same one. -/
structure Holder (t : StartTag) (q : QName) : Prop where
  localPart : isNCName t.name.localPart = true
  attributes : t.attributes = []
  own : t.nameBinding = ("", "") ∨ t.writtenPrefix = envelopePrefix ∧
    ((SoapVersion.ofUri? q.namespaceUri).isSome = true → q.namespaceUri = t.name.namespaceUri)

theorem mem_bindings_coded {t : StartTag} {q : QName} {p : String} (ht : Holder t q) {b : PrefixBinding}
    (hb : b ∈ (coded t q p).tag.bindings) :
    b = (codePrefix p q, q.namespaceUri) ∧ codePrefix p q ≠ "" ∨ b = t.nameBinding := by
  rcases List.mem_append.mp hb with hb | hb
  · exact .inl (mem_codeBindings hb)
  · rcases List.mem_cons.mp hb with hb | hb
    · exact .inr hb
    · simp [attributeBindings, coded, Element.telling, ht.attributes] at hb

theorem Holder.meaning {t : StartTag} {q : QName} (ht : Holder t q) {p : String} (hp : CodeName p)
    (hne : codePrefix p q ≠ "") (heq : codePrefix p q = t.nameBinding.1) : q.namespaceUri = t.nameBinding.2 := by
  rcases ht.own with hnone | ⟨hwritten, hsame⟩
  · rw [hnone] at heq
    exact absurd heq hne
  · cases codePrefix_cases p q with
    | envelope uri _ => exact hsame uri
    | none _ written => exact absurd written hne
    | given written => exact absurd ((written.symm.trans heq).trans hwritten) hp.notEnvelope

theorem writable_coded {t : StartTag} {q : QName} {p : String} (ht : Holder t q) (hp : CodeName p) :
    (coded t q p).Writable := by
  have hown : (t.nameBinding.1 = "" ∨ isNCName t.nameBinding.1 = true) ∧ t.nameBinding.1 ≠ "xml" := by
    rcases ht.own with hnone | ⟨hwritten, _⟩
    · rw [hnone]
      decide
    · rw [show t.nameBinding.1 = envelopePrefix from hwritten]
      decide
  refine Element.writable_telling.mpr ⟨ht.localPart, by simp [ht.attributes], ?_, ?_, ?_, by simp [ht.attributes],
    by simp [ht.attributes], by simp [ht.attributes]⟩
  · intro b hb
    rcases mem_bindings_coded ht hb with ⟨rfl, hne⟩ | rfl
    · exact .inr (isNCName_codePrefix hp hne)
    · exact hown.1
  · intro b hb c hc heq
    rcases mem_bindings_coded ht hb with ⟨rfl, hne⟩ | rfl
    · rcases mem_bindings_coded ht hc with ⟨rfl, _⟩ | rfl
      · rfl
      · exact ht.meaning hp hne heq
    · rcases mem_bindings_coded ht hc with ⟨rfl, hne⟩ | rfl
      · exact (ht.meaning hp hne heq.symm).symm
      · rfl
  · intro b hb hb1
    rcases mem_bindings_coded ht hb with ⟨rfl, _⟩ | rfl
    · exact absurd hb1 (codePrefix_ne_xml hp q)
    · exact absurd hb1 hown.2

theorem namespaceUri_of_codePrefix_eq {p : String} (hp : CodeName p) {q : QName} (h : codePrefix p q = "") :
    q.namespaceUri = "" := by
  cases codePrefix_cases p q with
  | envelope _ written => exact absurd (written.symm.trans h) (by decide)
  | none uri _ => exact uri
  | given written => exact absurd (written.symm.trans h) (ne_empty hp.ncName)

theorem namespaceUri_of_codePrefix_ne {p : String} {q : QName} (h : codePrefix p q ≠ "") : q.namespaceUri ≠ "" := by
  intro huri
  apply h
  rw [codePrefix, huri, if_neg (by decide), if_pos (by decide)]

theorem first_codePrefix {p : String} (hp : CodeName p) {q : QName} (h : codePrefix p q ≠ "") :
    ∀ c ∈ (codePrefix p q).toList.head?, Text.isBlank c = false := by
  cases codePrefix_cases p q with
  | envelope _ written =>
    rw [written]
    intro c hc
    obtain rfl : 'S' = c := Option.some_inj.mp hc
    decide
  | none _ written => exact absurd written h
  | given written =>
    rw [written]
    exact hp.first

theorem trim_codeText {p : String} (hp : CodeName p) {q : QName} (h : codePrefix p q ≠ "") :
    Text.trim (codeText p q) = codePrefix p q ++ ":" ++ String.ofList (Text.trimEnd q.localPart.toList) := by
  have hne := toList_ne_nil (isNCName_codePrefix hp h)
  have hfirst : ∀ c ∈ (codePrefix p q ++ ":").toList.head?, Text.isBlank c = false := by
    rw [String.toList_append, List.head?_append_of_ne_nil _ hne]
    exact first_codePrefix hp h
  have hlast : ∀ c ∈ (codePrefix p q ++ ":").toList.getLast?, Text.isBlank c = false := by
    rw [String.toList_append, List.getLast?_append_of_ne_nil _ (by decide)]
    intro c hc
    obtain rfl : ':' = c := Option.some_inj.mp hc
    decide
  apply String.toList_injective
  rw [Text.toList_trim, codeText, if_neg h, String.toList_append, Text.trimChars_append (by simp) hfirst hlast]
  simp

theorem plain_coded {t : StartTag} {q : QName} {p : String} (ht : Holder t q) {frame : List PrefixBinding}
    (hframe : Fits (coded t q p).tag frame) : Scopes.Plain frame := by
  intro b hb hb1
  rcases mem_bindings_coded ht (hframe.subset b hb) with ⟨rfl, hne⟩ | rfl
  · exact absurd hb1 hne
  · rcases ht.own with hnone | ⟨hwritten, _⟩
    · rw [hnone]
    · exact absurd (hwritten.symm.trans hb1) (by decide)

/-- A code is read wherever its prefix is bound to its namespace, or, without a prefix, nothing is bound by default. -/
theorem readCode_of_bound {q : QName} {p : String} (hq : q.Tellable)
    (hp : CodeName p) {e : Element} {path : List Element} (htext : e.textContent = Text.trim (codeText p q))
    (hbound : codePrefix p q ≠ "" → (scopesOf path).resolve (codePrefix p q) = some q.namespaceUri)
    (hdefault : codePrefix p q = "" → ((scopesOf path).resolve "").getD "" = "") : readCode path e = .ok q.told := by
  have hresolve : resolveQName (Text.trim (codeText p q)) path = some q.told := by
    by_cases hempty : codePrefix p q = ""
    · have huri := namespaceUri_of_codePrefix_eq hp hempty
      have hsplit : splitQualified (Text.trim (Text.trim (codeText p q))) = (none, Text.trim q.localPart) := by
        rw [Text.trim_trim, codeText, if_pos hempty, splitQualified_of_not_mem (QName.colon_not_mem_trim (hq huri))]
      rw [resolveQName_default hsplit rfl, hdefault hempty, QName.told_of_unqualified huri]
    · have hsplit : splitQualified (Text.trim (Text.trim (codeText p q))) =
          (some (codePrefix p q), String.ofList (Text.trimEnd q.localPart.toList)) := by
        rw [Text.trim_trim, trim_codeText hp hempty,
          splitQualified_append (colon_not_mem (isNCName_codePrefix hp hempty))]
      rw [resolveQName_prefixed hsplit hempty, Option.getD_some, hbound hempty, Option.map_some,
        QName.told_of_qualified (namespaceUri_of_codePrefix_ne hempty)]
  unfold readCode
  rw [htext, hresolve]

/-- A settled code is read against the declarations it was written with. -/
theorem readCode_settle {t : StartTag} {q : QName} {p : String} (hq : q.Tellable) (ht : Holder t q) (hp : CodeName p)
    {path : List Element} {outer : Scopes} (hpath : scopesOf path = outer)
    (hdefault : (outer.resolve "").getD "" = "") :
    readCode (path ++ [(coded t q p).settle outer]) ((coded t q p).settle outer) = .ok q.told := by
  have hd := declares_writtenFrame (writable_coded ht hp).1 outer
  have hscopes : scopesOf (path ++ [(coded t q p).settle outer]) = (coded t q p).tag.writtenFrame outer :: outer := by
    rw [scopesOf_concat, hpath, Element.declarations_settle]
  refine readCode_of_bound hq hp (Element.textContent_settle _ _ _) (fun hempty => ?_) (fun _ => ?_)
  · have hmem : (codePrefix p q, q.namespaceUri) ∈ (coded t q p).tag.declarations := by
      simp [coded, Element.telling, codeBindings, hempty]
    rw [hscopes]
    exact hd.declared _ hmem
  · rw [hscopes]
    exact Scopes.resolve_default_cons (plain_coded ht hd.fits) hdefault

end FaultElement

end SoapNode
