import Mathlib.Data.List.Forall2
import SoapNode.Proofs.Message.Sections
import SoapNode.Proofs.Xml.Meaning

/-!
# What is taken out of a document keeps its meaning

The header blocks and the payload of an envelope, and the detail entries of a fault, are taken out with the
bindings in scope where they stand. In a document that is well-formed as to namespaces, the text of a
qualified name anywhere in them means afterwards what it meant in the document.
-/

namespace SoapNode

open Element

namespace FaultElement

variable {fault detail : Element}

theorem keepsMeaning_detail (h : fault.Stands []) (hdetail : detail ∈ fault.elements) :
    List.Forall₂ (KeepsMeaning [fault, detail]) detail.elements (readDetail fault detail) := by
  rw [readDetail, List.forall₂_map_right_iff, List.forall₂_same]
  intro entry hentry
  have hstands := h.of_mem hdetail
  exact keepsMeaning_inherit (hstands.of_mem hentry)
    (merges_of_lookup h.1.wellFormed hstands.1.wellFormed (fun p => List.lookup_append))

end FaultElement

theorem Fault11.detail_of_ofElement {e : Element} {f : Fault11} (h : ofElement e = .ok f) :
    f.detail = (e.childLocal? "detail").map (FaultElement.readDetail e) := by
  unfold ofElement at h
  split at h
  · cases h
  · obtain ⟨code, -, h⟩ := ok_of_bind h
    obtain ⟨value, -, h⟩ := ok_of_bind h
    obtain ⟨string, -, h⟩ := ok_of_bind h
    cases h
    rfl

theorem Fault12.detail_of_ofElement {e : Element} {f : Fault12} (h : ofElement e = .ok f) :
    f.detail = (e.child? (name "Detail")).map (FaultElement.readDetail e) := by
  unfold ofElement at h
  split at h
  · cases h
  · obtain ⟨code, -, h⟩ := ok_of_bind h
    obtain ⟨value, -, h⟩ := ok_of_bind h
    obtain ⟨q, -, h⟩ := ok_of_bind h
    obtain ⟨subcodes, -, h⟩ := ok_of_bind h
    obtain ⟨reason, -, h⟩ := ok_of_bind h
    cases h
    rfl

/-- The entries of a detail element of a fault that is read mean what they meant behind the fault and its detail. -/
structure Element.KeepsDetails (fault : Element) : Prop where
  v11 : ∀ f, Fault11.ofElement fault = .ok f →
    ∀ entries ∈ f.detail, ∃ detail, fault.childLocal? "detail" = some detail ∧
    List.Forall₂ (KeepsMeaning [fault, detail]) detail.elements entries
  v12 : ∀ f, Fault12.ofElement fault = .ok f →
    ∀ entries ∈ f.detail, ∃ detail, fault.child? (Fault12.name "Detail") = some detail ∧
    List.Forall₂ (KeepsMeaning [fault, detail]) detail.elements entries

theorem Element.Stands.keepsDetails {fault : Element} (h : fault.Stands []) : fault.KeepsDetails := by
  constructor
  · intro f hf entries hentries
    rw [Fault11.detail_of_ofElement hf] at hentries
    obtain ⟨detail, hdetail, rfl⟩ := Option.map_eq_some_iff.mp hentries
    exact ⟨detail, hdetail, FaultElement.keepsMeaning_detail h (List.mem_of_find?_eq_some hdetail)⟩
  · intro f hf entries hentries
    rw [Fault12.detail_of_ofElement hf] at hentries
    obtain ⟨detail, hdetail, rfl⟩ := Option.map_eq_some_iff.mp hentries
    exact ⟨detail, hdetail, FaultElement.keepsMeaning_detail h (List.mem_of_find?_eq_some hdetail)⟩

namespace Envelope

variable {envelope part b : Element} {m : Message}

theorem merges_scopeOf (h : envelope.Stands []) (hpart : part ∈ envelope.elements) :
    Merges (scopeOf envelope part) (scopesOf [envelope, part]) :=
  merges_of_lookup h.1.wellFormed (h.of_mem hpart).1.wellFormed (lookup_addMissing _ _)

/-- A block of an envelope, taken out of it, means what it meant there. So do the entries, if it is a fault. -/
theorem keepsMeaning_taken (h : envelope.Stands []) (hpart : part ∈ envelope.elements) (hb : b ∈ part.elements) :
    KeepsMeaning [envelope, part] b (b.inherit (scopeOf envelope part)) ∧
      (b.inherit (scopeOf envelope part)).KeepsDetails := by
  have hstands : b.Stands (scopesOf [envelope, part]) := (h.of_mem hpart).of_mem hb
  have hmerges := merges_scopeOf h hpart
  exact ⟨keepsMeaning_inherit hstands hmerges, (hstands.inherit hmerges).keepsDetails⟩

/-- The blocks and the payload of a message mean what they meant in the envelope. -/
structure KeepsParts (envelope : Element) (m : Message) (headers : List Element) (body : Element) : Prop where
  blocks : List.Forall₂
    (fun (part, b) header => KeepsMeaning [envelope, part] b header.element ∧ header.element.KeepsDetails)
    (headers.flatMap (fun part => part.elements.map (part, ·))) m.headers.blocks
  payload : ∀ b ∈ body.elements.head?, ∃ e, m.payload = .tree e ∧
    KeepsMeaning [envelope, body] b e ∧ e.KeepsDetails

/-- The texts of a document that is well-formed as to namespaces mean the same in all that is taken out of it:
in the blocks and the payload of an envelope, and in the entries of a fault. -/
theorem keepsMeaning_parse {bytes : Bytes} {root : Element} (hparse : Element.parse bytes = .ok root)
    (hwell : root.WellFormed) :
    root.KeepsDetails ∧ ∀ m, Envelope.parse bytes = .ok m →
      ∃ v headers body, Parts root m v headers body ∧ KeepsParts root m headers body := by
  have hstands := stands_of_parse hparse hwell
  refine ⟨hstands.keepsDetails, fun m hm => ?_⟩
  obtain ⟨root', hroot, hm⟩ := ok_of_bind hm
  have hroot : root' = root := by
    rw [hparse] at hroot
    cases hroot
    rfl
  obtain ⟨v, headers, body, hparts⟩ := parts_of_ofElement (hroot ▸ ok_of_mapError hm)
  have hmem : ∀ part ∈ headers ++ [body], part ∈ root.elements := fun part hpart => hparts.elements_eq ▸ hpart
  refine ⟨v, headers, body, hparts, ?_, ?_⟩
  · have hblocks : m.headers.blocks =
        (headers.flatMap (fun part => part.elements.map (part, ·))).map
            (fun (part, b) => ⟨b.inherit (scopeOf root part)⟩) := by
      rw [hparts.headers_eq]
      simp only [HeaderList.ofBlocks, taken, List.map_flatMap, List.map_map, Function.comp_def]
    rw [hblocks, List.forall₂_map_right_iff, List.forall₂_same]
    rintro ⟨part, b⟩ hb
    obtain ⟨part', hpart, hb⟩ := List.mem_flatMap.mp hb
    obtain ⟨b', hb, heq⟩ := List.mem_map.mp hb
    cases heq
    exact keepsMeaning_taken hstands (hmem part (List.mem_append_left _ hpart)) hb
  · intro b hb
    refine ⟨b.inherit (scopeOf root body), ?_, ?_⟩
    · rw [hparts.payload_eq, taken, List.head?_map, Option.mem_def.mp hb]
      rfl
    · exact keepsMeaning_taken hstands (hmem body (by simp)) (List.mem_of_mem_head? hb)

/-- An envelope whose bindings are given anew on the way down, and taken back. -/
def notice : Element :=
  let v := SoapVersion.v11
  let kind := ((named (.unqualified "kind")).declare "" "").pushText "a:Late"
  let header := (((named (v.name "Header")).withPrefix "s").declare "a" "urn:inner").push kind
  let entry := (named ⟨"urn:default", "Order"⟩).pushText "Late"
  let body := ((named (v.name "Body")).withPrefix "s").push
    (Fault11.toElement ⟨v.serverCode, "late", none, some [entry]⟩)
  let envelope := (((named (v.name "Envelope")).withPrefix "s").declare "s" v.envelopeUri).declare "a" "urn:outer"
  ((envelope.declare "" "urn:default").push header).push body

theorem keepsMeaning_parse_notice :
    Element.parse notice.toBytes = .ok (notice.settle []) ∧ (notice.settle []).WellFormed ∧
      ∃ m, Envelope.parse notice.toBytes = .ok m ∧ ∃ v headers body,
        Parts (notice.settle []) m v headers body ∧ KeepsParts (notice.settle []) m headers body := by
  have hparse : Element.parse notice.toBytes = .ok (notice.settle []) := parse_toBytes (by decide)
  have hwell : (notice.settle []).WellFormed := by decide
  have hread : ∃ m, Envelope.parse notice.toBytes = .ok m := by
    have haccepted : (ofElement (notice.settle [])).isOk = true := by decide
    rw [Envelope.parse, hparse]
    cases hm : ofElement (notice.settle []) with
    | ok m => exact ⟨m, by simp only [mapError_ok, bind, Except.bind, hm]⟩
    | error cause =>
      rw [hm] at haccepted
      cases haccepted
  obtain ⟨m, hm⟩ := hread
  exact ⟨hparse, hwell, m, hm, (keepsMeaning_parse hparse hwell).2 m hm⟩

end Envelope

end SoapNode
