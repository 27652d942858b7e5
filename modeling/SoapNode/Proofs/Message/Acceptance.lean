import Mathlib.Data.List.Forall2
import SoapNode.Proofs.Message.Delivery
import SoapNode.Proofs.Message.Sections
import SoapNode.Proofs.Xml.Prefixes

/-!
# Which documents are envelopes

A document is read as an envelope just if its root is one in the namespace of a version and holds headers and
one body behind them, in the same namespace and with nothing else. The codec of a version first looks at the
root alone. That look says what the whole reading would say, so the codec reads just the envelopes of its own
version and tells those of the other one that the version does not match.
-/

namespace SoapNode

open Element

theorem SoapVersion.envelopeUri_injective {v w : SoapVersion} (h : v.envelopeUri = w.envelopeUri) : v = w := by
  have hv := ofUri?_envelopeUri v
  rw [h, ofUri?_envelopeUri] at hv
  exact (Option.some.inj hv).symm

namespace Envelope

/-- The grammar of an envelope: any number of headers and one body. -/
structure Grammar (v : SoapVersion) (envelope : Element) (headers : List Element) (body : Element) : Prop where
  name_eq : envelope.name = v.name "Envelope"
  elements_eq : envelope.elements = headers ++ [body]
  header_name : ∀ part ∈ headers, part.name = v.name "Header"
  body_name : body.name = v.name "Body"

/-- The message has the blocks of all the headers, in their order and none of them marked, and the first element
of the body, if it has one. -/
structure Conveys (m : Message) (v : SoapVersion) (headers : List Element) (body : Element) : Prop where
  version_eq : m.version = some v
  blocks : List.Forall₂ (fun h b => h.element.Same b) m.headers.blocks (headers.flatMap Element.elements)
  unmarked : m.headers.marks = []
  payload : ∃ payload, m.payload = .ofElement payload ∧ Option.Rel Element.Same payload body.elements.head?

variable {v w : SoapVersion} {envelope root body part : Element} {headers parts : List Element}
  {m : Message} {d : Bytes}

theorem Parts.grammar (h : Parts envelope m v headers body) : Grammar v envelope headers body :=
  ⟨h.name_eq, h.elements_eq, h.header_name, h.body_name⟩

/-- The parts of an envelope are its own: the body is the last of them. -/
theorem Grammar.unique {headers' : List Element} {body' : Element} (h : Grammar v envelope headers body)
    (h' : Grammar w envelope headers' body') : v = w ∧ headers = headers' ∧ body = body' := by
  have hname := congrArg QName.namespaceUri (h.name_eq.symm.trans h'.name_eq)
  obtain ⟨hheaders, hbody⟩ := List.append_inj' (h.elements_eq.symm.trans h'.elements_eq) rfl
  exact ⟨SoapVersion.envelopeUri_injective hname, hheaders, List.singleton_inj.mp hbody⟩

theorem same_taken (envelope part : Element) : List.Forall₂ Element.Same (taken envelope part) part.elements := by
  rw [taken, List.forall₂_map_left_iff, List.forall₂_same]
  exact fun b _ => Element.erase_inherit b _

theorem same_head_taken (envelope part : Element) :
    Option.Rel Element.Same (taken envelope part).head? part.elements.head? := by
  have hsame := same_taken envelope part
  generalize taken envelope part = blocks at hsame
  generalize part.elements = elements at hsame
  cases hsame with
  | nil => exact .none
  | cons hhead _ => exact .some hhead

theorem same_flatMap_taken (envelope : Element) (headers : List Element) :
    List.Forall₂ Element.Same (headers.flatMap (taken envelope)) (headers.flatMap Element.elements) := by
  induction headers with
  | nil => exact .nil
  | cons part headers ih =>
    rw [List.flatMap_cons, List.flatMap_cons]
    exact List.rel_append (same_taken envelope part) ih

theorem Parts.conveys (h : Parts envelope m v headers body) : Conveys m v headers body where
  version_eq := h.version_eq
  blocks := by
    rw [h.headers_eq, HeaderList.ofBlocks, List.forall₂_map_left_iff]
    exact same_flatMap_taken envelope headers
  unmarked := by rw [h.headers_eq, HeaderList.ofBlocks]
  payload := ⟨_, h.payload_eq, same_head_taken envelope body⟩

/-! ### Every envelope of the grammar is accepted -/

theorem readSection_of_header (h : part.name = v.name "Header") (blocks : List Header) :
    readSection v envelope ⟨blocks, none⟩ part = .ok ⟨blocks ++ (taken envelope part).map Header.mk, none⟩ := by
  rw [readSection, h, if_neg (show ¬(v.name "Header").namespaceUri ≠ v.envelopeUri from not_not_intro rfl)]
  rfl

theorem readSection_of_body (h : part.name = v.name "Body") (blocks : List Header) :
    readSection v envelope ⟨blocks, none⟩ part = .ok ⟨blocks, some (taken envelope part).head?⟩ := by
  rw [readSection, h, if_neg (show ¬(v.name "Body").namespaceUri ≠ v.envelopeUri from not_not_intro rfl)]
  rfl

theorem foldlM_headers (h : ∀ part ∈ headers, part.name = v.name "Header") (blocks : List Header) :
    headers.foldlM (readSection v envelope) ⟨blocks, none⟩ =
      .ok ⟨blocks ++ (headers.flatMap (taken envelope)).map Header.mk, none⟩ := by
  induction headers generalizing blocks with
  | nil => simp; rfl
  | cons part headers ih =>
    obtain ⟨hpart, hheaders⟩ := List.forall_mem_cons.mp h
    rw [List.foldlM_cons, readSection_of_header hpart]
    simp only [bind, Except.bind, ih hheaders, List.flatMap_cons, List.map_append, List.append_assoc]

theorem Grammar.accepted (h : Grammar v envelope headers body) : ∃ m, ofElement envelope = .ok m := by
  have hversion : SoapVersion.ofUri? envelope.name.namespaceUri = some v := by
    rw [h.name_eq]
    exact SoapVersion.ofUri?_envelopeUri v
  have hsections : envelope.elements.foldlM (readSection v envelope) ⟨[], none⟩ =
      .ok ⟨(headers.flatMap (taken envelope)).map Header.mk, some (taken envelope body).head?⟩ := by
    rw [h.elements_eq, List.foldlM_append, foldlM_headers h.header_name]
    simp only [bind, Except.bind, List.foldlM_cons, List.foldlM_nil, readSection_of_body h.body_name, List.nil_append]
    rfl
  have hlocal : ¬envelope.name.localPart ≠ "Envelope" := by
    rw [h.name_eq]
    exact not_not_intro rfl
  rw [ofElement, if_neg hlocal, hversion]
  simp only [hsections, bind, Except.bind]
  exact ⟨_, rfl⟩

/-- A message that is read from an envelope of the grammar has what its parts hold. -/
theorem Grammar.conveys (h : Grammar v envelope headers body) (hm : ofElement envelope = .ok m) :
    Conveys m v headers body := by
  obtain ⟨w, headers', body', hparts⟩ := parts_of_ofElement hm
  obtain ⟨rfl, rfl, rfl⟩ := h.unique hparts.grammar
  exact hparts.conveys

theorem parse_of_element (h : Element.parse d = .ok root) : parse d = (ofElement root).mapError .invalidEnvelope := by
  rw [parse, h]
  rfl

theorem parse_eq_ok_iff : parse d = .ok m ↔ ∃ root, Element.parse d = .ok root ∧ ofElement root = .ok m := by
  constructor
  · intro h
    obtain ⟨root, hroot, hm⟩ := ok_of_bind h
    exact ⟨root, ok_of_mapError hroot, ok_of_mapError hm⟩
  · rintro ⟨root, hroot, hm⟩
    rw [parse_of_element hroot, hm]
    rfl

/-- A document that is read as an envelope has the parts of one, and the message has what they hold. -/
theorem grammar_of_parse (h : parse d = .ok m) :
    ∃ root v headers body, Element.parse d = .ok root ∧ Grammar v root headers body ∧
      Conveys m v headers body := by
  obtain ⟨root, hroot, hm⟩ := parse_eq_ok_iff.mp h
  obtain ⟨v, headers, body, hparts⟩ := parts_of_ofElement hm
  exact ⟨root, v, headers, body, hroot, hparts.grammar, hparts.conveys⟩

end Envelope

/-! ### The look at the root -/

namespace Codec

open Envelope

variable {v w : SoapVersion} {d : Bytes} {m : Message}

/-- An envelope is named by its version: what the look at its root finds is what it is read as. -/
theorem sniff_of_envelope (h : Envelope.parse d = .ok m) :
    ∃ w, m.version = some w ∧ sniff d = .ok (some (w.name "Envelope")) := by
  obtain ⟨root, w, headers, body, hroot, hgrammar, hconveys⟩ := grammar_of_parse h
  exact ⟨w, hconveys.version_eq, hgrammar.name_eq ▸ sniff_of_parse hroot⟩

theorem decode_of_sniff (hscan : rejectEntities v d = .ok ()) (hsniff : sniff d = .ok (some (w.name "Envelope"))) :
    decode (.ofVersion v) d none = if w = v then Envelope.parse d else .error (.protocol (.versionMismatch v)) := by
  simp only [decode, BindingKind.version?_ofVersion, decodeSoap, checkType, hscan, hsniff,
    mapError_ok, bind, Except.bind]
  rw [if_neg (show ¬(w.name "Envelope").localPart ≠ "Envelope" from not_not_intro rfl)]
  by_cases hversion : w = v
  · have huri : (w.name "Envelope").namespaceUri = v.envelopeUri := congrArg SoapVersion.envelopeUri hversion
    rw [if_pos hversion, if_neg (not_not_intro huri)]
  · have huri : (w.name "Envelope").namespaceUri ≠ v.envelopeUri := fun huri =>
      hversion (SoapVersion.envelopeUri_injective huri)
    rw [if_neg hversion, if_pos huri]

theorem decode_eq_ok_iff (hscan : rejectEntities v d = .ok ()) :
    decode (.ofVersion v) d none = .ok m ↔ Envelope.parse d = .ok m ∧ m.version = some v := by
  have hparsed : Envelope.parse d = .ok m → (decode (.ofVersion v) d none = .ok m ↔ m.version = some v) := by
    intro hparse
    obtain ⟨w, hversion, hsniff⟩ := sniff_of_envelope hparse
    rw [decode_of_sniff hscan hsniff, hversion, Option.some_inj]
    split <;> simp [*]
  constructor
  · intro h
    have hsoap := h
    rw [decode, BindingKind.version?_ofVersion] at hsoap
    have hparse := parse_of_decodeSoap hsoap
    exact ⟨hparse, (hparsed hparse).mp h⟩
  · rintro ⟨hparse, hversion⟩
    exact (hparsed hparse).mpr hversion

theorem decode_other (hscan : rejectEntities v d = .ok ()) (hparse : Envelope.parse d = .ok m)
    (hother : m.version ≠ some v) :
    decode (.ofVersion v) d none = .error (.protocol (.versionMismatch v)) := by
  obtain ⟨w, hversion, hsniff⟩ := sniff_of_envelope hparse
  rw [decode_of_sniff hscan hsniff, if_neg (fun heq => hother (hversion.trans (congrArg some heq)))]

end Codec

namespace Envelope

/-- Which documents are accepted as envelopes, and as what. The codec of a version, if the scan lets a document
pass, reads the same message from the envelopes of its version, and nothing else. -/
theorem accepted_by_grammar (d : Bytes) :
    ((∃ m, parse d = .ok m) ↔ ∃ root v headers body, Element.parse d = .ok root ∧
      Grammar v root headers body) ∧
      (∀ m root v headers body, parse d = .ok m → Element.parse d = .ok root → Grammar v root headers body →
        Conveys m v headers body) ∧
      ∀ v document, Utf8.decodeChars d = .ok document → EntityScan.scan document = .ok () →
        (∀ m, Codec.decode (.ofVersion v) d none = .ok m ↔ parse d = .ok m ∧ m.version = some v) ∧
          ∀ m, parse d = .ok m → m.version ≠ some v →
            Codec.decode (.ofVersion v) d none = .error (.protocol (.versionMismatch v)) := by
  refine ⟨⟨?_, ?_⟩, ?_, ?_⟩
  · rintro ⟨m, hm⟩
    obtain ⟨root, v, headers, body, hroot, hgrammar, -⟩ := grammar_of_parse hm
    exact ⟨root, v, headers, body, hroot, hgrammar⟩
  · rintro ⟨root, v, headers, body, hroot, hgrammar⟩
    obtain ⟨m, hm⟩ := hgrammar.accepted
    exact ⟨m, parse_eq_ok_iff.mpr ⟨root, hroot, hm⟩⟩
  · intro m root v headers body hm hroot hgrammar
    obtain ⟨root', hroot', hread⟩ := parse_eq_ok_iff.mp hm
    cases hroot.symm.trans hroot'
    exact hgrammar.conveys hread
  · intro v document hdocument hscan
    have hpasses := Codec.rejectEntities_of_scan hdocument hscan v
    exact ⟨fun m => Codec.decode_eq_ok_iff hpasses, fun m hm hother => Codec.decode_other hpasses hm hother⟩

/-- An envelope with two headers, in whose body two elements stand. -/
def doubled : Element :=
  let v := SoapVersion.v12
  let block (id : String) : Element := (named ⟨"urn:trace", "id"⟩).pushText id
  let header (id : String) : Element := ((named (v.name "Header")).withPrefix "s").push (block id)
  let body := (((named (v.name "Body")).withPrefix "s").push (named ⟨"urn:orders", "Order"⟩)).push
    (named ⟨"urn:orders", "Note"⟩)
  let envelope := ((named (v.name "Envelope")).withPrefix "s").declare "s" v.envelopeUri
  ((envelope.push (header "7")).push (header "8")).push body

theorem accepted_by_grammar_doubled :
    let d := doubled.toBytes
    ∃ m root headers body, parse d = .ok m ∧ Element.parse d = .ok root ∧ headers.length = 2 ∧
      Grammar .v12 root headers body ∧
      Conveys m .v12 headers body ∧ Codec.decode .soap12 d none = .ok m ∧
      Codec.decode .soap11 d none = .error (.protocol (.versionMismatch .v11)) := by
  intro d
  have hwritable : doubled.Writable := by decide
  have hroot : Element.parse d = .ok (doubled.settle []) := parse_toBytes hwritable
  have hgrammar : Grammar .v12 (doubled.settle []) ((doubled.settle []).elements.take 2)
      (doubled.settle []).elements[2] :=
    ⟨rfl, rfl, by decide, rfl⟩
  obtain ⟨haccepts, hconveys, hcodec⟩ := accepted_by_grammar d
  obtain ⟨m, hm⟩ := haccepts.mpr ⟨_, _, _, _, hroot, hgrammar⟩
  have hm' := hconveys m _ _ _ _ hm hroot hgrammar
  have hdocument : Utf8.decodeChars d = .ok doubled.toChars := Utf8.decodeChars_encodeChars _
  have hscan : EntityScan.scan doubled.toChars = .ok () := EntityScan.scan_of_quiet (quiet_toChars hwritable)
  refine ⟨m, _, _, _, hm, hroot, rfl, hgrammar, hm', ?_, ?_⟩
  · exact ((hcodec .v12 _ hdocument hscan).1 m).mpr ⟨hm, hm'.version_eq⟩
  · exact (hcodec .v11 _ hdocument hscan).2 m hm (by rw [hm'.version_eq]; decide)

end Envelope

end SoapNode
