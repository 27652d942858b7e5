import SoapNode.Codec
import SoapNode.Proofs.Message.Envelopes
import SoapNode.Proofs.Xml.Detach

/-!
# What a codec writes it reads

The content type that a codec sends is one that it accepts, whatever the action in it; a written
envelope passes the scan and the look at its root; and reading it gives the message back, up to the
spelling of the trees and the white space that `norm` drops.
-/

namespace SoapNode

namespace Codec

theorem contentType_eq (v : SoapVersion) (action : Option String) :
    ∃ parameters, (contentType (.ofVersion v) action).toList = v.mediaType.toList ++ ';' :: parameters := by
  cases v with
  | v11 =>
    refine ⟨" charset=utf-8".toList, ?_⟩
    cases action.filter (!·.isEmpty) <;> simp [contentType, BindingKind.ofVersion, BindingKind.version?]
  | v12 =>
    rw [contentType]
    simp only [BindingKind.ofVersion, BindingKind.version?]
    cases action.filter (!·.isEmpty) with
    | none => exact ⟨" charset=utf-8".toList, by simp⟩
    | some a => exact ⟨(" charset=utf-8" ++ "; action=\"" ++ a ++ "\"").toList, by simp⟩

theorem mediaTypeOf_contentType (v : SoapVersion) (action : Option String) :
    mediaTypeOf (contentType (.ofVersion v) action) = v.mediaType := by
  obtain ⟨parameters, hparameters⟩ := contentType_eq v action
  have hplain : ∀ c ∈ v.mediaType.toList, (c != ';') = true :=
    List.all_eq_true.mp (by cases v <;> decide)
  have htrim : Text.trim v.mediaType = v.mediaType := by cases v <;> decide
  rw [mediaTypeOf, hparameters, List.takeWhile_append_of_pos hplain, List.takeWhile_cons_of_neg (by decide),
    List.append_nil, String.ofList_toList, htrim]

theorem checkType_contentType (v : SoapVersion) (action : Option String) :
    checkType (acceptsSoap v) (some (contentType (.ofVersion v) action)) = .ok () := by
  have haccepts : acceptsSoap v (contentType (.ofVersion v) action) = true := by
    rw [acceptsSoap, mediaTypeOf_contentType, beq_self_eq_true]
  rw [checkType, if_pos haccepts]

theorem rejectEntities_of_scan {d : Bytes} {document : List Char} (hdocument : Utf8.decodeChars d = .ok document)
    (hscan : EntityScan.scan document = .ok ()) (v : SoapVersion) : rejectEntities v d = .ok () := by
  rw [rejectEntities, hdocument]
  simp only [mapError_ok, bind, Except.bind, hscan]

theorem rejectEntities_of_quiet (v : SoapVersion) {document : List Char} (h : EntityScan.quiet document = true) :
    rejectEntities v (Utf8.encodeChars document) = .ok () :=
  rejectEntities_of_scan (Utf8.decodeChars_encodeChars document) (EntityScan.scan_of_quiet h) v

end Codec

namespace Envelope

theorem encodeChars_document (v : SoapVersion) (blocks : List Element) (payload : List Char) :
    declaration ++ Utf8.encodeChars (chars v blocks payload) =
      Utf8.encodeChars ("<?xml version=\"1.0\" encoding=\"UTF-8\"?>".toList ++ chars v blocks payload) := by
  rw [declaration_eq, Utf8.encodeChars_append]

end Envelope

namespace Codec

theorem decode_written {v : SoapVersion} {blocks : List Element} {payload : Option Element}
    (hblocks : ∀ e ∈ blocks, e.Writable) (hpayload : ∀ e ∈ payload, e.Writable) {contentType : Option String}
    (htype : checkType (acceptsSoap v) contentType = .ok ()) :
    decode (.ofVersion v)
        (Envelope.declaration ++ Utf8.encodeChars (Envelope.chars v blocks (payload.toList.flatMap Element.toChars)))
        contentType =
      .ok (Envelope.message v (blocks.map (·.settle [])) (payload.map (·.settle []))) := by
  have hquiet := Envelope.quiet_chars v hblocks
    (Envelope.quiet_elements (fun e he => hpayload e (Option.mem_toList.mp he)))
  have hscan : rejectEntities v (Envelope.declaration ++
      Utf8.encodeChars (Envelope.chars v blocks (payload.toList.flatMap Element.toChars))) = .ok () := by
    rw [Envelope.encodeChars_document]
    exact rejectEntities_of_quiet v (EntityScan.quiet_append (by decide) hquiet)
  have hsniff := Envelope.sniff_chars v blocks (payload.toList.flatMap Element.toChars)
  have hparse := Envelope.parse_written v blocks payload hblocks hpayload
  have hkind : (BindingKind.ofVersion v).version? = some v := by cases v <;> rfl
  simp only [decode, hkind, decodeSoap, htype, hscan, hsniff, mapError_ok, bind, Except.bind]
  rw [if_neg (show ¬(v.name "Envelope").localPart ≠ "Envelope" from not_not_intro rfl),
    if_neg (show ¬(v.name "Envelope").namespaceUri ≠ v.envelopeUri from not_not_intro rfl), hparse]

/-- Encoding a message of the binding's version and decoding the bytes, with the content type they are
sent with, gives the blocks in their order, none of them marked, and the payload, all up to `norm`. -/
theorem decode_encode {m : Message} {v : SoapVersion} (hversion : m.version = some v) {payload : Option Element}
    (hpayload : m.payload = .ofElement payload) (hblocks : ∀ h ∈ m.headers.blocks, h.element.Writable)
    (hwritable : ∀ e ∈ payload, e.Writable) (action : Option String) :
    ∃ bytes m' payload', (encode m).1 = .ok bytes ∧
      decode (.ofVersion v) bytes (some (contentType (.ofVersion v) action)) = .ok m' ∧ m'.version = some v ∧
      m'.headers.marks = [] ∧
      m'.headers.blocks.map (·.element.erase) = m.headers.blocks.map (·.element.norm.erase) ∧
      m'.payload = .ofElement payload' ∧ payload'.map Element.erase = payload.map (·.norm.erase) := by
  have helements : ∀ e ∈ m.headers.blocks.map (·.element), e.Writable := by
    intro e he
    obtain ⟨h, hh, rfl⟩ := List.mem_map.mp he
    exact hblocks h hh
  refine ⟨_, _, _, Message.toEnvelope_eq hversion hpayload,
    decode_written helements hwritable (checkType_contentType v action), rfl, rfl, ?_, rfl, ?_⟩
  · rw [Envelope.message, HeaderList.ofBlocks, List.map_map, List.map_map, List.map_map, List.map_map]
    refine List.map_congr_left (fun h _ => ?_)
    exact Element.erase_settle [] h.element
  · rw [Option.map_map, Option.map_map]
    cases payload with
    | none => rfl
    | some e => exact congrArg some (Element.erase_settle [] e)

/-- A message with a block, whose payload has two adjacent texts and one of white space alone. -/
theorem decode_encode_note :
    let note : Element := (((Element.named ⟨"urn:notes", "note"⟩).pushText "a").pushText "<b>").push
      ((Element.named ⟨"", "end"⟩).pushText "\n")
    ∃ bytes m' payload',
      (encode ((Message.ofElement (some .v12) note).addHeader (.ofText ⟨"urn:trace", "id"⟩ "7"))).1 = .ok bytes ∧
      decode .soap12 bytes (some (contentType .soap12 (some "urn:notes:add"))) = .ok m' ∧ m'.version = some .v12 ∧
      m'.headers.marks = [] ∧
      m'.headers.blocks.map (·.element.erase) = [((Header.ofText ⟨"urn:trace", "id"⟩ "7").element.norm.erase)] ∧
      m'.payload = .ofElement payload' ∧ payload'.map Element.erase = some note.norm.erase :=
  decode_encode (v := .v12) rfl (show _ = Payload.ofElement (some _) from rfl) (by decide) (by decide)
    (some "urn:notes:add")

end Codec

end SoapNode
