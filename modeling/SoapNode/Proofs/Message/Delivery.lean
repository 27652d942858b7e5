import SoapNode.Proofs.Codec
import SoapNode.Proofs.Message.Payloads
import SoapNode.Proofs.Message.Sections

/-!
# Messages that are sent and received

For each kind of binding, a message with a tree or without a payload is encoded, accepted with the
content type it is sent with, and holds the delivered payload again. Its header blocks keep their names
and their attributes.
-/

namespace SoapNode

namespace BindingKind

theorem bare_or_soap (k : BindingKind) : k = .xmlHttp ∨ ∃ v, k = .ofVersion v := by
  cases k with
  | xmlHttp => exact .inl rfl
  | soap11 => exact .inr ⟨.v11, rfl⟩
  | soap12 => exact .inr ⟨.v12, rfl⟩

theorem version?_ofVersion (v : SoapVersion) : (ofVersion v).version? = some v := by
  cases v <;> rfl

theorem faultVersion_ofVersion (v : SoapVersion) : (ofVersion v).faultVersion = v := by
  cases v <;> rfl

end BindingKind

/-- Header blocks that demand nothing: they have no attributes. -/
def HeaderList.Plain (l : HeaderList) : Prop := ∀ h ∈ l.blocks, h.element.tag.attributes = []

theorem HeaderList.plain_empty : HeaderList.empty.Plain := fun _ hmem => absurd hmem List.not_mem_nil

/-- A message that can be put on the wire, whatever its header blocks demand. -/
structure Message.Encodable (m : Message) (version : Option SoapVersion) (payload : Option Element) : Prop where
  version_eq : m.version = version
  payload_eq : m.payload = .ofElement payload
  blocks : ∀ h ∈ m.headers.blocks, h.element.Writable

/-- A message as it is put on the wire. -/
structure Message.Sendable (m : Message) (version : Option SoapVersion) (payload : Option Element) : Prop where
  version_eq : m.version = version
  payload_eq : m.payload = .ofElement payload
  known : ∀ name ∈ m.knownName, name = payload.map Element.name
  blocks : ∀ h ∈ m.headers.blocks, h.element.Writable
  plain : m.headers.Plain

/-- A message with this payload that can be passed on. -/
structure Message.Bears (m : Message) (version : Option SoapVersion) (payload : Option Element) : Prop where
  version_eq : m.version = version
  holds : m.Holds payload
  plain : m.headers.Plain

namespace Message

variable {m : Message} {version : Option SoapVersion} {payload : Option Element}

theorem Sendable.encodable (h : m.Sendable version payload) : m.Encodable version payload :=
  ⟨h.version_eq, h.payload_eq, h.blocks⟩

theorem Sendable.bears (h : m.Sendable version payload) : m.Bears version payload :=
  ⟨h.version_eq, ⟨.inl h.payload_eq, h.known⟩, h.plain⟩

theorem sendable_ofPayload (version : Option SoapVersion) (payload : Option Element) :
    (ofPayload version (.ofElement payload)).Sendable version payload :=
  ⟨rfl, rfl, nofun, nofun, nofun⟩

end Message

namespace Codec

open Message

theorem encode_bare {m : Message} {payload : Option Element} (h : m.Encodable none payload) :
    (encode m).1 = .ok (Envelope.declaration ++ Utf8.encodeChars (payload.toList.flatMap Element.toChars)) := by
  have hbytes : m.writePayload.1 = .ok (Utf8.encodeChars (payload.toList.flatMap Element.toChars)) := by
    cases payload with
    | none =>
      simp only [writePayload, readBytes, h.payload_eq, Payload.ofElement]
      rfl
    | some e =>
      simp only [writePayload, h.payload_eq, Payload.ofElement, Option.toList_some, List.flatMap_singleton]
      rfl
  simp only [encode, toEnvelope, write, h.version_eq, hbytes, Except.map]

theorem stripDeclaration_declaration (rest : Bytes) :
    stripDeclaration (Envelope.declaration ++ rest) = rest.dropWhile isAsciiSpace := rfl

theorem isAsciiSpace_lessThan : isAsciiSpace Token.lessThan = false := by decide

theorem decodeXml_eq {document body : Bytes} {contentType : Option String}
    (htype : checkType acceptsXml contentType = .ok ()) (hscan : rejectEntities .v11 document = .ok ())
    (hbody : stripDeclaration document = body) :
    decodeXml document contentType = if body.all isAsciiSpace then .ok (.empty none) else .ok (.ofBytes none body) := by
  subst hbody
  simp only [decodeXml, htype, hscan, bind, Except.bind]

theorem parse_of_decodeSoap {v : SoapVersion} {bytes : Bytes} {contentType : Option String} {m : Message}
    (h : decodeSoap v bytes contentType = .ok m) : Envelope.parse bytes = .ok m := by
  obtain ⟨-, -, h⟩ := ok_of_bind h
  obtain ⟨-, -, h⟩ := ok_of_bind h
  obtain ⟨root, -, h⟩ := ok_of_bind h
  split at h
  · cases h
  · split at h
    · cases h
    · split at h
      · cases h
      · exact h

theorem eq_of_decodeXml {bytes : Bytes} {contentType : Option String} {m : Message}
    (h : decodeXml bytes contentType = .ok m) :
    m = if (stripDeclaration bytes).all isAsciiSpace then .empty none else .ofBytes none (stripDeclaration bytes) := by
  obtain ⟨-, -, h⟩ := ok_of_bind h
  obtain ⟨-, -, h⟩ := ok_of_bind h
  dsimp only at h
  split at h
  · rename_i hblank
    cases h
    rw [if_pos hblank]
  · rename_i hblank
    cases h
    rw [if_neg hblank]

/-- What is decoded is in memory. -/
theorem kept_decode {kind : BindingKind} {bytes : Bytes} {contentType : Option String} {m : Message}
    (h : decode kind bytes contentType = .ok m) : m.payload.Kept := by
  rw [decode] at h
  split at h
  · obtain ⟨envelope, -, h⟩ := ok_of_bind (parse_of_decodeSoap h)
    obtain ⟨v, headers, body, hparts⟩ := Envelope.parts_of_ofElement (ok_of_mapError h)
    rw [hparts.payload_eq]
    cases (Envelope.taken envelope body).head? <;> rintro _ _ ⟨⟩
  · rw [eq_of_decodeXml h]
    split <;> rintro _ _ ⟨⟩

theorem decode_bare {payload : Option Element} (hwritable : ∀ e ∈ payload, e.Writable) (action : Option String) :
    ∃ m, decode .xmlHttp (Envelope.declaration ++ Utf8.encodeChars (payload.toList.flatMap Element.toChars))
      (some (contentType .xmlHttp action)) = .ok m ∧ m.Bears none (payload.map (Element.delivered none)) := by
  have htype : checkType acceptsXml (some (contentType .xmlHttp action)) = .ok () := by
    have haccepts : acceptsXml (contentType .xmlHttp action) = true :=
      show acceptsXml xmlMediaType = true by decide
    rw [checkType, if_pos haccepts]
  have hquiet := Envelope.quiet_elements (fun e he => hwritable e (Option.mem_toList.mp he))
  have hscan : rejectEntities .v11 (Envelope.declaration ++ Utf8.encodeChars (payload.toList.flatMap Element.toChars)) =
      .ok () := by
    rw [Envelope.declaration_eq, ← Utf8.encodeChars_append]
    exact rejectEntities_of_quiet .v11 (EntityScan.quiet_append (by decide) hquiet)
  cases payload with
  | none => exact ⟨_, decodeXml_eq htype hscan rfl, rfl, holds_ofPayload none none, HeaderList.plain_empty⟩
  | some e =>
    obtain ⟨bytes, hbytes⟩ := e.toBytes_eq
    have he : e.Writable := hwritable e rfl
    have hspace : ¬isAsciiSpace Token.lessThan = true := by
      rw [isAsciiSpace_lessThan]
      decide
    have hpayload : Utf8.encodeChars ((some e).toList.flatMap Element.toChars) = e.toBytes := by
      rw [Option.toList_some, List.flatMap_singleton]
      rfl
    have hbody : stripDeclaration (Envelope.declaration ++ Utf8.encodeChars ((some e).toList.flatMap Element.toChars)) =
        e.toBytes := by
      rw [stripDeclaration_declaration, hpayload, hbytes, List.dropWhile_cons_of_neg hspace]
    have hblank : ¬(e.toBytes.all isAsciiSpace = true) := by
      rw [hbytes, List.all_cons, isAsciiSpace_lessThan, Bool.false_and]
      decide
    refine ⟨.ofBytes none e.toBytes, (decodeXml_eq htype hscan hbody).trans (if_neg hblank), rfl, ⟨?_, ?_⟩,
      HeaderList.plain_empty⟩
    · exact .inr ⟨_, _, rfl, rfl, Element.parse_toBytes he, sniff_toBytes he⟩
    · rintro name ⟨⟩

def settledBlocks (v : SoapVersion) (blocks : List Header) : List Header :=
  ((blocks.map (·.element)).map (·.settle [])).map (·.inherit (Envelope.frame v)) |>.map Header.mk

theorem plain_settledBlocks (v : SoapVersion) {blocks : List Header}
    (h : ∀ b ∈ blocks, b.element.tag.attributes = []) :
    (HeaderList.ofBlocks (settledBlocks v blocks)).Plain := by
  intro b hb
  simp only [HeaderList.ofBlocks, settledBlocks, List.map_map, List.mem_map] at hb
  obtain ⟨b', hb', rfl⟩ := hb
  have herase := congrArg (fun e => e.tag.attributes.length) (Element.erase_delivered (some v) b'.element)
  simp only [Element.erase, StartTag.erase, List.length_map] at herase
  apply List.eq_nil_of_length_eq_zero
  refine herase.trans ?_
  show b'.element.tag.attributes.length = 0
  rw [h b' hb', List.length_nil]

theorem find?_settledBlocks (v : SoapVersion) (blocks : List Header) (name : QName) :
    ((HeaderList.ofBlocks (settledBlocks v blocks)).find? name).isSome = (blocks.find? (·.name = name)).isSome := by
  rw [HeaderList.find?, HeaderList.ofBlocks, settledBlocks, List.map_map, List.map_map, List.map_map, List.find?_map,
    Option.isSome_map]
  rfl

theorem decode_envelope {v : SoapVersion} {m : Message} {payload : Option Element} (h : m.Encodable (some v) payload)
    (hwritable : ∀ e ∈ payload, e.Writable) (action : Option String) :
    ∃ bytes m', (encode m).1 = .ok bytes ∧
      decode (.ofVersion v) bytes (some (contentType (.ofVersion v) action)) = .ok m' ∧ m'.version = some v ∧
      m'.Holds (payload.map (Element.delivered (some v))) ∧
      m'.headers = .ofBlocks (settledBlocks v m.headers.blocks) := by
  have helements : ∀ e ∈ m.headers.blocks.map (·.element), e.Writable := by
    intro e he
    obtain ⟨b, hb, rfl⟩ := List.mem_map.mp he
    exact h.blocks b hb
  refine ⟨_, _, toEnvelope_eq h.version_eq h.payload_eq,
    decode_written helements hwritable (checkType_contentType v action), rfl, ⟨.inl ?_, nofun⟩, rfl⟩
  show Payload.ofElement _ = _
  rw [Option.map_map]
  rfl

/-- What can be encoded is decoded again, for every kind of binding and any action. -/
theorem decode_encodable (kind : BindingKind) {m : Message} {payload : Option Element}
    (h : m.Encodable kind.version? payload) (hwritable : ∀ e ∈ payload, e.Writable) (action : Option String) :
    ∃ bytes m', (encode m).1 = .ok bytes ∧ decode kind bytes (some (contentType kind action)) = .ok m' ∧
      m'.version = kind.version? ∧ m'.Holds (payload.map (Element.delivered kind.version?)) := by
  rcases kind.bare_or_soap with rfl | ⟨v, rfl⟩
  · obtain ⟨m', hdecode, hbears⟩ := decode_bare hwritable action
    exact ⟨_, m', encode_bare h, hdecode, hbears.version_eq, hbears.holds⟩
  · rw [BindingKind.version?_ofVersion] at h ⊢
    obtain ⟨bytes, m', hencode, hdecode, hversion, hholds, -⟩ := decode_envelope h hwritable action
    exact ⟨bytes, m', hencode, hdecode, hversion, hholds⟩

/-- What is sent is received, for every kind of binding and any action. -/
theorem decode_sent (kind : BindingKind) {m : Message} {payload : Option Element} (h : m.Sendable kind.version? payload)
    (hwritable : ∀ e ∈ payload, e.Writable) (action : Option String) :
    ∃ bytes m', (encode m).1 = .ok bytes ∧ decode kind bytes (some (contentType kind action)) = .ok m' ∧
      m'.Bears kind.version? (payload.map (Element.delivered kind.version?)) ∧
      (kind.version?.isSome → ∀ name, (m'.headers.find? name).isSome = (m.headers.find? name).isSome) := by
  rcases kind.bare_or_soap with rfl | ⟨v, rfl⟩
  · obtain ⟨m', hdecode, hbears⟩ := decode_bare hwritable action
    exact ⟨_, m', encode_bare h.encodable, hdecode, hbears, nofun⟩
  · rw [BindingKind.version?_ofVersion] at h ⊢
    obtain ⟨bytes, m', hencode, hdecode, hversion, hholds, hheaders⟩ := decode_envelope h.encodable hwritable action
    refine ⟨bytes, m', hencode, hdecode, ⟨hversion, hholds, hheaders ▸ plain_settledBlocks v h.plain⟩,
      fun _ name => ?_⟩
    rw [hheaders]
    exact find?_settledBlocks v m.headers.blocks name

end Codec

end SoapNode
