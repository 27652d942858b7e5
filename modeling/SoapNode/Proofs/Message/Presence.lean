import SoapNode.Proofs.Dispatch
import SoapNode.Proofs.Message.Acceptance
import SoapNode.Proofs.Message.Pulling
import SoapNode.Proofs.Xml.Segments
import SoapNode.Stage.Invoker

/-!
# Whether there is a payload

A payload is present if it has a name. An empty one has none, and it is read as nothing. But bytes that hold
no element have no name either, and they are read as a document, which they are not. So a message of such
bytes counts as one without a payload until it is read.
-/

namespace SoapNode

/-- The payload is bytes, and they hold texts, comments and instructions to their end, but no element. -/
inductive Payload.Untagged : Payload → Prop where
  | buffered {bytes : Bytes} (untagged : Token.Consists Token.Passed (dropByteOrderMark bytes)) :
    Untagged (.buffered bytes)
  | stream {pulled : Bytes} {s : Source} (sound : s.breaks = false) (short : (pulled ++ s.rest).length < sniffLimit)
      (untagged : Token.Consists Token.Passed (dropByteOrderMark (pulled ++ s.rest))) : Untagged (.stream pulled s)

/-- What a message that remembers nothing finds as the name of its payload. -/
def Payload.foundName (p : Payload) : Except RuntimeError (Option QName) := (Message.ofPayload none p).payloadName.1

/-- To find nothing, a source has to be read to its end, and in front of the limit. -/
theorem end_of_sniffSource {pulled : Bytes} {s : Source} (h : (sniffSource pulled s).1 = .ok none) :
    s.breaks = false ∧ (pulled ++ s.rest).length < sniffLimit := by
  fun_induction sniffSource pulled s with
  | case1 => cases h
  | case2 => cases h
  | case3 => cases h
  | case4 => cases h
  | case5 pulled s _ hlimit s' hread =>
    have hended := Source.ended_of_read (by decide) hread
    refine ⟨?_, ?_⟩
    · cases hbreaks : s.breaks with
      | false => rfl
      | true => simp [Source.read, hended, hbreaks] at hread
    · rw [hended, List.append_nil]
      exact Nat.not_le.mp hlimit
  | case6 pulled s _ _ b piece s' hread ih =>
    obtain ⟨hsound, hshort⟩ := ih h
    refine ⟨(Source.breaks_of_read hread).symm.trans hsound, ?_⟩
    rwa [List.append_assoc, Source.read_append hread] at hshort

namespace Payload

variable {p : Payload}

theorem foundName_buffered (bytes : Bytes) : (buffered bytes).foundName = (sniff bytes).mapError .xml := by
  simp only [foundName, Message.ofPayload, Message.payloadName]
  cases sniff bytes <;> rfl

theorem foundName_stream (pulled : Bytes) (s : Source) : (stream pulled s).foundName = (sniffSource pulled s).1 := by
  simp only [foundName, Message.ofPayload, Message.payloadName]
  split <;> rename_i h <;> exact h.symm

theorem foundName_eq_none_iff : p.foundName = .ok none ↔ p = .empty ∨ p.Untagged := by
  cases p with
  | empty => simp [foundName, Message.ofPayload, Message.payloadName]
  | tree | consumed =>
    constructor
    · intro h
      cases h
    · rintro (⟨⟨⟩⟩ | ⟨⟨⟩⟩)
  | buffered bytes =>
    rw [foundName_buffered]
    constructor
    · intro h
      exact .inr (.buffered (sniff_eq_none_iff.mp (ok_of_mapError h)))
    · rintro (⟨⟨⟩⟩ | hp)
      cases hp with
      | buffered untagged =>
        rw [sniff_eq_none_iff.mpr untagged]
        rfl
  | stream pulled s =>
    rw [foundName_stream]
    constructor
    · intro h
      obtain ⟨hsound, hshort⟩ := end_of_sniffSource h
      exact .inr (.stream hsound hshort (sniff_eq_none_iff.mp (sniff_of_sniffSource hsound h)))
    · rintro (⟨⟨⟩⟩ | hp)
      cases hp with
      | stream sound short untagged =>
        rw [sniffSource_eq sound (.inl short), sniff_eq_none_iff.mpr untagged]
        rfl

/-- Bytes without an element are no document. -/
theorem parse_of_untagged {bytes : Bytes} (h : Token.Consists Token.Passed (dropByteOrderMark bytes)) :
    ∃ cause, Element.parse bytes = .error cause := by
  cases hparse : Element.parse bytes with
  | error cause => exact ⟨cause, rfl⟩
  | ok e =>
    have hsniff := sniff_of_parse hparse
    rw [sniff_eq_none_iff.mpr h] at hsniff
    cases hsniff

end Payload

namespace Message

variable {m m' : Message}

theorem readElement_of_untagged (h : m.payload.Untagged) : ∃ cause, m.readElement.1 = .error (.xml cause) := by
  obtain ⟨version, headers, attachments, payload, known⟩ := m
  cases h with
  | buffered untagged =>
    obtain ⟨cause, hparse⟩ := Payload.parse_of_untagged untagged
    exact ⟨cause, by simp [readElement, readBytes, hparse, Except.mapError, Except.map]⟩
  | stream sound short untagged =>
    obtain ⟨cause, hparse⟩ := Payload.parse_of_untagged untagged
    exact ⟨cause, by simp [readElement, readBytes, Source.readAll, sound, hparse, Except.mapError, Except.map]⟩

/-! ### The memory is what would be found -/

/-- As long as the payload was not taken, the name that is remembered would be found again. -/
def Recalls (m : Message) : Prop := m.payload ≠ .consumed → ∀ name ∈ m.knownName, m.payload.foundName = .ok name

theorem payloadName_of_unknown (h : m.knownName = none) : m.payloadName.1 = m.payload.foundName := by
  obtain ⟨version, headers, attachments, payload, known⟩ := m
  cases h
  cases payload with
  | empty | tree | consumed => rfl
  | buffered bytes =>
    simp only [Payload.foundName, ofPayload, payloadName]
    cases sniff bytes <;> rfl
  | stream pulled s =>
    simp only [Payload.foundName, ofPayload, payloadName]
    cases (sniffSource pulled s).1 <;> rfl

theorem Recalls.payloadName_eq (h : m.Recalls) (hleft : m.payload ≠ .consumed) :
    m.payloadName.1 = m.payload.foundName := by
  cases hknown : m.knownName with
  | none => exact payloadName_of_unknown hknown
  | some name =>
    rw [h hleft name hknown, payloadName]
    simp only [hknown]

/-- The payload that is left by a look at the name would show the same name. -/
theorem foundName_payloadName (m : Message) : m.payloadName.2.payload.foundName = m.payload.foundName := by
  rw [payloadName]
  split
  · rfl
  · split
    · rfl
    · rfl
    · split <;> rfl
    · rename_i pulled source hpayload
      have hagain : (Payload.stream (sniffSource pulled source).2.1 (sniffSource pulled source).2.2).foundName =
          m.payload.foundName := by
        rw [hpayload, Payload.foundName_stream, Payload.foundName_stream, sniffSource_again]
      dsimp only
      split <;> exact hagain
    · rfl

theorem recalls_consume (m : Message) : m.consume.Recalls := fun hleft => absurd rfl hleft

theorem Recalls.payloadName (h : m.Recalls) : m.payloadName.2.Recalls := by
  intro hleft name hname
  have hunread : m.payload ≠ .consumed := mt m.sameContent_payloadName.consumed hleft
  rw [knownName_payloadName, h.payloadName_eq hunread] at hname
  rw [foundName_payloadName]
  cases hfound : m.payload.foundName with
  | error cause => simp [hfound, Except.toOption] at hname
  | ok found =>
    rw [hfound] at hname
    cases hname
    rfl

theorem Recalls.isFault (h : m.Recalls) : m.isFault.2.Recalls := by
  rw [Message.isFault]
  split
  · exact h
  · exact h.payloadName

/-- The tree has the name that is remembered, since the memory is true of what can be read. -/
theorem recalls_payloadTree (h : m.Truthful) : m.payloadTree.2.Recalls := by
  rw [payloadTree_eq]
  cases hread : m.readElement.1 with
  | error cause => exact m.recalls_consume
  | ok c =>
    intro _ name hname
    rw [h c (reads_of_readElement hread) name hname]
    cases c <;> rfl

theorem Recalls.inMemory {bytes : Option Bytes} (h : m.Recalls) (hread : m.readBytes.1 = .ok bytes) :
    ({ m with payload := m.payload.inMemory } : Message).Recalls := by
  obtain ⟨version, headers, attachments, payload, known⟩ := m
  cases payload with
  | stream pulled s =>
    intro _ name hname
    have hfound : (Payload.stream pulled s).foundName = .ok name := h (by rintro ⟨⟩) name hname
    cases hbreaks : s.breaks with
    | true => simp [Message.readBytes, Source.readAll, hbreaks, Except.map] at hread
    | false =>
      rw [Payload.foundName_stream] at hfound
      rw [Payload.inMemory, Payload.foundName_buffered, sniff_of_sniffSource hbreaks hfound]
      rfl
  | _ => exact h

theorem Recalls.copy (h : m.Recalls) :
    m.copy.2.Recalls ∧ ∀ replica, m.copy.1 = .ok replica → replica.Recalls := by
  rw [copy_eq]
  cases hread : m.readBytes.1 with
  | error cause =>
    refine ⟨m.recalls_consume, fun replica hreplica => ?_⟩
    cases hreplica
  | ok bytes =>
    refine ⟨h.inMemory hread, fun replica hreplica => ?_⟩
    cases hreplica
    exact h.inMemory hread

theorem Recalls.answer (h : m.Recalls) (htruthful : m.Truthful) (q : Inquiry) : (m.answer q).2.Recalls := by
  cases q with
  | name => exact h.payloadName
  | hasPayload => exact h.payloadName
  | isFault => exact h.isFault
  | tree => exact recalls_payloadTree htruthful
  | copy => exact h.copy.1

theorem recalls_of_unknown (h : m.knownName = none) : m.Recalls := by
  intro _ name hname
  rw [h] at hname
  cases hname

theorem Reached.recalls (h : m.Reached) : m.Recalls := by
  induction h with
  | empty | element | bytes | source => exact recalls_of_unknown rfl
  | dressed _ headers attachments ih => exact ih
  | asked reached q ih => exact ih.answer reached.truthful q
  | copied _ copy ih => exact ih.copy.2 _ copy
  | @taken m _ t ih => exact m.take_left t ▸ m.recalls_consume
  | replaced _ e => exact recalls_of_unknown rfl

end Message

/-! ### Requests -/

namespace Codec

open Message

variable {m : Message} {kind : BindingKind} {bytes : Bytes} {contentType : Option String}

theorem reached_of_ofElement {envelope : Element} (h : Envelope.ofElement envelope = .ok m) : m.Reached := by
  rw [Envelope.ofElement] at h
  split at h
  · cases h
  · split at h
    · cases h
    · obtain ⟨c, -, h⟩ := ok_of_bind h
      split at h
      · cases h
      · split at h
        all_goals
          cases h
        · exact (Reached.element _ _).dressed _ []
        · exact (Reached.empty _).dressed _ []

theorem reached_of_decode (h : decode kind bytes contentType = .ok m) : m.Reached := by
  rw [decode] at h
  split at h
  · obtain ⟨envelope, -, h⟩ := ok_of_bind (parse_of_decodeSoap h)
    exact reached_of_ofElement (ok_of_mapError h)
  · rw [eq_of_decodeXml h]
    split
    · exact .empty none
    · exact .bytes none _

/-- What is decoded without an envelope is what stands behind the declaration, and any other payload is a tree. -/
theorem payload_of_decode (h : decode kind bytes contentType = .ok m) :
    (kind.version? ≠ none ∧ ∃ payload, m.payload = .ofElement payload) ∨ kind.version? = none ∧
      m.payload = if (stripDeclaration bytes).all isAsciiSpace then .empty else .buffered (stripDeclaration bytes) := by
  rw [decode] at h
  split at h
  · rename_i v hkind
    obtain ⟨envelope, -, h⟩ := ok_of_bind (parse_of_decodeSoap h)
    obtain ⟨v', headers, body, hparts⟩ := Envelope.parts_of_ofElement (ok_of_mapError h)
    exact .inl ⟨Option.ne_none_iff_exists'.mpr ⟨v, hkind⟩, _, hparts.payload_eq⟩
  · rename_i hkind
    refine .inr ⟨hkind, ?_⟩
    rw [eq_of_decodeXml h]
    split <;> rfl

theorem unconsumed_of_decode (h : decode kind bytes contentType = .ok m) : m.payload ≠ .consumed := by
  rcases payload_of_decode h with ⟨-, payload, hpayload⟩ | ⟨-, hpayload⟩ <;> rw [hpayload]
  · cases payload <;> rintro ⟨⟩
  · split <;> rintro ⟨⟩

/-- A request has bytes without an element for its payload just if it came without an envelope, and what is behind
its declaration is neither blank nor has an element. -/
theorem untagged_of_decode_iff (h : decode kind bytes contentType = .ok m) :
    m.payload.Untagged ↔ kind.version? = none ∧ (stripDeclaration bytes).all isAsciiSpace = false ∧
      Token.Consists Token.Passed (dropByteOrderMark (stripDeclaration bytes)) := by
  rcases payload_of_decode h with ⟨hkind, payload, hpayload⟩ | ⟨hkind, hpayload⟩ <;> rw [hpayload]
  · constructor
    · cases payload <;> rintro ⟨⟩
    · exact fun hnone => absurd hnone.1 hkind
  · cases (stripDeclaration bytes).all isAsciiSpace with
    | true =>
      constructor
      · rintro ⟨⟩
      · rintro ⟨-, ⟨⟩, -⟩
    | false =>
      constructor
      · rintro ⟨untagged⟩
        exact ⟨hkind, rfl, untagged⟩
      · rintro ⟨-, -, untagged⟩
        exact .buffered untagged

end Codec

/-- An operation that is found for such a request is not run: its input cannot be read. -/
theorem Invoker.invoke_of_untagged {World : Type} {e : Endpoint World} {o : Operation World}
    {p p' : Packet} {m : Message} (hp : p.message = some m) (huntagged : m.payload.Untagged)
    (hdispatch : e.dispatch p = (.ok o, p')) (world : World) :
    ∃ cause p'', invoke e p world = (answerError e.kind p'' (.deserialization false (.xml cause)), world) := by
  obtain ⟨cause, hread⟩ := Message.readElement_of_untagged huntagged
  have hmessage := (Endpoint.sameContent_dispatch e p).message
  rw [hp, hdispatch] at hmessage
  cases hp' : p'.message with
  | none =>
    rw [hp'] at hmessage
    cases hmessage
  | some m' =>
    rw [hp'] at hmessage
    cases hmessage with
    | some hsame =>
      have hread' : m'.readElement.1 = .error (.xml cause) := hsame.readElement.trans hread
      have hset : (p'.setOperation (some o.name)).message = some m' := hp'
      refine ⟨cause, { p'.setOperation (some o.name) with message := some m'.readElement.2 }, ?_⟩
      simp only [invoke, hdispatch, Packet.onMessage, hset, hread']

namespace Message

variable {m : Message}

theorem hasPayload_eq_false_iff : m.hasPayload.1 = .ok false ↔ m.payloadName.1 = .ok none := by
  rw [hasPayload]
  dsimp only
  rcases m.payloadName.1 with cause | ⟨_ | q⟩ <;> simp [Except.map]

theorem Reached.payloadName_none_iff (hm : m.Reached) (hleft : m.payload ≠ .consumed) :
    m.payloadName.1 = .ok none ↔ m.payload = .empty ∨ m.payload.Untagged := by
  rw [hm.recalls.payloadName_eq hleft, Payload.foundName_eq_none_iff]

/-- A message says that it has no payload if it is empty, and also if it has bytes without an element. An empty one
is read as nothing, the bytes cannot be read; under any other name only an element of that name is read.
Requests come with such bytes just if they are plain documents of that kind, and the operation that takes them is
not run. -/
theorem presence_of_payload (m : Message) :
    (m.Reached → m.payload ≠ .consumed →
      (m.hasPayload.1 = .ok false ↔ m.payloadName.1 = .ok none) ∧
      (m.payloadName.1 = .ok none ↔ m.payload = .empty ∨ m.payload.Untagged) ∧
      (m.payload = .empty → m.payloadName.2.readElement.1 = .ok none) ∧
      (m.payload.Untagged → ∃ cause, m.payloadName.2.readElement.1 = .error (.xml cause)) ∧
      ∀ q c, m.payloadName.1 = .ok (some q) → m.payloadName.2.readElement.1 = .ok c →
        c.map Element.name = some q) ∧
    (∀ kind bytes contentType, Codec.decode kind bytes contentType = .ok m →
      m.Reached ∧ m.payload ≠ .consumed ∧
        (m.payload.Untagged ↔ kind.version? = none ∧ (stripDeclaration bytes).all isAsciiSpace = false ∧
          Token.Consists Token.Passed (dropByteOrderMark (stripDeclaration bytes)))) ∧
    ∀ (World : Type) (e : Endpoint World) (o : Operation World) (p p' : Packet) (world : World),
      p.message = some m → m.payload.Untagged → e.dispatch p = (.ok o, p') →
        ∃ cause p'', Invoker.invoke e p world =
          (Invoker.answerError e.kind p'' (.deserialization false (.xml cause)), world) := by
  have hcontent : m.payloadName.2.readElement.1 = m.readElement.1 := m.sameContent_payloadName.readElement
  rw [hcontent]
  refine ⟨fun hm hleft => ⟨hasPayload_eq_false_iff, hm.payloadName_none_iff hleft, fun hempty => ?_,
    readElement_of_untagged, ?_⟩, fun kind bytes contentType h =>
      ⟨Codec.reached_of_decode h, Codec.unconsumed_of_decode h, Codec.untagged_of_decode_iff h⟩,
    fun World e o p p' world hp huntagged hdispatch => Invoker.invoke_of_untagged hp huntagged hdispatch world⟩
  · exact readElement_ok_iff.mpr (hempty ▸ .empty)
  · intro q c hname hread
    exact (hm.truthful.payloadName_eq (readElement_ok_iff.mp hread) hname).symm

/-- A request that is a comment is taken for one without a payload. -/
theorem presence_of_payload_comment :
    let bytes := Token.ascii "<!--c-->"
    ∃ m, Codec.decode .xmlHttp bytes none = .ok m ∧ m.hasPayload.1 = .ok false ∧
      ∃ cause, m.payloadName.2.readElement.1 = .error (.xml cause) := by
  intro bytes
  have huntagged : Token.Consists Token.Passed (dropByteOrderMark (stripDeclaration bytes)) :=
    .cons (t := .comment) rfl trivial .nil
  have hdocument : Utf8.decodeChars bytes = .ok "<!--c-->".toList := Utf8.decodeChars_encodeChars _
  have hscan : Codec.rejectEntities .v11 bytes = .ok () := Codec.rejectEntities_of_scan hdocument (by decide) .v11
  have hdecode : Codec.decode .xmlHttp bytes none = .ok (.ofBytes none (stripDeclaration bytes)) := by
    have hbody : (stripDeclaration bytes).all isAsciiSpace = false := by decide
    rw [Codec.decode]
    refine (Codec.decodeXml_eq rfl hscan rfl).trans ?_
    rw [hbody]
    rfl
  have hrequest := (presence_of_payload (.ofBytes none (stripDeclaration bytes))).2.1 _ _ _ hdecode
  obtain ⟨hreached, hleft, hiff⟩ := hrequest
  obtain ⟨hpresence, hname, -, hread, -⟩ :=
    (presence_of_payload (.ofBytes none (stripDeclaration bytes))).1 hreached hleft
  have hpayload := hiff.mpr ⟨rfl, by decide, huntagged⟩
  exact ⟨_, hdecode, hpresence.mpr (hname.mpr (.inr hpayload)), hread hpayload⟩

/-- No bytes at all are no payload, but they are not read as none. -/
theorem hasPayload_of_no_bytes :
    (ofBytes none []).hasPayload.1 = .ok false ∧
      (ofBytes none []).payloadName.2.readElement.1 = .error (.xml .noRoot) := by
  have hsniff : sniff [] = .ok none := sniff_eq_none_iff.mpr .nil
  have hparse : Element.parse [] = .error .noRoot := by
    rw [Element.parse, show dropByteOrderMark [] = [] from rfl, Reader.run]
    rfl
  constructor
  · simp [hasPayload, payloadName, ofBytes, ofPayload, hsniff, Except.map]
  · rw [(sameContent_payloadName _).readElement]
    simp [readElement, readBytes, ofBytes, ofPayload, hparse, Except.mapError, Except.map]

end Message

end SoapNode
