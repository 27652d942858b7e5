import SoapNode.Message.Envelope
import SoapNode.Proofs.Soap.EntityScan
import SoapNode.Proofs.Soap.EnvelopeTags
import SoapNode.Proofs.Xml.Shapes

/-!
# Written envelopes are read back

The envelope around header blocks and a payload is itself a written document: its own tags are written
tags, and the blocks and the payload stand in it as written elements. Reading it gives the blocks and
the payload in their settled form with the one binding of the envelope added, and the scan for entity
declarations passes.
-/

namespace SoapNode

open StartTag Name Token

namespace Envelope

def sectionChars (v : SoapVersion) (part : String) (content : List Char) : List Char :=
  '<' :: (tag v part).write [] ++ '>' :: content ++ '<' :: '/' :: (tag v part).writtenName ++ ['>']

def chars (v : SoapVersion) (blocks : List Element) (payload : List Char) : List Char :=
  '<' :: (tag v "Envelope").write (frame v) ++
    '>' :: (if blocks.isEmpty then [] else sectionChars v "Header" (blocks.flatMap Element.toChars)) ++
    sectionChars v "Body" payload ++ '<' :: '/' :: (tag v "Envelope").writtenName ++ ['>']

theorem writtenName_tag (v : SoapVersion) (part : String) :
    (tag v part).writtenName = (envelopePrefix ++ ":" ++ part).toList := by
  rw [writtenName, writtenPrefix_tag, if_neg (by decide)]
  simp [tag, SoapVersion.name]

theorem openTag_eq (v : SoapVersion) (part : String) :
    openTag part = Utf8.encodeChars ('<' :: (tag v part).write [] ++ ['>']) := by
  rw [write_eq, writtenName_tag, openTag, Token.ascii, Utf8.encode]
  simp [tag, attributePairs, writePairs]

theorem closeTag_eq (v : SoapVersion) (part : String) :
    closeTag part = Utf8.encodeChars ('<' :: '/' :: (tag v part).writtenName ++ ['>']) := by
  rw [writtenName_tag, closeTag, Token.ascii, Utf8.encode]
  simp

theorem opening_eq (v : SoapVersion) :
    Token.ascii ("<" ++ envelopePrefix ++ ":Envelope xmlns:" ++ envelopePrefix ++ "=\"" ++ v.envelopeUri ++ "\">") =
      Utf8.encodeChars ('<' :: (tag v "Envelope").write (frame v) ++ ['>']) := by
  cases v <;> rfl

theorem flatMap_toBytes (headers : List Header) :
    headers.flatMap (·.element.toBytes) = Utf8.encodeChars ((headers.map (·.element)).flatMap Element.toChars) := by
  induction headers with
  | nil => rfl
  | cons h headers ih =>
    rw [List.flatMap_cons, List.map_cons, List.flatMap_cons, Utf8.encodeChars_append, ih]
    rfl

theorem wrap_eq (v : SoapVersion) (headers : List Header) (payload : List Char) :
    wrap v headers (Utf8.encodeChars payload) = Utf8.encodeChars (chars v (headers.map (·.element)) payload) := by
  rw [wrap, opening_eq, openTag_eq v "Header", closeTag_eq v "Header", openTag_eq v "Body", closeTag_eq v "Body",
    closeTag_eq v "Envelope", flatMap_toBytes, chars, sectionChars, sectionChars]
  cases headers <;> simp [Utf8.encodeChars_append, Utf8.encodeChars_cons]

theorem quiet_sectionChars (v : SoapVersion) {part : String} (h : isNCName part = true) {content : List Char}
    (hcontent : EntityScan.quiet content = true) : EntityScan.quiet (sectionChars v part content) = true := by
  have htag := writable_tag v h
  have hopen := StartTag.quiet_write htag (fits_nil (tag v part))
  have hclose := StartTag.quiet_endTag htag
  rw [sectionChars, List.append_assoc]
  refine EntityScan.quiet_append (EntityScan.quiet_append hopen ?_) hclose
  rwa [EntityScan.quiet_cons_of_ne _ (by decide)]

theorem quiet_elements {es : List Element} (h : ∀ e ∈ es, e.Writable) :
    EntityScan.quiet (es.flatMap Element.toChars) = true := by
  induction es with
  | nil => rfl
  | cons e es ih =>
    rw [List.flatMap_cons]
    exact EntityScan.quiet_append (Element.quiet_toChars (h e List.mem_cons_self))
      (ih (fun e' he' => h e' (List.mem_cons_of_mem _ he')))

theorem quiet_chars (v : SoapVersion) {blocks : List Element} {payload : List Char}
    (hblocks : ∀ e ∈ blocks, e.Writable) (hpayload : EntityScan.quiet payload = true) :
    EntityScan.quiet (chars v blocks payload) = true := by
  have htag := writable_tag v (show isNCName "Envelope" = true by decide)
  have hopen := StartTag.quiet_write htag (declares_envelope v "Envelope").fits
  have hclose := StartTag.quiet_endTag htag
  have hheader : EntityScan.quiet
      (if blocks.isEmpty then [] else sectionChars v "Header" (blocks.flatMap Element.toChars)) = true := by
    split
    · rfl
    · exact quiet_sectionChars v (by decide) (quiet_elements hblocks)
  have hbody := quiet_sectionChars v (show isNCName "Body" = true by decide) hpayload
  rw [chars, List.append_assoc]
  refine EntityScan.quiet_append (EntityScan.quiet_append (EntityScan.quiet_append hopen ?_) hbody) hclose
  rwa [EntityScan.quiet_cons_of_ne _ (by decide)]

theorem declaration_eq : declaration = Utf8.encodeChars "<?xml version=\"1.0\" encoding=\"UTF-8\"?>".toList := rfl

theorem next_declaration (rest : Bytes) : Token.next (declaration ++ rest) = .ok (some (.instruction, rest)) := rfl

def «section» (v : SoapVersion) (part : String) (content : List Element) : Element :=
  ⟨(tag v part).settle [], content.map Element.toNode⟩

def tree (v : SoapVersion) (blocks : List Element) (payload : Option Element) : Element :=
  ⟨(tag v "Envelope").settle (frame v),
    (if blocks.isEmpty then [] else [(«section» v "Header" blocks).toNode]) ++
      [(«section» v "Body" payload.toList).toNode]⟩

theorem run_elements (v : SoapVersion) (o : OpenElement) (os : List OpenElement) (es : List Element)
    (h : ∀ e ∈ es, e.Writable) (rest : Bytes) :
    Reader.run ⟨scopes v, o :: os⟩ (Utf8.encodeChars (es.flatMap Element.toChars) ++ rest) =
      Reader.run ⟨scopes v, { o with
        children := (es.map (fun e => (e.settle []).toNode)).reverse ++ o.children } :: os⟩ rest := by
  induction es generalizing o with
  | nil => rfl
  | cons e es ih =>
    have he := h e List.mem_cons_self
    have helement := Reader.run_element (r := ⟨scopes v, o :: os⟩) (covers_scopes v)
      (Utf8.encodeChars (es.flatMap Element.toChars) ++ rest) e.tag e.children he.1 he.2
    rw [List.flatMap_cons, Utf8.encodeChars_append, List.append_assoc, Element.toChars, Element.toNode, helement,
      Reader.attach_resume, ih _ (fun e' he' => h e' (List.mem_cons_of_mem _ he'))]
    simp

theorem encodeChars_sectionChars (v : SoapVersion) (part : String) (content : List Char) (rest : Bytes) :
    Utf8.encodeChars (sectionChars v part content) ++ rest =
      lessThan :: (Utf8.encodeChars ((tag v part).write []) ++
        greaterThan :: (Utf8.encodeChars content ++
          lessThan :: slash :: (Utf8.encodeChars (tag v part).writtenName ++ greaterThan :: rest))) := by
  simp only [sectionChars, Utf8.encodeChars_append, Reader.encodeChars_open, Reader.encodeChars_close,
    Reader.encodeChars_slash, List.cons_append, List.append_assoc, Utf8.encodeChars_nil, List.nil_append]

theorem run_section (v : SoapVersion) {part : String} (hpart : isNCName part = true) {o : OpenElement}
    {os : List OpenElement} (es : List Element) (h : ∀ e ∈ es, e.Writable) (rest : Bytes) :
    Reader.run ⟨[frame v], o :: os⟩ (Utf8.encodeChars (sectionChars v part (es.flatMap Element.toChars)) ++ rest) =
      Reader.run ⟨[frame v], { o with
        children := («section» v part (es.map (·.settle []))).toNode :: o.children } :: os⟩ rest := by
  have htag := writable_tag v hpart
  have helements := run_elements v ⟨Utf8.encodeChars (tag v part).writtenName,
    (tag v part).settle [], []⟩ (o :: os) es h
    (lessThan :: slash :: (Utf8.encodeChars (tag v part).writtenName ++ greaterThan :: rest))
  rw [encodeChars_sectionChars, Reader.run_startTag htag (declares_section v part)]
  rw [show ([] : List PrefixBinding) :: [frame v] = scopes v from rfl, helements,
    Reader.run_endTag (legible_writtenName htag) rfl, Reader.attach_resume]
  simp [«section»]
  rfl

theorem encodeChars_chars (v : SoapVersion) (blocks : List Element) (payload : List Char) :
    Utf8.encodeChars (chars v blocks payload) =
      lessThan :: (Utf8.encodeChars ((tag v "Envelope").write (frame v)) ++
        greaterThan :: (Utf8.encodeChars
            (if blocks.isEmpty then [] else sectionChars v "Header" (blocks.flatMap Element.toChars)) ++
          (Utf8.encodeChars (sectionChars v "Body" payload) ++
            lessThan :: slash :: (Utf8.encodeChars (tag v "Envelope").writtenName ++ [greaterThan])))) := by
  simp only [chars, Utf8.encodeChars_append, Reader.encodeChars_open, Reader.encodeChars_close,
    Reader.encodeChars_slash, List.cons_append, List.append_assoc, Utf8.encodeChars_nil]

theorem run_header (v : SoapVersion) {o : OpenElement} {os : List OpenElement} (blocks : List Element)
    (h : ∀ e ∈ blocks, e.Writable) (rest : Bytes) :
    Reader.run ⟨[frame v], o :: os⟩ (Utf8.encodeChars
        (if blocks.isEmpty then [] else sectionChars v "Header" (blocks.flatMap Element.toChars)) ++ rest) =
      Reader.run ⟨[frame v], { o with
        children := (if blocks.isEmpty then []
          else [(«section» v "Header" (blocks.map (·.settle []))).toNode]) ++ o.children } :: os⟩ rest := by
  cases blocks with
  | nil => rfl
  | cons e es => exact run_section v (by decide) (e :: es) h rest

theorem parse_declaration (rest : Bytes) : Element.parse (declaration ++ rest) = Reader.initial.run rest :=
  Reader.run_of_next (next_declaration rest) rfl

theorem parse_chars (v : SoapVersion) (blocks : List Element) (payload : Option Element)
    (hblocks : ∀ e ∈ blocks, e.Writable) (hpayload : ∀ e ∈ payload, e.Writable) :
    Element.parse (declaration ++ Utf8.encodeChars (chars v blocks (payload.toList.flatMap Element.toChars))) =
      .ok (tree v (blocks.map (·.settle [])) (payload.map (·.settle []))) := by
  have htag := writable_tag v (show isNCName "Envelope" = true by decide)
  have hbody : ∀ e ∈ payload.toList, e.Writable := fun e he => hpayload e (by simpa using he)
  rw [parse_declaration, encodeChars_chars, Reader.run_startTag htag (declares_envelope v "Envelope"),
    Reader.initial, run_header v blocks hblocks, run_section v (by decide) _ hbody,
    Reader.run_endTag (legible_writtenName htag) rfl]
  cases blocks <;> cases payload <;> rfl

/-- An envelope that is read has its first block read. -/
theorem exists_run_of_parse {v : SoapVersion} {block root : Element} {blocks : List Element} {payload : List Char}
    (h : Element.parse (declaration ++ Utf8.encodeChars (chars v (block :: blocks) payload)) = .ok root) :
    ∃ (r : Reader) (rest : Bytes), r.run (Utf8.encodeChars block.toChars ++ rest) = .ok root := by
  have henvelope := writable_tag v (show isNCName "Envelope" = true by decide)
  have hheader := writable_tag v (show isNCName "Header" = true by decide)
  rw [parse_declaration, encodeChars_chars, Reader.run_startTag henvelope (declares_envelope v "Envelope"),
    List.isEmpty_cons, if_neg Bool.false_ne_true, encodeChars_sectionChars, Reader.initial,
    Reader.run_startTag hheader (declares_section v "Header"),
    List.flatMap_cons, Utf8.encodeChars_append, List.append_assoc] at h
  exact ⟨_, _, h⟩

/-- An envelope that is read has its payload read. -/
theorem run_payload_of_parse {v : SoapVersion} {root : Element} {blocks : List Element}
    (hblocks : ∀ e ∈ blocks, e.Writable) {payload : List Char}
    (h : Element.parse (declaration ++ Utf8.encodeChars (chars v blocks payload)) = .ok root) :
    ∃ (r : Reader) (rest : Bytes), r.scopes.Covers [] ∧ r.run (Utf8.encodeChars payload ++ rest) = .ok root := by
  have henvelope := writable_tag v (show isNCName "Envelope" = true by decide)
  have hbody := writable_tag v (show isNCName "Body" = true by decide)
  rw [parse_declaration, encodeChars_chars, Reader.run_startTag henvelope (declares_envelope v "Envelope"),
    Reader.initial, run_header v blocks hblocks, encodeChars_sectionChars,
    Reader.run_startTag hbody (declares_section v "Body")] at h
  exact ⟨_, _, covers_scopes v, h⟩

theorem look_chars (v : SoapVersion) (blocks : List Element) (payload : List Char) :
    Sniff.look (declaration ++ Utf8.encodeChars (chars v blocks payload)) = .ok (.named (v.name "Envelope")) := by
  have htag := writable_tag v (show isNCName "Envelope" = true by decide)
  rw [Sniff.look_of_next (next_declaration _), encodeChars_chars]
  exact Sniff.look_startTag htag (declares_envelope v "Envelope") _

theorem sniff_chars (v : SoapVersion) (blocks : List Element) (payload : List Char) :
    sniff (declaration ++ Utf8.encodeChars (chars v blocks payload)) = .ok (some (v.name "Envelope")) := by
  have hbom : ∀ rest, dropByteOrderMark (declaration ++ rest) = declaration ++ rest := fun _ => rfl
  rw [sniff, hbom, look_chars]

end Envelope

def Payload.ofElement : Option Element → Payload
  | some e => .tree e
  | none => .empty

namespace Envelope

def message (v : SoapVersion) (blocks : List Element) (payload : Option Element) : Message where
  version := some v
  headers := .ofBlocks ((blocks.map (·.inherit (frame v))).map Header.mk)
  attachments := []
  payload := .ofElement (payload.map (·.inherit (frame v)))
  knownName := none

theorem scopeOf_section (v : SoapVersion) (tag : StartTag) (children : List Node) (part : String)
    (content : List Element) :
    scopeOf ⟨{ tag with declarations := frame v }, children⟩ («section» v part content) = frame v := by
  cases v <;> rfl

theorem readSection_header (v : SoapVersion) (blocks : List Element) (children : List Node) :
    readSection v ⟨(tag v "Envelope").settle (frame v), children⟩ ⟨[], none⟩ («section» v "Header" blocks) =
      .ok ⟨(blocks.map (·.inherit (frame v))).map Header.mk, none⟩ := by
  have hscope := scopeOf_section v ((tag v "Envelope").settle (frame v)) children "Header" blocks
  have helements : («section» v "Header" blocks).elements = blocks := Element.elements_around _ _
  have hname : («section» v "Header" blocks).name = v.name "Header" := rfl
  rw [readSection, hname, if_neg (by simp [SoapVersion.name]), if_pos ⟨rfl, rfl⟩, helements]
  exact congrArg (fun scope => Except.ok (Contents.mk ((blocks.map (·.inherit scope)).map Header.mk) none)) hscope

theorem readSection_body (v : SoapVersion) (headers : List Header) (payload : Option Element) (children : List Node) :
    readSection v ⟨(tag v "Envelope").settle (frame v), children⟩ ⟨headers, none⟩
      («section» v "Body" payload.toList) =
      .ok ⟨headers, some (payload.map (·.inherit (frame v)))⟩ := by
  have hscope := scopeOf_section v ((tag v "Envelope").settle (frame v)) children "Body" payload.toList
  have helements : («section» v "Body" payload.toList).elements = payload.toList := Element.elements_around _ _
  have hname : («section» v "Body" payload.toList).name = v.name "Body" := rfl
  rw [readSection, hname, if_neg (by simp [SoapVersion.name]), if_neg (by simp [SoapVersion.name]),
    if_pos ⟨rfl, rfl⟩, helements]
  refine congrArg Except.ok ?_
  rw [Contents.mk.injEq]
  refine ⟨rfl, congrArg some ?_⟩
  cases payload with
  | none => rfl
  | some e => exact congrArg (fun scope => some (e.inherit scope)) hscope

theorem ofElement_tree (v : SoapVersion) (blocks : List Element) (payload : Option Element) :
    ofElement (tree v blocks payload) = .ok (message v blocks payload) := by
  have hversion : SoapVersion.ofUri? (tree v blocks payload).name.namespaceUri = some v :=
    SoapVersion.ofUri?_envelopeUri v
  rw [ofElement, if_neg (by rintro h; exact h rfl), hversion]
  have hbody := readSection_body v ((blocks.map (·.inherit (frame v))).map Header.mk) payload
    (tree v blocks payload).children
  have hread : (tree v blocks payload).elements.foldlM (readSection v (tree v blocks payload)) ⟨[], none⟩ =
      .ok ⟨(blocks.map (·.inherit (frame v))).map Header.mk, some (payload.map (·.inherit (frame v)))⟩ := by
    cases blocks with
    | nil => exact (congrArg (· >>= pure) hbody).trans rfl
    | cons e es =>
      have hheader := readSection_header v (e :: es) (tree v (e :: es) payload).children
      exact (congrArg (fun r => r >>= fun c =>
        readSection v (tree v (e :: es) payload) c («section» v "Body" payload.toList) >>= pure) hheader).trans
        ((congrArg (· >>= pure) hbody).trans rfl)
  simp only [hread, bind, Except.bind]
  cases payload <;> rfl

/-- Reading a written envelope gives its blocks and its payload settled and detached. -/
theorem parse_written (v : SoapVersion) (blocks : List Element) (payload : Option Element)
    (hblocks : ∀ e ∈ blocks, e.Writable) (hpayload : ∀ e ∈ payload, e.Writable) :
    parse (declaration ++ Utf8.encodeChars (chars v blocks (payload.toList.flatMap Element.toChars))) =
      .ok (message v (blocks.map (·.settle [])) (payload.map (·.settle []))) := by
  rw [parse, parse_chars v blocks payload hblocks hpayload]
  simp only [mapError_ok, bind, Except.bind, ofElement_tree]

end Envelope

theorem Message.toEnvelope_eq {m : Message} {v : SoapVersion} (hversion : m.version = some v) {payload : Option Element}
    (hpayload : m.payload = .ofElement payload) :
    m.toEnvelope.1 = .ok (Envelope.declaration ++ Utf8.encodeChars
      (Envelope.chars v (m.headers.blocks.map (·.element)) (payload.toList.flatMap Element.toChars))) := by
  have hbytes : m.writePayload.1 = .ok (Utf8.encodeChars (payload.toList.flatMap Element.toChars)) := by
    cases payload with
    | none =>
      simp only [Message.writePayload, Message.readBytes, hpayload, Payload.ofElement]
      rfl
    | some e =>
      simp only [Message.writePayload, hpayload, Payload.ofElement, Option.toList_some, List.flatMap_singleton]
      rfl
  simp only [Message.toEnvelope, Message.write, hversion, hbytes, Except.map, Envelope.wrap_eq]

end SoapNode
