import SoapNode.Proofs.Message.Acceptance
import SoapNode.Proofs.Xml.Inside

/-!
# A document as the payload

A payload of bytes is copied into the body of the envelope as it is, but for what is cut in front of it. Read
back as part of the envelope it is the element that it is on its own, for the envelope declares one prefix
that the document cannot have used without declaring it itself.
-/

namespace SoapNode

open StartTag Token

namespace Envelope

/-- A body that was read with texts around the payload. -/
def bodyAround (v : SoapVersion) (before : List String) (e : Element) (behind : List String) : Element :=
  ⟨(tag v "Body").settle [], (behind.map Node.text ++ e.toNode :: before.map Node.text).reverse⟩

theorem elements_bodyAround (v : SoapVersion) (before : List String) (e : Element) (behind : List String) :
    (bodyAround v before e behind).elements = [e] := by
  have htexts : ∀ texts : List String, (texts.map Node.text).filterMap Node.element? = [] := by
    intro texts
    rw [List.filterMap_eq_nil_iff]
    exact List.forall_mem_map.mpr (fun _ _ => rfl)
  rw [bodyAround, Element.elements, List.filterMap_reverse, List.filterMap_append, List.filterMap_cons, htexts, htexts]
  rfl

def headerParts (v : SoapVersion) (blocks : List Element) : List Element :=
  if blocks.isEmpty then [] else [«section» v "Header" blocks]

/-- The envelope that is read around a body. -/
def treeAround (v : SoapVersion) (blocks : List Element) (body : Element) : Element :=
  ⟨(tag v "Envelope").settle (frame v), (headerParts v blocks ++ [body]).map Element.toNode⟩

theorem wrap_bytes (v : SoapVersion) (headers : List Header) (payload : Bytes) :
    wrap v headers payload =
      lessThan :: (Utf8.encodeChars ((tag v "Envelope").write (frame v)) ++
        greaterThan :: (Utf8.encodeChars (if (headers.map (·.element)).isEmpty then []
            else sectionChars v "Header" ((headers.map (·.element)).flatMap Element.toChars)) ++
          lessThan :: (Utf8.encodeChars ((tag v "Body").write []) ++
            greaterThan :: (payload ++
              lessThan :: (slash :: (Utf8.encodeChars (tag v "Body").writtenName ++
                greaterThan :: (lessThan :: slash ::
                  (Utf8.encodeChars (tag v "Envelope").writtenName ++ [greaterThan])))))))) := by
  rw [wrap, opening_eq, openTag_eq v "Header", closeTag_eq v "Header", openTag_eq v "Body", closeTag_eq v "Body",
    closeTag_eq v "Envelope", flatMap_toBytes]
  cases headers <;>
    simp [sectionChars, Utf8.encodeChars_append, Reader.encodeChars_open, Reader.encodeChars_close,
      Reader.encodeChars_slash]

variable {v : SoapVersion} {headers : List Header} {body e : Element} {d : Bytes}

theorem run_body (hdocument : e.IsDocument d) (o : OpenElement) (os : List OpenElement) (rest : Bytes) :
    ∃ before behind, Reader.run ⟨[frame v], o :: os⟩ (lessThan :: (Utf8.encodeChars ((tag v "Body").write []) ++
        greaterThan :: (stripDeclaration d ++
          lessThan :: (slash :: (Utf8.encodeChars (tag v "Body").writtenName ++ greaterThan :: rest))))) =
      Reader.run ⟨[frame v], { o with children := (bodyAround v before e behind).toNode :: o.children } :: os⟩
        rest := by
  have hbody := writable_tag v (show isNCName "Body" = true by decide)
  obtain ⟨before, behind, hrun⟩ := hdocument.run_inside (covers_scopes v)
    ⟨Utf8.encodeChars (tag v "Body").writtenName, (tag v "Body").settle [], []⟩ (o :: os)
    (slash :: (Utf8.encodeChars (tag v "Body").writtenName ++ greaterThan :: rest))
  refine ⟨before, behind, ?_⟩
  rw [Reader.run_startTag hbody (declares_section v "Body"),
    show ([] : List PrefixBinding) :: [frame v] = scopes v from rfl, hrun,
      Reader.run_endTag (legible_writtenName hbody) rfl, Reader.attach_resume]
  rw [bodyAround, ← List.append_nil (before.map Node.text)]
  rfl

theorem parse_wrap (hblocks : ∀ h ∈ headers, h.element.Writable) (hdocument : e.IsDocument d) :
    ∃ before behind, Element.parse (declaration ++ wrap v headers (stripDeclaration d)) =
      .ok (treeAround v (headers.map (·.element.settle [])) (bodyAround v before e behind)) := by
  have henvelope := writable_tag v (show isNCName "Envelope" = true by decide)
  have hwritable : ∀ b ∈ headers.map (·.element), b.Writable := List.forall_mem_map.mpr hblocks
  obtain ⟨before, behind, hrun⟩ := run_body (v := v) hdocument
    ⟨Utf8.encodeChars (tag v "Envelope").writtenName, (tag v "Envelope").settle (frame v),
      (headerParts v (headers.map (·.element.settle []))).map Element.toNode⟩ []
    (lessThan :: slash :: (Utf8.encodeChars (tag v "Envelope").writtenName ++ [greaterThan]))
  have hheader : (if (headers.map (·.element)).isEmpty then []
      else [(«section» v "Header" ((headers.map (·.element)).map (·.settle []))).toNode]) =
        (headerParts v (headers.map (·.element.settle []))).map Element.toNode := by
    cases headers with
    | nil => rfl
    | cons h headers => rw [List.map_map]; rfl
  refine ⟨before, behind, ?_⟩
  rw [parse_declaration, wrap_bytes, Reader.run_startTag henvelope (declares_envelope v "Envelope"), Reader.initial,
    run_header v _ hwritable, List.append_nil, hheader, hrun, Reader.run_endTag (legible_writtenName henvelope) rfl,
    treeAround, List.map_append]
  unfold headerParts
  split <;> rfl

theorem grammar_treeAround (blocks : List Element) (hname : body.name = v.name "Body") :
    Grammar v (treeAround v blocks body) (headerParts v blocks) body where
  name_eq := rfl
  elements_eq := Element.elements_around _ _
  header_name := by
    intro part hpart
    unfold headerParts at hpart
    split at hpart
    · cases hpart
    · rw [List.mem_singleton.mp hpart]
      rfl
  body_name := hname

theorem elements_headerParts (v : SoapVersion) (blocks : List Element) :
    (headerParts v blocks).flatMap Element.elements = blocks := by
  cases blocks with
  | nil => rfl
  | cons b blocks => exact (List.append_nil _).trans (Element.elements_around _ _)

end Envelope

namespace Message

variable {m : Message} {v : SoapVersion} {d : Bytes} {e : Element}

theorem toEnvelope_of_buffered (hversion : m.version = some v) (hpayload : m.payload = .buffered d) :
    m.toEnvelope.1 = .ok (Envelope.declaration ++ Envelope.wrap v m.headers.blocks (stripDeclaration d)) := by
  simp only [toEnvelope, write, writePayload, readBytes, hversion, hpayload, Except.map, Option.getD_some]

/-- A payload that was given as a document is found again in the envelope, between whatever blocks the message has. -/
theorem embedded_document (hversion : m.version = some v) (hpayload : m.payload = .buffered d)
    (hblocks : ∀ h ∈ m.headers.blocks, (∃ bytes, Element.parse bytes = .ok h.element) ∧ h.element.WellFormed)
    (hdocument : e.IsDocument d) :
    Element.parse (stripDeclaration d) = .ok e ∧
      ∃ bytes m', m.toEnvelope.1 = .ok bytes ∧ Envelope.parse bytes = .ok m' ∧ m'.version = some v ∧
        List.Forall₂ (fun h' h => h'.element.Same h.element.norm) m'.headers.blocks m.headers.blocks ∧
        ∃ e', m'.payload = .tree e' ∧ e'.Same e := by
  have hwritable : ∀ h ∈ m.headers.blocks, h.element.Writable := by
    intro h hh
    obtain ⟨⟨bytes, hparse⟩, hwell⟩ := hblocks h hh
    exact (Element.stands_of_parse hparse hwell).writable
  obtain ⟨before, behind, hroot⟩ := Envelope.parse_wrap (v := v) hwritable hdocument
  have hbody : (Envelope.bodyAround v before e behind).name = v.name "Body" := rfl
  have hgrammar := Envelope.grammar_treeAround (m.headers.blocks.map (·.element.settle [])) hbody
  obtain ⟨m', hm'⟩ := hgrammar.accepted
  have hconveys := hgrammar.conveys hm'
  refine ⟨Element.parse_stripDeclaration hdocument.parse, _, m', toEnvelope_of_buffered hversion hpayload,
    Envelope.parse_eq_ok_iff.mpr ⟨_, hroot, hm'⟩, hconveys.version_eq, ?_, ?_⟩
  · have hsame := hconveys.blocks
    rw [Envelope.elements_headerParts, List.forall₂_map_right_iff] at hsame
    exact hsame.imp (fun h' h heq => heq.trans (Element.same_settle [] h.element))
  · obtain ⟨payload, hpayload', hrel⟩ := hconveys.payload
    rw [Envelope.elements_bodyAround] at hrel
    cases hrel with
    | some hsame => exact ⟨_, hpayload', hsame⟩

def order : Element := ((Element.named ⟨"urn:orders", "Order"⟩).withPrefix "o").declare "o" "urn:orders"

/-- An order in a document with all that may stand around a root. -/
def orderDocument : Bytes :=
  Token.ascii "\uFEFF" ++ (Token.ascii "<?xml version=\"1.0\"?>" ++ (Token.ascii "\n" ++ (Token.ascii "<!--c-->" ++
    (Token.ascii "<?xml-stylesheet s?>" ++ (order.toBytes ++ (Token.ascii "\n" ++ Token.ascii "<!--d-->"))))))

theorem isDocument_order : (order.settle []).IsDocument orderDocument := by
  have hline : (Token.text (Token.ascii "\n")).Trails := Token.trails_of_space (List.forall_mem_singleton.mpr rfl)
  refine ⟨Token.ascii "\n" ++ Token.ascii "<!--d-->", ?_, .cons rfl hline (.cons (t := .comment) rfl trivial .nil)⟩
  show Reader.initial.Ends (Token.ascii "<?xml version=\"1.0\"?>" ++ _) _ _
  refine .of_trails (t := .instruction) rfl trivial (.of_trails (t := .text (Token.ascii "\n")) rfl hline ?_)
  refine .of_trails (t := .comment) rfl trivial (.of_trails (t := .instruction) rfl trivial ?_)
  exact Reader.ends_childless (show order.tag.Writable by decide) _

theorem embedded_document_order :
    let m := (ofBytes (some .v12) orderDocument).addHeader ⟨Element.nested.settle []⟩
    ∃ bytes m', m.toEnvelope.1 = .ok bytes ∧ Envelope.parse bytes = .ok m' ∧
      ∃ e', m'.payload = .tree e' ∧ e'.Same (order.settle []) := by
  intro m
  have hblock : Element.parse Element.nested.toBytes = .ok (Element.nested.settle []) :=
    Element.parse_toBytes (by decide)
  have hblocks : ∀ h ∈ m.headers.blocks, (∃ bytes, Element.parse bytes = .ok h.element) ∧
      h.element.WellFormed :=
    List.forall_mem_singleton.mpr ⟨⟨_, hblock⟩, by decide⟩
  obtain ⟨-, bytes, m', hbytes, hm', -, -, hpayload⟩ :=
    embedded_document (v := .v12) rfl rfl hblocks isDocument_order
  exact ⟨bytes, m', hbytes, hm', hpayload⟩

end Message

end SoapNode
