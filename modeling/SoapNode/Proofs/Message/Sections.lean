import SoapNode.Proofs.Message.Envelopes

/-!
# The parts of an envelope

An element is accepted as an envelope when all its children are headers but the last one, which is the
body. The message has the blocks of the headers, in their order, and the first element of the body, each
taken out with the bindings in scope around it.
-/

namespace SoapNode

namespace Envelope

/-- The elements of a part, taken out of the envelope. -/
def taken (envelope part : Element) : List Element := part.elements.map (·.inherit (scopeOf envelope part))

/-- The parts of an envelope, and what a message has of them. -/
structure Parts (envelope : Element) (m : Message) (v : SoapVersion) (headers : List Element)
    (body : Element) : Prop where
  name_eq : envelope.name = v.name "Envelope"
  elements_eq : envelope.elements = headers ++ [body]
  header_name : ∀ part ∈ headers, part.name = v.name "Header"
  body_name : body.name = v.name "Body"
  version_eq : m.version = some v
  headers_eq : m.headers = .ofBlocks ((headers.flatMap (taken envelope)).map Header.mk)
  payload_eq : m.payload = .ofElement (taken envelope body).head?

variable {v : SoapVersion} {envelope : Element} {m : Message} {c c' : Contents} {parts : List Element}
  {payload : Option Element}

theorem readSection_ok {part : Element} (h : readSection v envelope c part = .ok c') :
    c.body = none ∧
      ((part.name = v.name "Header" ∧ c' = ⟨c.headers ++ (taken envelope part).map Header.mk, none⟩) ∨
      part.name = v.name "Body" ∧ c' = ⟨c.headers, some (taken envelope part).head?⟩) := by
  have hname : ∀ {localPart}, part.name.namespaceUri = v.envelopeUri → part.name.localPart = localPart →
      part.name = v.name localPart := by
    intro localPart huri hlocal
    exact QName.eq_of_parts huri hlocal
  obtain ⟨headers, found⟩ := c
  rw [readSection] at h
  split at h
  · cases h
  · rename_i huri
    have huri := not_not.mp huri
    dsimp only at h
    split at h
    · rename_i hheader
      cases h
      obtain rfl : found = none := Option.isNone_iff_eq_none.mp hheader.2
      exact ⟨rfl, .inl ⟨hname huri hheader.1, rfl⟩⟩
    · split at h
      · rename_i hbody
        cases h
        obtain rfl : found = none := Option.isNone_iff_eq_none.mp hbody.2
        exact ⟨rfl, .inr ⟨hname huri hbody.1, rfl⟩⟩
      · cases h

/-- Nothing may stand behind the body. -/
theorem eq_nil_of_foldlM (h : parts.foldlM (readSection v envelope) c = .ok c') (hbody : c.body ≠ none) :
    parts = [] := by
  cases parts with
  | nil => rfl
  | cons part parts =>
    rw [List.foldlM_cons] at h
    obtain ⟨c₁, hread, -⟩ := ok_of_bind h
    exact absurd (readSection_ok hread).1 hbody

theorem split_of_foldlM (h : parts.foldlM (readSection v envelope) c = .ok c') (hbody : c.body = none)
    (hfound : c'.body = some payload) :
    ∃ headers body, parts = headers ++ [body] ∧ (∀ part ∈ headers, part.name = v.name "Header") ∧
      body.name = v.name "Body" ∧
      c'.headers = c.headers ++ (headers.flatMap (taken envelope)).map Header.mk ∧
      payload = (taken envelope body).head? := by
  induction parts generalizing c with
  | nil =>
    cases h
    rw [hbody] at hfound
    cases hfound
  | cons part parts ih =>
    rw [List.foldlM_cons] at h
    obtain ⟨c₁, hread, hrest⟩ := ok_of_bind h
    obtain ⟨-, ⟨hheader, rfl⟩ | ⟨hname, rfl⟩⟩ := readSection_ok hread
    · obtain ⟨headers, body, rfl, hheaders, hbody, hblocks, hpayload⟩ := ih hrest rfl
      refine ⟨part :: headers, body, rfl, List.forall_mem_cons.mpr ⟨hheader, hheaders⟩, hbody, ?_, hpayload⟩
      rw [hblocks, List.flatMap_cons, List.map_append, List.append_assoc]
    · obtain rfl := eq_nil_of_foldlM hrest nofun
      cases hrest
      cases hfound
      exact ⟨[], part, rfl, nofun, hname, (List.append_nil _).symm, rfl⟩

theorem parts_of_ofElement (h : ofElement envelope = .ok m) : ∃ v headers body, Parts envelope m v headers body := by
  rw [ofElement] at h
  split at h
  · cases h
  · rename_i hlocal
    split at h
    · cases h
    · rename_i v hversion
      obtain ⟨c, hread, h⟩ := ok_of_bind h
      split at h
      · cases h
      · rename_i payload hfound
        obtain ⟨headers, body, hparts, hheaders, hbody, hblocks, rfl⟩ := split_of_foldlM hread rfl hfound
        have hname : envelope.name = v.name "Envelope" :=
          QName.eq_of_parts (SoapVersion.eq_envelopeUri_of_ofUri? hversion) (not_not.mp hlocal)
        rw [List.nil_append] at hblocks
        refine ⟨v, headers, body, ?_⟩
        cases hpayload : (taken envelope body).head? with
        | none =>
          rw [hpayload] at h
          cases h
          exact ⟨hname, hparts, hheaders, hbody, rfl, congrArg HeaderList.ofBlocks hblocks, by rw [hpayload]; rfl⟩
        | some e =>
          rw [hpayload] at h
          cases h
          exact ⟨hname, hparts, hheaders, hbody, rfl, congrArg HeaderList.ofBlocks hblocks, by rw [hpayload]; rfl⟩

end Envelope

end SoapNode
