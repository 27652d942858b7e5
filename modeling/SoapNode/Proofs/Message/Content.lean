import SoapNode.Packet

/-!
# Asking for a name leaves the content alone

To learn the name of its payload a message may read its source ahead, and it remembers the name. Whoever
reads the payload afterwards gets what they would have got before.
-/

namespace SoapNode

/-- The payload, of whose source more may have been pulled. -/
inductive Payload.SameContent : Payload → Payload → Prop where
  | refl (p : Payload) : SameContent p p
  | ahead {pulled pulled' : Bytes} {source source' : Source} (bytes : pulled' ++ source'.rest = pulled ++ source.rest)
      (breaks : source'.breaks = source.breaks) : SameContent (.stream pulled source) (.stream pulled' source')

/-- The message, but for how far its payload was read ahead and whether its name is remembered. -/
structure Message.SameContent (m m' : Message) : Prop where
  version_eq : m'.version = m.version
  headers_eq : m'.headers = m.headers
  attachments_eq : m'.attachments = m.attachments
  payload : m.payload.SameContent m'.payload

/-- The packet, but for how far the payload of its message was read ahead. -/
structure Packet.SameContent (p p' : Packet) : Prop where
  properties_eq : p'.properties = p.properties
  message : Option.Rel Message.SameContent p.message p'.message

theorem Source.breaks_of_read {s s' : Source} {room : Nat} {piece : Bytes} (h : s.read room = .ok (piece, s')) :
    s'.breaks = s.breaks := by
  rw [read] at h
  split at h
  · split at h
    · cases h
    · cases h
      rfl
  · cases h
    rfl

theorem sniffSource_content (pulled : Bytes) (s : Source) :
    (sniffSource pulled s).2.1 ++ (sniffSource pulled s).2.2.rest = pulled ++ s.rest ∧
      (sniffSource pulled s).2.2.breaks = s.breaks := by
  fun_induction sniffSource pulled s with
  | case1 => exact ⟨rfl, rfl⟩
  | case2 => exact ⟨rfl, rfl⟩
  | case3 => exact ⟨rfl, rfl⟩
  | case4 => exact ⟨rfl, rfl⟩
  | case5 pulled s _ _ s' hread =>
    exact ⟨congrArg (pulled ++ ·) (Source.read_append hread), Source.breaks_of_read hread⟩
  | case6 pulled s _ _ b piece s' hread ih =>
    refine ⟨?_, ih.2.trans (Source.breaks_of_read hread)⟩
    rw [ih.1, List.append_assoc, Source.read_append hread]

namespace Message

variable {m m' m'' : Message}

theorem SameContent.refl (m : Message) : m.SameContent m := ⟨rfl, rfl, rfl, .refl _⟩

theorem SameContent.trans (h : m.SameContent m') (h' : m'.SameContent m'') : m.SameContent m'' := by
  refine ⟨h'.version_eq.trans h.version_eq, h'.headers_eq.trans h.headers_eq,
    h'.attachments_eq.trans h.attachments_eq, ?_⟩
  have hfirst := h.payload
  have hsecond := h'.payload
  generalize m.payload = p at hfirst
  generalize m'.payload = p' at hfirst hsecond
  generalize m''.payload = p'' at hsecond
  cases hfirst with
  | refl => exact hsecond
  | ahead bytes breaks =>
    cases hsecond with
    | refl => exact .ahead bytes breaks
    | ahead bytes' breaks' => exact .ahead (bytes'.trans bytes) (breaks'.trans breaks)

theorem sameContent_remember (m : Message) (name : Option QName) : m.SameContent (m.remember name) :=
  ⟨rfl, rfl, rfl, .refl _⟩

theorem sameContent_payloadName (m : Message) : m.SameContent m.payloadName.2 := by
  rw [payloadName]
  split
  · exact .refl m
  · split
    · exact m.sameContent_remember none
    · exact m.sameContent_remember _
    · split
      · exact m.sameContent_remember _
      · exact .refl m
    · rename_i pulled source hpayload
      obtain ⟨hbytes, hbreaks⟩ := sniffSource_content pulled source
      have hahead : m.payload.SameContent
          (.stream (sniffSource pulled source).2.1 (sniffSource pulled source).2.2) := by
        rw [hpayload]
        exact .ahead hbytes hbreaks
      dsimp only
      split <;> exact ⟨rfl, rfl, rfl, hahead⟩
    · exact .refl m

theorem sameContent_isFault (m : Message) : m.SameContent m.isFault.2 := by
  rw [isFault]
  split
  · exact .refl m
  · exact m.sameContent_payloadName

theorem SameContent.readBytes (h : m.SameContent m') : m'.readBytes.1 = m.readBytes.1 := by
  have hpayload := h.payload
  simp only [Message.readBytes]
  generalize m.payload = p at hpayload ⊢
  generalize m'.payload = p' at hpayload ⊢
  cases hpayload with
  | refl => rfl
  | ahead bytes breaks =>
    simp only [Source.readAll, breaks]
    split
    · rfl
    · simp only [Except.map, bytes]

/-- The payload is read to the same tree, or not at all for the same reason. -/
theorem SameContent.readElement (h : m.SameContent m') : m'.readElement.1 = m.readElement.1 := by
  have hpayload := h.payload
  have hbytes := h.readBytes
  simp only [Message.readElement]
  generalize m.payload = p at hpayload ⊢
  generalize m'.payload = p' at hpayload ⊢
  cases hpayload with
  | refl =>
    cases p with
    | tree e => rfl
    | _ => simp only [hbytes]
  | ahead => simp only [hbytes]

/-- A name that is found is remembered, and what was remembered is found. -/
theorem knownName_payloadName (m : Message) : m.payloadName.2.knownName = m.payloadName.1.toOption := by
  rw [payloadName]
  split
  · assumption
  · rename_i hunknown
    split
    · rfl
    · rfl
    · split
      · rfl
      · exact hunknown
    · dsimp only
      split
      · rfl
      · exact hunknown
    · exact hunknown

/-- A name that was found once is found again. -/
theorem payloadName_again {name : Option QName} (h : m.payloadName = (.ok name, m')) :
    m'.payloadName = (.ok name, m') := by
  have hknown : m'.knownName = some name := by
    have hfound := m.knownName_payloadName
    rwa [h] at hfound
  rw [payloadName]
  simp only [hknown]

end Message

namespace Packet

variable {p p' p'' : Packet}

theorem SameContent.refl (p : Packet) : p.SameContent p := by
  refine ⟨rfl, ?_⟩
  cases p.message with
  | none => exact .none
  | some m => exact .some (.refl m)

theorem SameContent.trans (h : p.SameContent p') (h' : p'.SameContent p'') : p.SameContent p'' := by
  refine ⟨h'.properties_eq.trans h.properties_eq, ?_⟩
  have hfirst := h.message
  have hsecond := h'.message
  generalize p.message = m at hfirst
  generalize p'.message = m' at hfirst hsecond
  generalize p''.message = m'' at hsecond
  cases hfirst with
  | none => exact hsecond
  | some hfirst =>
    cases hsecond with
    | some hsecond => exact .some (hfirst.trans hsecond)

theorem sameContent_payloadName (p : Packet) : p.SameContent p.payloadName.2 := by
  obtain ⟨message, properties⟩ := p
  cases message with
  | none => exact ⟨rfl, .none⟩
  | some m => exact ⟨rfl, .some m.sameContent_payloadName⟩

theorem payloadName_again {k : QName} (h : p.payloadName = (.ok k, p')) : p'.payloadName = (.ok k, p') := by
  obtain ⟨message, properties⟩ := p
  cases message with
  | none =>
    cases h
    rfl
  | some m =>
    rcases hname : m.payloadName with ⟨name, m'⟩
    simp only [payloadName, onMessage, hname] at h
    cases name with
    | error e => cases h
    | ok name =>
      cases h
      simp only [payloadName, onMessage, Message.payloadName_again hname]
      rfl

end Packet

end SoapNode
