import SoapNode.Message.Record
import SoapNode.Proofs.Message.Envelopes

/-!
# Taking the payload, and glancing at it

Every way to read or write the payload takes it: what is left is the same message without a payload, and
from that nothing can be taken again. A copy and the payload as a tree are meant to leave it in place. So
they do as long as the payload can be read; where it cannot, they take it like any reader.
-/

namespace SoapNode

/-- The ways to take the payload of a message. -/
inductive Taking where
  | bytes
  | element
  | record (schema : List (String × FieldKind))
  | payload
  | document
  | envelope
  | envelopeText

/-- What was taken. -/
inductive Taken where
  | bytes (found : Option Bytes)
  | element (found : Option Element)
  | record (found : Option (List (String × FieldValue)))
  | written (bytes : Bytes)
  | text (text : String)

/-- The operations that look at the payload and are meant to leave it in place. -/
inductive Glance where
  | tree
  | copy
  deriving DecidableEq, Repr

/-- The payload after a copy was made: what comes from a source is in memory then. -/
def Payload.inMemory : Payload → Payload
  | .stream pulled s => .buffered (pulled ++ s.rest)
  | p => p

/-- The reader that a glance is like: a tree takes a document, a copy takes bytes. -/
def Glance.reader : Glance → Taking
  | .tree => .element
  | .copy => .bytes

namespace Message

def take (m : Message) : Taking → Except RuntimeError Taken × Message
  | .bytes => m.readBytes.map (.map .bytes) id
  | .element => m.readElement.map (.map .element) id
  | .record schema => (m.readRecord schema).map (.map .record) id
  | .payload => m.writePayload.map (.map .written) id
  | .document => m.write.map (.map .written) id
  | .envelope => m.toEnvelope.map (.map .written) id
  | .envelopeText => m.toEnvelopeText.map (.map .text) id

variable {m : Message} {cause : RuntimeError}

theorem readElement_left (m : Message) : m.readElement.2 = m.consume := by
  rw [readElement]
  split <;> rfl

theorem writePayload_left (m : Message) : m.writePayload.2 = m.consume := by
  rw [writePayload]
  split <;> rfl

/-- Whatever comes of it, the payload is gone. -/
theorem take_left (m : Message) (t : Taking) : (m.take t).2 = m.consume := by
  cases t with
  | element => exact m.readElement_left
  | payload | document | envelope | envelopeText => exact m.writePayload_left
  | bytes | record schema => rfl

/-! ### What a reader of nothing is told -/

theorem map_eq_error_iff {ε α β : Type} {f : α → β} {r : Except ε α} {e : ε} :
    r.map f = .error e ↔ r = .error e := by
  cases r <;> simp [Except.map]

theorem mapError_ne_error {ε ε' α : Type} {f : ε → ε'} {e : ε'} (h : ∀ x, f x ≠ e) (r : Except ε α) :
    r.mapError f ≠ .error e := by
  cases r <;> simp [Except.mapError, h]

theorem readBytes_gone_iff : m.readBytes.1 = .error .messageConsumed ↔ m.payload = .consumed := by
  obtain ⟨version, headers, attachments, payload, known⟩ := m
  cases payload with
  | stream pulled s =>
    cases hbreaks : s.breaks <;> simp [readBytes, Source.readAll, hbreaks, Except.map, Source.failure]
  | _ => simp [readBytes]

theorem readElement_gone_iff : m.readElement.1 = .error .messageConsumed ↔ m.payload = .consumed := by
  rw [readElement]
  split
  · rename_i e hpayload
    simp [hpayload]
  · rw [← readBytes_gone_iff]
    dsimp only
    split
    · rename_i bytes hread
      simp [hread, map_eq_error_iff, mapError_ne_error]
    · rename_i hread
      simp [hread]
    · rename_i e hread
      simp [hread]

theorem readRecord_gone_iff (schema : List (String × FieldKind)) :
    (m.readRecord schema).1 = .error .messageConsumed ↔ m.payload = .consumed := by
  rw [readRecord, ← readBytes_gone_iff]
  dsimp only
  split
  · rename_i e hread
    simp [hread]
  · rename_i hread
    simp [hread]
  · rename_i bytes hread
    split
    · simp [hread]
    · simp [hread, map_eq_error_iff, mapError_ne_error]

theorem writePayload_gone_iff : m.writePayload.1 = .error .messageConsumed ↔ m.payload = .consumed := by
  rw [writePayload]
  split
  · rename_i e hpayload
    simp [hpayload]
  · rw [← readBytes_gone_iff]
    exact map_eq_error_iff

theorem write_gone_iff : m.write.1 = .error .messageConsumed ↔ m.payload = .consumed := by
  rw [← writePayload_gone_iff, write]
  dsimp only
  split
  · rfl
  · exact map_eq_error_iff

theorem toEnvelopeText_gone_iff : m.toEnvelopeText.1 = .error .messageConsumed ↔ m.payload = .consumed := by
  rw [← write_gone_iff, toEnvelopeText, toEnvelope]
  dsimp only
  cases m.write.1 with
  | error e => simp [Except.map, bind, Except.bind]
  | ok bytes => simp [Except.map, bind, Except.bind, mapError_ne_error]

/-- Whoever takes the payload is told that it is gone just if it is; every other failure is another one. -/
theorem take_gone_iff (t : Taking) : (m.take t).1 = .error .messageConsumed ↔ m.payload = .consumed := by
  cases t with
  | bytes => exact map_eq_error_iff.trans readBytes_gone_iff
  | element => exact map_eq_error_iff.trans readElement_gone_iff
  | record schema => exact map_eq_error_iff.trans (readRecord_gone_iff schema)
  | payload => exact map_eq_error_iff.trans writePayload_gone_iff
  | document => exact map_eq_error_iff.trans write_gone_iff
  | envelope => exact map_eq_error_iff.trans (map_eq_error_iff.trans write_gone_iff)
  | envelopeText => exact map_eq_error_iff.trans toEnvelopeText_gone_iff

/-! ### Glances -/

/-- The payload as a tree is what would be read, and it becomes that tree; what cannot be read is taken. -/
theorem payloadTree_eq (m : Message) :
    m.payloadTree = match m.readElement.1 with
      | .ok c => (.ok c, { m with payload := .ofElement c })
      | .error cause => (.error cause, m.consume) := by
  obtain ⟨version, headers, attachments, payload, known⟩ := m
  rw [payloadTree]
  split
  · rename_i e hpayload
    cases hpayload
    rfl
  · rename_i hpayload
    cases hpayload
    rfl
  · dsimp only
    split
    · rename_i e hread
      simp only [hread, readElement_left]
      rfl
    · rename_i hread
      simp only [hread, readElement_left]
      rfl
    · rename_i e hread
      simp only [hread, readElement_left]

/-- A copy is the message itself, once its payload is in memory; what does not get there is taken. -/
theorem copy_eq (m : Message) :
    m.copy = match m.readBytes.1 with
      | .ok _ => (.ok { m with payload := m.payload.inMemory }, { m with payload := m.payload.inMemory })
      | .error cause => (.error cause, m.consume) := by
  obtain ⟨version, headers, attachments, payload, known⟩ := m
  cases payload with
  | stream pulled s =>
    cases hbreaks : s.breaks <;> simp [copy, buffer, readBytes, Source.readAll, hbreaks, Except.map, isConsumed,
      consume, Payload.inMemory]
  | _ => rfl

def glance (m : Message) : Glance → Except RuntimeError Unit × Message
  | .tree => m.payloadTree.map (.map (fun _ => ())) id
  | .copy => m.copy.map (.map (fun _ => ())) id

theorem payloadTree_error_iff : m.payloadTree.1 = .error cause ↔ m.readElement.1 = .error cause := by
  rw [payloadTree_eq]
  cases m.readElement.1 <;> simp

theorem copy_error_iff : m.copy.1 = .error cause ↔ m.readBytes.1 = .error cause := by
  rw [copy_eq]
  cases m.readBytes.1 <;> simp

theorem glance_error_iff (g : Glance) : (m.glance g).1 = .error cause ↔ (m.take g.reader).1 = .error cause := by
  cases g with
  | tree => exact map_eq_error_iff.trans (payloadTree_error_iff.trans map_eq_error_iff.symm)
  | copy => exact map_eq_error_iff.trans (copy_error_iff.trans map_eq_error_iff.symm)

theorem glance_left {g : Glance} (h : (m.glance g).1 = .error cause) : (m.glance g).2 = m.consume := by
  cases g with
  | tree =>
    have hread : m.readElement.1 = .error cause := map_eq_error_iff.mp ((glance_error_iff .tree).mp h)
    rw [glance, payloadTree_eq, hread]
    rfl
  | copy =>
    have hread : m.readBytes.1 = .error cause := map_eq_error_iff.mp ((glance_error_iff .copy).mp h)
    rw [glance, copy_eq, hread]
    rfl

theorem isConsumed_iff : m.isConsumed = true ↔ m.payload = .consumed := decide_eq_true_iff

/-- A glance that fails takes the payload: it fails for the reason its reader would have had, and what is left
is as after any reader. So it changes nothing, for whoever comes next, just if the payload was gone before. -/
theorem glance_failed {g : Glance} (h : (m.glance g).1 = .error cause) :
    (m.take g.reader).1 = .error cause ∧ (m.glance g).2 = m.consume ∧
      ((m.glance g).2.isConsumed = m.isConsumed ↔ m.isConsumed = true) ∧
      ∀ t, ((m.glance g).2.take t).1 = (m.take t).1 ↔ m.isConsumed = true := by
  have hleft := glance_left h
  refine ⟨(glance_error_iff g).mp h, hleft, ?_, fun t => ?_⟩
  · rw [hleft]
    exact eq_comm
  · have hgone : (m.consume.take t).1 = .error .messageConsumed := (take_gone_iff t).mpr rfl
    rw [hleft, hgone, isConsumed_iff, ← take_gone_iff t]
    exact eq_comm

/-- A source that breaks is lost by copying it. -/
theorem glance_failed_breaking :
    let m := ofSource (some .v12) ⟨Token.ascii "<a/>", [2], true⟩
    (m.glance .copy).1 = .error Source.failure ∧ (m.glance .copy).2 = m.consume := by
  intro m
  have h : (m.glance .copy).1 = .error Source.failure := rfl
  exact ⟨h, (glance_failed h).2.1⟩

/-- These bytes can be read, until somebody asks for them as a tree. -/
theorem glance_takes_unfinished :
    let m := ofBytes (some .v11) (Token.ascii "<a")
    (m.glance .tree).1 = .error (.xml (.markup .tag)) ∧ m.isConsumed = false ∧
      (m.glance .tree).2.isConsumed = true ∧
      (m.take .bytes).1 = .ok (.bytes (some (Token.ascii "<a"))) ∧
      ((m.glance .tree).2.take .bytes).1 = .error .messageConsumed := by
  intro m
  have hnext : Token.next (Token.ascii "<a") = .error (.markup .tag) := by rfl
  have hparse : Element.parse (Token.ascii "<a") = .error (.markup .tag) := by
    rw [Element.parse, show dropByteOrderMark (Token.ascii "<a") = Token.ascii "<a" from rfl, Reader.run]
    split <;> simp_all
  have hread : m.readElement.1 = .error (.xml (.markup .tag)) := by
    simp only [m, readElement, ofBytes, ofPayload, readBytes, hparse, Except.mapError, Except.map]
  have h : (m.glance .tree).1 = .error (.xml (.markup .tag)) :=
    (glance_error_iff .tree).mpr (map_eq_error_iff.mpr hread)
  have hleft := glance_left h
  refine ⟨h, rfl, ?_, rfl, ?_⟩
  · rw [hleft]
    rfl
  · rw [hleft]
    rfl

end Message

end SoapNode
