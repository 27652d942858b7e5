import SoapNode.Proofs.Message.Envelopes
import SoapNode.Proofs.Soap.FaultElement
import SoapNode.Proofs.Soap.Version

/-!
# Faults over the wire

A fault is written as the payload of an envelope and read from what was parsed. It comes back with its
code mapped to its version, its texts and the ends of its codes trimmed, and its detail normal. What
came back once comes back the same again.
-/

namespace SoapNode

namespace ProtocolFault

/-- Writes the message of a fault as an envelope and reads the fault that the envelope tells. -/
def overTheWire (f : ProtocolFault) : Except RuntimeError (Option ProtocolFault) := do
  let bytes ← (Message.ofFault f).toEnvelope.1
  let m ← Envelope.parse bytes
  let told ← m.readFault.1
  return told.map SoapFault.toProtocol

/-- What a fault needs to be told in its version: codes that can be told, in SOAP 1.2 none of the
subcodes in the envelope namespace of SOAP 1.1, and detail entries that can be written. -/
structure Tellable (f : ProtocolFault) : Prop where
  code : f.code.Tellable
  subcodes : f.version = .v12 → ∀ q ∈ f.subcodes, q.Tellable ∧ q.namespaceUri ≠ SoapVersion.v11.envelopeUri
  detail : ∀ e ∈ f.detail.getD [], e.Writable

/-- What a fault comes back as, up to the spelling of its detail. -/
def received (f : ProtocolFault) : ProtocolFault where
  version := f.version
  code := (f.version.mapCode f.code).told
  subcodes := match f.version with | .v11 => [] | .v12 => f.subcodes.map QName.told
  reason := Text.trim f.reason
  actor := f.actor.map Text.trim
  node := match f.version with | .v11 => none | .v12 => f.node.map Text.trim
  detail := (f.detail.filter (!·.isEmpty)).map (·.map Element.norm)

theorem tellable_mapCode (v : SoapVersion) {q : QName} (h : q.Tellable) : (v.mapCode q).Tellable := by
  rcases v.mapCode_cases q with ⟨heq, _⟩ | ⟨heq, _⟩
  · rwa [heq]
  · rw [heq]
    intro huri
    rw [SoapVersion.namespaceUri_standard] at huri
    exact absurd huri v.envelopeUri_ne_empty

theorem Tellable.writable {f : ProtocolFault} (h : f.Tellable) : (SoapFault.ofProtocol f).Writable := by
  obtain ⟨v, code, subcodes, reason, actor, node, detail⟩ := f
  cases v with
  | v11 => exact ⟨tellable_mapCode .v11 h.code, h.detail⟩
  | v12 => exact ⟨tellable_mapCode .v12 h.code, SoapVersion.mapCode_v12_ne_v11 code, h.subcodes rfl, h.detail⟩

theorem version_ofProtocol (f : ProtocolFault) : (SoapFault.ofProtocol f).version = f.version := by
  obtain ⟨v, code, subcodes, reason, actor, node, detail⟩ := f
  cases v <;> rfl

end ProtocolFault

open FaultElement

theorem SoapFault.inherit_settle (f : SoapFault) :
    (f.toElement.settle []).inherit (Envelope.frame f.version) = f.toElement.settle [] := by
  have hframe : (f.toElement.settle []).tag.declarations = Envelope.frame f.version := by
    rw [← Element.declarations, Element.declarations_settle, tag_toElement, writtenFrame_rootTag]
  rw [Element.inherit, hframe]
  have hsame : Element.addMissing (Envelope.frame f.version) (Envelope.frame f.version) = Envelope.frame f.version := by
    cases f.version <;> rfl
  rw [hsame, ← hframe]

theorem Message.isFault_settle {f : SoapFault} {m : Message} (hversion : m.version = some f.version)
    (hpayload : m.payload = .tree (f.toElement.settle [])) (hname : m.knownName = none) :
    m.isFault = (true, m.remember (some f.version.faultName)) := by
  have hroot : (f.toElement.settle []).name = f.version.faultName := by
    rw [Element.name_settle, Element.name, SoapFault.tag_toElement]
    rfl
  simp only [isFault, hversion, payloadName, hname, hpayload, hroot, decide_true]

theorem Message.readFault_settle {f : SoapFault} (h : f.Writable) {m : Message} (hversion : m.version = some f.version)
    (hpayload : m.payload = .tree (f.toElement.settle [])) (hname : m.knownName = none) :
    m.readFault.1 = .ok (some f.received) := by
  have hfault := isFault_settle hversion hpayload hname
  have helement : (m.remember (some f.version.faultName)).readElement.1 = .ok (some (f.toElement.settle [])) := by
    simp only [readElement, remember, hpayload]
  simp only [readFault, hfault, helement, SoapFault.ofElement_settle h]
  rfl

namespace ProtocolFault

theorem toEnvelope_ofFault (f : ProtocolFault) : (Message.ofFault f).toEnvelope.1 = .ok (Envelope.declaration ++
    Utf8.encodeChars (Envelope.chars f.version [] (SoapFault.ofProtocol f).toElement.toChars)) := by
  have hbytes := Message.toEnvelope_eq (m := Message.ofFault f) (v := f.version) rfl
    (show _ = Payload.ofElement (some (SoapFault.ofProtocol f).toElement) from rfl)
  have hblocks : (Message.ofFault f).headers.blocks.map (·.element) = [] := rfl
  rwa [hblocks, Option.toList_some, List.flatMap_singleton] at hbytes

/-- The message that is read where the fault was written: its payload is the fault, settled. -/
theorem parse_toEnvelope {f : ProtocolFault} (h : f.Tellable) :
    ∃ m, Envelope.parse (Envelope.declaration ++
        Utf8.encodeChars (Envelope.chars f.version [] (SoapFault.ofProtocol f).toElement.toChars)) = .ok m ∧
      m.version = some (SoapFault.ofProtocol f).version ∧
      m.payload = .tree ((SoapFault.ofProtocol f).toElement.settle []) ∧
      m.knownName = none := by
  have hparse := Envelope.parse_written f.version [] (some (SoapFault.ofProtocol f).toElement) (by simp)
    (fun e he => Option.mem_some_iff.mp he ▸ h.writable.toElement)
  rw [Option.toList_some, List.flatMap_singleton] at hparse
  have hinherit := (SoapFault.ofProtocol f).inherit_settle
  rw [version_ofProtocol] at hinherit ⊢
  exact ⟨_, hparse, rfl, congrArg Payload.tree hinherit, rfl⟩

theorem overTheWire_eq {f : ProtocolFault} (h : f.Tellable) :
    f.overTheWire = .ok (some (SoapFault.ofProtocol f).received.toProtocol) := by
  obtain ⟨m, hparse, hversion, hpayload, hname⟩ := parse_toEnvelope h
  have hread := Message.readFault_settle h.writable hversion hpayload hname
  simp only [overTheWire, toEnvelope_ofFault, bind, Except.bind, hparse, hread]
  rfl

theorem erase_receivedDetail (v : SoapVersion) (entries : Option (List Element)) :
    (receivedDetail v entries).map (·.map Element.erase) =
      ((entries.filter (!·.isEmpty)).map (·.map Element.norm)).map (·.map Element.erase) := by
  rw [receivedDetail, Option.map_map, Option.map_map]
  refine Option.map_congr (fun es _ => ?_)
  rw [Function.comp_apply, Function.comp_apply, List.map_map, List.map_map]
  refine List.map_congr_left (fun e _ => ?_)
  rw [Function.comp_apply, Function.comp_apply, detached, Element.erase_inherit, Element.erase_settle]

theorem erase_overTheWire (f : ProtocolFault) :
    (SoapFault.ofProtocol f).received.toProtocol.erase = f.received.erase := by
  obtain ⟨v, code, subcodes, reason, actor, node, detail⟩ := f
  have hdetail := erase_receivedDetail v detail
  cases v with
  | v11 => exact congrArg (ProtocolFault.mk _ _ _ _ _ _) hdetail
  | v12 => exact congrArg (ProtocolFault.mk _ _ _ _ _ _) hdetail

theorem norm_detached (v : SoapVersion) (e : Element) : (detached v e).norm = detached v e := by
  rw [detached, Element.norm_inherit, Element.norm_settle]

theorem writable_detached (v : SoapVersion) {e : Element} (h : e.Writable) : (detached v e).Writable := by
  refine h.inherit (Scopes.Covers.refl (Envelope.scopes v)) ?_
  rintro ⟨p, uri⟩ hb
  obtain ⟨rfl, rfl⟩ := Prod.mk.inj (List.mem_singleton.mp (Scopes.mem_of_lookup hb))
  rw [Envelope.scopes, Scopes.resolve_cons_nil]
  exact ⟨.inr (show isNCName envelopePrefix = true by decide), Envelope.resolve_prefix v⟩

theorem writable_receivedDetail (v : SoapVersion) {entries : Option (List Element)}
    (h : ∀ e ∈ entries.getD [], e.Writable) :
    ∀ e ∈ (receivedDetail v entries).getD [], e.Writable := by
  match entries with
  | none | some [] =>
    intro e he
    cases (show e ∈ ([] : List Element) from he)
  | some (d :: ds) =>
    intro e he
    obtain ⟨d', hd', rfl⟩ := List.mem_map.mp (show e ∈ (d :: ds).map (detached v) from he)
    exact writable_detached v (h d' hd')

theorem receivedDetail_norm (v : SoapVersion) (entries : Option (List Element)) :
    ((receivedDetail v entries).filter (!·.isEmpty)).map (·.map Element.norm) = receivedDetail v entries := by
  match entries with
  | none => rfl
  | some [] => rfl
  | some (d :: ds) =>
    have hnorm : ((d :: ds).map (detached v)).map Element.norm = (d :: ds).map (detached v) := by
      rw [List.map_map]
      exact List.map_congr_left (fun e _ => norm_detached v e)
    exact congrArg some hnorm

theorem Tellable.again {f : ProtocolFault} (h : f.Tellable) :
    (SoapFault.ofProtocol f).received.toProtocol.Tellable := by
  obtain ⟨v, code, subcodes, reason, actor, node, detail⟩ := f
  have hcode := (tellable_mapCode v h.code).told
  have hdetail := writable_receivedDetail v h.detail
  cases v with
  | v11 => exact ⟨hcode, nofun, hdetail⟩
  | v12 =>
    refine ⟨hcode, fun _ q hq => ?_, hdetail⟩
    obtain ⟨r, hr, rfl⟩ := List.mem_map.mp hq
    exact ⟨(h.subcodes rfl r hr).1.told, (h.subcodes rfl r hr).2⟩

theorem received_again {f : ProtocolFault}
    (hcode : (f.version.mapCode f.code).told = f.version.mapCode f.code) :
    (SoapFault.ofProtocol f).received.toProtocol.received = (SoapFault.ofProtocol f).received.toProtocol := by
  obtain ⟨v, code, subcodes, reason, actor, node, detail⟩ := f
  have hwhole : (v.mapCode code).told = v.mapCode code := hcode
  have htold : (v.mapCode (v.mapCode code).told).told = (v.mapCode code).told := by
    rw [hwhole, SoapVersion.mapCode_mapCode, hwhole]
  have htrim : ∀ o : Option String, (o.map Text.trim).map Text.trim = o.map Text.trim := by
    intro o
    rw [Option.map_map]
    exact congrFun (congrArg Option.map (funext Text.trim_trim)) o
  have hsubcodes : (subcodes.map QName.told).map QName.told = subcodes.map QName.told := by
    rw [List.map_map]
    exact List.map_congr_left (fun q _ => q.told_told)
  cases v with
  | v11 =>
    simp only [received, SoapFault.ofProtocol, SoapFault.received, SoapFault.toProtocol, Fault11.ofProtocol,
      Fault11.received, Fault11.toProtocol, htold, htrim, receivedDetail_norm, Text.trim_trim]
  | v12 =>
    simp only [received, SoapFault.ofProtocol, SoapFault.received, SoapFault.toProtocol, Fault12.ofProtocol,
      Fault12.received, Fault12.toProtocol, htold, htrim, receivedDetail_norm, hsubcodes, Text.trim_trim,
      List.map_cons, List.map_nil,
      List.head?_cons, Option.map_some, Option.getD_some]

/-- A fault comes back from the wire as `received` says. When its code, mapped to its version, is whole
under trimming, what came back goes over the wire unchanged. -/
theorem overTheWire_received {f : ProtocolFault} (h : f.Tellable) :
    ∃ f', f.overTheWire = .ok (some f') ∧ f'.erase = f.received.erase ∧
      ((f.version.mapCode f.code).told = f.version.mapCode f.code →
        ∃ f'', f'.overTheWire = .ok (some f'') ∧ f''.erase = f'.erase) := by
  refine ⟨_, overTheWire_eq h, erase_overTheWire f, ?_⟩
  intro hcode
  refine ⟨_, overTheWire_eq h.again, ?_⟩
  rw [erase_overTheWire, received_again hcode]

/-- A fault with a code of its version, subcodes with and without a namespace and a detail entry. -/
theorem overTheWire_late :
    let late : ProtocolFault :=
      ⟨.v12, SoapVersion.v11.name "Client", [⟨"urn:orders", "Late"⟩, .unqualified "Closed"],
      " no more orders ", some "urn:gate", none, some [(Element.named ⟨"urn:orders", "since"⟩).pushText "noon"]⟩
    ∃ f', late.overTheWire = .ok (some f') ∧ f'.erase = late.received.erase ∧
      ∃ f'', f'.overTheWire = .ok (some f'') ∧ f''.erase = f'.erase := by
  intro late
  obtain ⟨f', hread, herase, hagain⟩ :=
    overTheWire_received (f := late) ⟨by decide, fun _ => by decide, by decide⟩
  exact ⟨f', hread, herase, hagain (by decide)⟩

/-- The Ogham space mark may stand in a name and is white space: a code that ends with it loses it. -/
theorem overTheWire_oghamSpace :
    let late : ProtocolFault := .new .v12 ⟨"urn:orders", "Late\u1680"⟩ "r"
    isNCName late.code.localPart = true ∧
      ∃ f', late.overTheWire = .ok (some f') ∧ f'.code ≠ late.version.mapCode late.code := by
  intro late
  exact ⟨by decide, _, overTheWire_eq ⟨by decide, fun _ => by decide, by decide⟩, by decide⟩

end ProtocolFault

end SoapNode
