import SoapNode.Proofs.Message.Faults
import SoapNode.Proofs.Message.Payloads
import SoapNode.Codec
import SoapNode.Stage.MustUnderstand
import SoapNode.Stage.Addressing
import SoapNode.Stage.Security

/-!
# What goes wrong can be told

The faults that the stages, the codec and the dispatch of a node make of what they object to, whatever text
or name they quote, can be told in their version, and so can the blocks that come with them.
-/

namespace SoapNode

namespace Element

theorem Writable.push {e child : Element} (h : e.Writable) (hchild : child.Writable) : (e.push child).Writable :=
  ⟨h.1, Node.allWritable_append.mpr ⟨h.2, hchild, trivial⟩⟩

theorem Writable.pushText {e : Element} (h : e.Writable) (s : String) : (e.pushText s).Writable :=
  ⟨h.1, Node.allWritable_append.mpr ⟨h.2, trivial, trivial⟩⟩

end Element

theorem Violation.writable_detail (violations : List Violation) : (detail violations).Writable := by
  have hentry : ∀ v : Violation,
      (((entry "violation").setAttribute (.unqualified "code") v.code.text).pushText v.message).Writable := by
    intro v
    apply Element.Writable.pushText
    cases v.code <;> decide
  have hlist : ∀ (violations : List Violation) (list : Element), list.Writable → (violations.foldl (fun list v =>
      list.push (((entry "violation").setAttribute (.unqualified "code") v.code.text).pushText v.message))
          list).Writable := by
    intro violations
    induction violations with
    | nil => exact fun _ h => h
    | cons v violations ih => exact fun list h => ih _ (h.push (hentry v))
  exact hlist violations _ (by decide)

namespace MustUnderstand

variable {declarations : List PrefixBinding} {uri : String}

def notUnderstoodTag (v : SoapVersion) (declarations : List PrefixBinding) (value : String) : StartTag :=
  ⟨v.name "NotUnderstood", some "env", declarations, [⟨.unqualified "qname", none, value⟩]⟩

theorem mem_bindings_notUnderstoodTag (hnu : ∀ b ∈ declarations, b = ("nu", uri))
    (v : SoapVersion) (value : String) :
    ∀ b ∈ (notUnderstoodTag v declarations value).bindings, b = ("nu", uri) ∨ b = ("env", v.envelopeUri) := by
  have hbindings : (notUnderstoodTag v declarations value).bindings = declarations ++ [("env", v.envelopeUri)] := by
    cases v <;> rfl
  intro b hb
  rw [hbindings, List.mem_append, List.mem_singleton] at hb
  exact hb.imp_left (hnu b)

theorem writable_notUnderstoodTag (hnu : ∀ b ∈ declarations, b = ("nu", uri)) (v : SoapVersion) (value : String) :
    (notUnderstoodTag v declarations value).Writable where
  localPart := show isNCName "NotUnderstood" = true by decide
  attributeLocalPart := List.forall_mem_singleton.mpr (show isNCName "qname" = true by decide)
  prefixes := by
    intro b hb
    obtain rfl | rfl := mem_bindings_notUnderstoodTag hnu v value b hb
    · exact .inr (show isNCName "nu" = true by decide)
    · exact .inr (show isNCName "env" = true by decide)
  consistent := by
    intro b hb c hc heq
    obtain rfl | rfl := mem_bindings_notUnderstoodTag hnu v value b hb <;>
      obtain rfl | rfl := mem_bindings_notUnderstoodTag hnu v value c hc
    · rfl
    · exact absurd heq (show ¬"nu" = "env" by decide)
    · exact absurd heq (show ¬"env" = "nu" by decide)
    · rfl
  reservedXml := by
    intro b hb hxml
    obtain rfl | rfl := mem_bindings_notUnderstoodTag hnu v value b hb
    · exact absurd hxml (show ¬"nu" = "xml" by decide)
    · exact absurd hxml (show ¬"env" = "xml" by decide)
  reservedXmlns := List.forall_mem_singleton.mpr (Option.some_ne_none "xmlns").symm
  distinct := List.pairwise_singleton _ _
  noDeclaration := List.forall_mem_singleton.mpr (show QName.unqualified "qname" ≠ .unqualified "xmlns" by decide)

/-- The block that names what was not understood, in an attribute that quotes the name as it is. -/
theorem writable_notUnderstoodBlock (v : SoapVersion) (name : QName) :
    (notUnderstoodBlock v name).element.Writable := by
  rw [notUnderstoodBlock]
  split
  · exact ⟨writable_notUnderstoodTag (List.forall_mem_nil (· = ("nu", name.namespaceUri))) v _, trivial⟩
  · exact ⟨writable_notUnderstoodTag (List.forall_mem_singleton.mpr rfl) v _, trivial⟩

end MustUnderstand

namespace ProtocolFault

variable {f : ProtocolFault} {v : SoapVersion}

theorem tellable_new (v : SoapVersion) {code : QName} (hcode : code.Tellable) (reason : String) :
    (new v code reason).Tellable := ⟨hcode, nofun, nofun⟩

theorem tellable_client (v : SoapVersion) (reason : String) : (client v reason).Tellable :=
  tellable_new v (by cases v <;> decide) reason

theorem tellable_server (v : SoapVersion) (reason : String) : (server v reason).Tellable :=
  tellable_new v (by cases v <;> decide) reason

theorem tellable_mustUnderstand (v : SoapVersion) (reason : String) : (mustUnderstand v reason).Tellable :=
  tellable_new v (by cases v <;> decide) reason

theorem tellable_versionMismatch (v : SoapVersion) : (versionMismatch v).Tellable :=
  tellable_new v (by cases v <;> decide) _

theorem Tellable.withSubcode (h : f.Tellable) {q : QName} (hq : q.Tellable)
    (huri : q.namespaceUri ≠ SoapVersion.v11.envelopeUri) : (f.withSubcode q).Tellable := by
  refine ⟨h.code, fun hversion q' hq' => ?_, h.detail⟩
  obtain hq' | hq' := List.mem_append.mp hq'
  · exact h.subcodes hversion q' hq'
  · rw [List.mem_singleton.mp hq']
    exact ⟨hq, huri⟩

theorem Tellable.withDetail (h : f.Tellable) {e : Element} (he : e.Writable) : (f.withDetail e).Tellable := by
  refine ⟨h.code, h.subcodes, fun e' he' => ?_⟩
  obtain he' | he' := List.mem_append.mp he'
  · exact h.detail e' he'
  · rwa [List.mem_singleton.mp he']

/-- Told in its own version a fault stays tellable: at most its code is another standard one. -/
theorem Tellable.forVersion (h : f.Tellable) (hversion : f.version = v) : (f.forVersion v).Tellable := by
  subst hversion
  exact ⟨tellable_mapCode f.version h.code, h.subcodes, h.detail⟩

end ProtocolFault

/-- The fault that travels in an error. -/
def RuntimeError.carried? : RuntimeError → Option ProtocolFault
  | .protocol f | .handler (.protocol f) => some f
  | _ => none

namespace ProtocolFault

theorem version_ofError (v : SoapVersion) (e : RuntimeError) : (ofError v e).version = v := by
  unfold ofError
  split <;> rfl

/-- An error can be told if the fault that it carries, where it carries one, can be. -/
theorem tellable_ofError {v : SoapVersion} {e : RuntimeError} (h : ∀ f ∈ e.carried?, (f.forVersion v).Tellable) :
    (ofError v e).Tellable := by
  unfold ofError
  split
  · exact h _ rfl
  · exact h _ (by simp [RuntimeError.carried?])
  · rename_i cause
    have hclient := tellable_client cause.version cause.message
    exact ⟨tellable_mapCode v hclient.code, nofun, nofun⟩
  · exact tellable_client v _
  · exact tellable_client v _
  · exact tellable_client v _
  · exact tellable_server v _

theorem tellable_ofError_of_none {v : SoapVersion} {e : RuntimeError} (h : e.carried? = none) :
    (ofError v e).Tellable := by
  apply tellable_ofError
  rw [h]
  exact nofun

end ProtocolFault

theorem Security.tellable_violationFault (v : SoapVersion) (violations : List Violation) :
    (violationFault v violations).Tellable :=
  (ProtocolFault.tellable_client v _).withDetail (Violation.writable_detail violations)

theorem Addressing.tellable_actionMissing (v : SoapVersion) : (actionMissing v).Tellable :=
  (ProtocolFault.tellable_client v _).withSubcode (by decide) (by decide)

namespace Codec

/-- A fault that the reading of a document ends with can be told in the version that is asked for. -/
def Objects {α : Type} (v : SoapVersion) (r : Except RuntimeError α) : Prop :=
  ∀ f, r = .error (.protocol f) → f.Tellable ∧ f.version = v

variable {α β : Type} {v : SoapVersion}

theorem objects_bind {r : Except RuntimeError α} {next : α → Except RuntimeError β} (h : Objects v r)
    (hnext : ∀ a, Objects v (next a)) : Objects v (r >>= next) := by
  cases r with
  | ok a => exact hnext a
  | error e =>
    rintro f ⟨⟩
    exact h f rfl

theorem objects_mapError {ε : Type} {wrap : ε → RuntimeError}
    (hwrap : ∀ cause f, wrap cause ≠ .protocol f) (r : Except ε α) : Objects v (r.mapError wrap) := by
  intro f h
  cases r with
  | ok a => cases h
  | error cause => exact absurd (Except.error.inj h) (hwrap cause f)

theorem objects_checkType (accepts : String → Bool) (contentType : Option String) :
    Objects v (checkType accepts contentType) := by
  intro f h
  rw [checkType.eq_def] at h
  split at h
  · cases h
  · split at h <;> cases h

theorem objects_rejectEntities (v : SoapVersion) (bytes : Bytes) : Objects v (rejectEntities v bytes) := by
  refine objects_bind (objects_mapError (by rintro _ _ ⟨⟩) _) ?_
  intro document f h
  split at h
  · cases h
  · cases h
    exact ⟨(ProtocolFault.tellable_client v _).withDetail (Violation.writable_detail _), rfl⟩

theorem objects_parse (bytes : Bytes) : Objects v (Envelope.parse bytes) :=
  objects_bind (objects_mapError (by rintro _ _ ⟨⟩) _) (fun _ => objects_mapError (by rintro _ _ ⟨⟩) _)

theorem objects_decode (kind : BindingKind) (bytes : Bytes) (contentType : Option String) :
    Objects kind.faultVersion (decode kind bytes contentType) := by
  rw [decode, BindingKind.faultVersion]
  cases kind.version? with
  | none =>
    refine objects_bind (objects_checkType _ _) fun _ => objects_bind (objects_rejectEntities .v11 bytes) fun _ => ?_
    intro f h
    dsimp only at h
    split at h <;> cases h
  | some v =>
    refine objects_bind (objects_checkType _ _) fun _ => objects_bind (objects_rejectEntities v bytes) fun _ =>
      objects_bind (objects_mapError (by rintro _ _ ⟨⟩) _) ?_
    intro root f h
    split at h
    · cases h
    · split at h
      · cases h
      · split at h
        · cases h
          exact ⟨ProtocolFault.tellable_versionMismatch v, rfl⟩
        · exact objects_parse bytes f h

end Codec

/-- A fault that was delivered as the payload of a message, in an envelope of its version or bare, is read again. -/
theorem SoapFault.ofElement_delivered {f : SoapFault} (h : f.Writable) {version : Option SoapVersion}
    (hversion : ∀ v ∈ version, v = f.version) : ofElement (f.toElement.delivered version) = .ok f.received := by
  cases version with
  | none => exact ofElement_settle h
  | some v =>
    rw [hversion v rfl]
    show ofElement ((f.toElement.settle []).inherit (Envelope.frame f.version)) = _
    rw [inherit_settle]
    exact ofElement_settle h

end SoapNode
