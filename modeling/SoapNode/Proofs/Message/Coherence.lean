import SoapNode.Proofs.Message.Sniffing
import SoapNode.Proofs.Message.Taking

/-!
# The payload and its remembered name

A payload changes its form while it is asked about: a source is pulled and then kept in memory, bytes
become a tree. The content that a reader would get stays the same, the name that is remembered is the
name of that content, and a copy has both. Once the payload was taken it is gone for every reader, until
another one is put in its place.
-/

namespace SoapNode

/-- What can be asked of a message without taking its payload. -/
inductive Inquiry where
  | name
  | hasPayload
  | isFault
  | tree
  | copy
  deriving DecidableEq, Repr

inductive Reply where
  | name (found : Except RuntimeError (Option QName))
  | hasPayload (found : Except RuntimeError Bool)
  | isFault (found : Bool)
  | tree (found : Except RuntimeError (Option Element))
  | copy (found : Except RuntimeError Message)

/-- The message that was made for the reply, if one was. -/
def Reply.replicas : Reply → List Message
  | .copy (.ok replica) => [replica]
  | _ => []

namespace Message

def answer (m : Message) : Inquiry → Reply × Message
  | .name => m.payloadName.map .name id
  | .hasPayload => m.hasPayload.map .hasPayload id
  | .isFault => m.isFault.map .isFault id
  | .tree => m.payloadTree.map .tree id
  | .copy => m.copy.map .copy id

/-- A message as it can come about: made of a payload, changed, asked, copied, read, or given another payload. -/
inductive Reached : Message → Prop where
  | empty (version : Option SoapVersion) : Reached (.empty version)
  | element (version : Option SoapVersion) (e : Element) : Reached (.ofElement version e)
  | bytes (version : Option SoapVersion) (bytes : Bytes) : Reached (.ofBytes version bytes)
  | source (version : Option SoapVersion) (s : Source) : Reached (.ofSource version s)
  | dressed {m : Message} (reached : Reached m) (headers : HeaderList) (attachments : Attachments) :
      Reached { m with headers, attachments }
  | asked {m : Message} (reached : Reached m) (q : Inquiry) : Reached (m.answer q).2
  | copied {m replica : Message} (reached : Reached m) (copy : m.copy.1 = .ok replica) : Reached replica
  | taken {m : Message} (reached : Reached m) (t : Taking) : Reached (m.take t).2
  | replaced {m : Message} (reached : Reached m) (e : Option Element) : Reached (m.setPayload e)

end Message

/-- What a payload is read as: nothing, its tree, or the document that its bytes are. -/
inductive Payload.Reads : Payload → Option Element → Prop where
  | empty : Reads .empty none
  | tree (e : Element) : Reads (.tree e) (some e)
  | buffered {bytes : Bytes} {e : Element} (document : Element.parse bytes = .ok e) : Reads (.buffered bytes) (some e)
  | stream {pulled : Bytes} {s : Source} {e : Element} (sound : s.breaks = false)
      (document : Element.parse (pulled ++ s.rest) = .ok e) : Reads (.stream pulled s) (some e)

/-- If the payload is a source, its first start tag ends within the limit of sniffing. -/
def Payload.Starts : Payload → Prop
  | .stream pulled s => StartsWithin sniffLimit (pulled ++ s.rest)
  | _ => True

namespace Message

/-- If there is something to read, its name is the one that is remembered, if any is. -/
def Truthful (m : Message) : Prop := ∀ c, m.payload.Reads c → ∀ name ∈ m.knownName, name = c.map Element.name

variable {m m' : Message} {c : Option Element} {name : Option QName}

theorem readElement_of_reads (h : m.payload.Reads c) : m.readElement.1 = .ok c := by
  obtain ⟨version, headers, attachments, payload, known⟩ := m
  cases h with
  | empty => rfl
  | tree e => rfl
  | buffered document => simp [readElement, readBytes, document, Except.mapError, Except.map]
  | stream sound document => simp [readElement, readBytes, Source.readAll, sound, document, Except.mapError, Except.map]

theorem reads_of_readElement (h : m.readElement.1 = .ok c) : m.payload.Reads c := by
  have hdocument : ∀ {bytes}, ((Element.parse bytes).mapError RuntimeError.xml).map some = .ok c →
      ∃ e, some e = c ∧ Element.parse bytes = .ok e := by
    intro bytes h
    cases hparse : Element.parse bytes with
    | error cause => simp [hparse, Except.mapError, Except.map] at h
    | ok e => exact ⟨e, by simpa [hparse, Except.mapError, Except.map] using h, rfl⟩
  obtain ⟨version, headers, attachments, payload, known⟩ := m
  cases payload with
  | empty =>
    cases h
    exact .empty
  | tree e =>
    cases h
    exact .tree e
  | buffered bytes =>
    obtain ⟨e, rfl, hparse⟩ := hdocument h
    exact .buffered hparse
  | stream pulled s =>
    cases hbreaks : s.breaks with
    | true => simp [readElement, readBytes, Source.readAll, hbreaks, Except.map] at h
    | false =>
      have hread : ((Element.parse (pulled ++ s.rest)).mapError RuntimeError.xml).map some = .ok c := by
        simpa [readElement, readBytes, Source.readAll, hbreaks, Except.map] using h
      obtain ⟨e, rfl, hparse⟩ := hdocument hread
      exact .stream hbreaks hparse
  | consumed => cases h

theorem readBytes_of_reads (h : m.payload.Reads c) : ∃ bytes, m.readBytes.1 = .ok bytes := by
  obtain ⟨version, headers, attachments, payload, known⟩ := m
  cases h with
  | @stream pulled s e sound _ =>
    exact ⟨some (pulled ++ s.rest), by simp [readBytes, Source.readAll, sound, Except.map]⟩
  | _ => exact ⟨_, rfl⟩

theorem readElement_ok_iff : m.readElement.1 = .ok c ↔ m.payload.Reads c :=
  ⟨reads_of_readElement, readElement_of_reads⟩

/-! ### The name -/

/-- Whatever name is found is that of what would be read. -/
theorem Truthful.payloadName_eq (h : m.Truthful) (hreads : m.payload.Reads c) (hname : m.payloadName.1 = .ok name) :
    name = c.map Element.name := by
  have hknown := h c hreads
  obtain ⟨version, headers, attachments, payload, known⟩ := m
  cases known with
  | some known =>
    cases hname
    exact hknown _ rfl
  | none =>
    have hsniffed : ∀ {bytes e}, Element.parse bytes = .ok e → sniff bytes = .ok name → name = some e.name := by
      intro bytes e hparse hsniff
      rw [sniff_of_parse hparse] at hsniff
      cases hsniff
      rfl
    cases hreads with
    | empty =>
      cases hname
      rfl
    | tree e =>
      cases hname
      rfl
    | @buffered bytes e document =>
      apply hsniffed document
      simp only [payloadName] at hname
      split at hname
      · rename_i hsniff
        cases hname
        exact hsniff
      · cases hname
    | @stream pulled s e sound document =>
      apply hsniffed document
      apply sniff_of_sniffSource sound
      simp only [payloadName] at hname
      split at hname
      · rename_i hfound
        cases hname
        exact hfound
      · cases hname

/-- Sniffing fails on no payload that can be read and that starts within the limit. -/
theorem payloadName_ok (hreads : m.payload.Reads c) (hstarts : m.payload.Starts) :
    ∃ name, m.payloadName.1 = .ok name := by
  obtain ⟨version, headers, attachments, payload, known⟩ := m
  cases known with
  | some known => exact ⟨known, rfl⟩
  | none =>
    cases hreads with
    | empty => exact ⟨_, rfl⟩
    | tree e => exact ⟨_, rfl⟩
    | buffered document => exact ⟨_, by simp only [payloadName, sniff_of_parse document]; rfl⟩
    | @stream pulled s e sound document =>
      have hfound : (sniffSource pulled s).1 = .ok (some e.name) := by
        rw [sniffSource_eq sound (.inr hstarts), sniff_of_parse document]
        rfl
      exact ⟨_, by simp only [payloadName, hfound]; rfl⟩

theorem payloadName_of_reads (h : m.Truthful) (hreads : m.payload.Reads c) (hstarts : m.payload.Starts) :
    m.payloadName.1 = .ok (c.map Element.name) := by
  obtain ⟨name, hname⟩ := payloadName_ok hreads hstarts
  rw [hname, h.payloadName_eq hreads hname]

/-! ### What keeps the memory true -/

theorem Truthful.of_reads (h : m.Truthful) (hknown : m'.knownName = m.knownName)
    (hreads : ∀ c, m'.payload.Reads c → m.payload.Reads c) : m'.Truthful :=
  fun c hc name hname => h c (hreads c hc) name (hknown ▸ hname)

theorem truthful_of_unknown (h : m.knownName = none) : m.Truthful := by
  intro c _ name hname
  rw [h] at hname
  cases hname

theorem truthful_consume (m : Message) : m.consume.Truthful := by
  intro c hc
  cases hc

theorem SameContent.reads_iff (h : m.SameContent m') : m'.payload.Reads c ↔ m.payload.Reads c := by
  rw [← readElement_ok_iff, ← readElement_ok_iff, h.readElement]

theorem SameContent.starts (h : m.SameContent m') (hstarts : m.payload.Starts) : m'.payload.Starts := by
  have hpayload := h.payload
  generalize m.payload = p at hpayload hstarts
  generalize m'.payload = p' at hpayload ⊢
  cases hpayload with
  | refl => exact hstarts
  | ahead bytes => rwa [Payload.Starts, bytes]

theorem Truthful.payloadName (h : m.Truthful) : m.payloadName.2.Truthful := by
  intro c hc name hname
  rw [knownName_payloadName] at hname
  cases hfound : m.payloadName.1 with
  | error cause => simp [hfound, Except.toOption] at hname
  | ok found =>
    rw [hfound] at hname
    cases hname
    exact h.payloadName_eq (m.sameContent_payloadName.reads_iff.mp hc) hfound

theorem Truthful.isFault (h : m.Truthful) : m.isFault.2.Truthful := by
  rw [Message.isFault]
  split
  · exact h
  · exact h.payloadName

theorem Truthful.payloadTree (h : m.Truthful) : m.payloadTree.2.Truthful := by
  rw [payloadTree_eq]
  cases hread : m.readElement.1 with
  | error cause => exact m.truthful_consume
  | ok c =>
    refine h.of_reads rfl (fun c' hc' => ?_)
    obtain rfl : c = c' := by cases c <;> cases hc' <;> rfl
    exact reads_of_readElement hread

/-- Reading a source into memory leaves its document as it is. -/
theorem reads_inMemory_iff {bytes : Option Bytes} (h : m.readBytes.1 = .ok bytes) :
    m.payload.inMemory.Reads c ↔ m.payload.Reads c := by
  obtain ⟨version, headers, attachments, payload, known⟩ := m
  cases payload with
  | stream pulled s =>
    cases hbreaks : s.breaks with
    | true => simp [readBytes, Source.readAll, hbreaks, Except.map] at h
    | false =>
      constructor <;> intro hreads <;> cases hreads
      · exact .stream hbreaks ‹_›
      · exact .buffered ‹_›
  | _ => rfl

theorem Truthful.copy (h : m.Truthful) :
    m.copy.2.Truthful ∧ ∀ replica, m.copy.1 = .ok replica → replica.Truthful := by
  rw [copy_eq]
  cases hread : m.readBytes.1 with
  | error cause =>
    refine ⟨m.truthful_consume, fun replica hreplica => ?_⟩
    cases hreplica
  | ok bytes =>
    have hkept : ({ m with payload := m.payload.inMemory } : Message).Truthful :=
      h.of_reads rfl (fun c hc => (reads_inMemory_iff hread).mp hc)
    refine ⟨hkept, fun replica hreplica => ?_⟩
    cases hreplica
    exact hkept

theorem Truthful.answer (h : m.Truthful) (q : Inquiry) : (m.answer q).2.Truthful := by
  cases q with
  | name => exact h.payloadName
  | hasPayload => exact h.payloadName
  | isFault => exact h.isFault
  | tree => exact h.payloadTree
  | copy => exact h.copy.1

theorem Reached.truthful (h : m.Reached) : m.Truthful := by
  induction h with
  | empty | element | bytes | source => exact truthful_of_unknown rfl
  | dressed _ headers attachments ih => exact ih.of_reads rfl (fun _ hc => hc)
  | asked _ q ih => exact ih.answer q
  | copied _ copy ih => exact ih.copy.2 _ copy
  | @taken m _ t ih => exact m.take_left t ▸ m.truthful_consume
  | replaced _ e => exact truthful_of_unknown rfl

/-! ### Messages that can be asked again and again -/

/-- The message can be read, as this, and its name is found without reading it. -/
structure Yields (m : Message) (c : Option Element) : Prop where
  reads : m.payload.Reads c
  starts : m.payload.Starts
  truthful : m.Truthful

/-- Another message with the same parts, and with this content. -/
structure Replica (m : Message) (c : Option Element) (m' : Message) : Prop where
  version_eq : m'.version = m.version
  headers_eq : m'.headers = m.headers
  attachments_eq : m'.attachments = m.attachments
  content : m'.readElement.1 = .ok c

/-- What the message owes to whoever asks. -/
inductive Owes (m : Message) (c : Option Element) : Inquiry → Reply → Prop where
  | name : Owes m c .name (.name (.ok (c.map Element.name)))
  | hasPayload : Owes m c .hasPayload (.hasPayload (.ok c.isSome))
  | isFault : Owes m c .isFault (.isFault (m.version.any (fun v => c.map Element.name = some v.faultName)))
  | tree : Owes m c .tree (.tree (.ok c))
  | copy {replica : Message} (same : m.Replica c replica) : Owes m c .copy (.copy (.ok replica))

theorem Replica.trans {m'' : Message} (h : m.Replica c m') (h' : m'.Replica c m'') : m.Replica c m'' :=
  ⟨h'.version_eq.trans h.version_eq, h'.headers_eq.trans h.headers_eq,
    h'.attachments_eq.trans h.attachments_eq, h'.content⟩

/-- A replica of a message owes what the message owes. -/
theorem Owes.of_replica (h : m.Replica c m') {q : Inquiry} {reply : Reply} (howes : m'.Owes c q reply) :
    m.Owes c q reply := by
  cases howes with
  | name => exact .name
  | hasPayload => exact .hasPayload
  | isFault => exact h.version_eq ▸ .isFault
  | tree => exact .tree
  | copy same => exact .copy (h.trans same)

namespace Yields

theorem replica (h : m.Yields c) : m.Replica c m := ⟨rfl, rfl, rfl, readElement_of_reads h.reads⟩

theorem payloadName_eq (h : m.Yields c) : m.payloadName.1 = .ok (c.map Element.name) :=
  payloadName_of_reads h.truthful h.reads h.starts

theorem isFault_eq (h : m.Yields c) : m.isFault.1 = m.version.any (fun v => c.map Element.name = some v.faultName) := by
  rw [Message.isFault]
  cases m.version with
  | none => rfl
  | some v =>
    dsimp only
    rw [h.payloadName_eq]
    cases c with
    | none => simp
    | some e => simp

theorem of_sameContent (h : m.Yields c) (hsame : m.SameContent m') (htruthful : m'.Truthful) :
    m.Replica c m' ∧ m'.Yields c :=
  have hreads := hsame.reads_iff.mpr h.reads
  ⟨⟨hsame.version_eq, hsame.headers_eq, hsame.attachments_eq, readElement_of_reads hreads⟩, hreads,
    hsame.starts h.starts, htruthful⟩

theorem payloadTree_eq (h : m.Yields c) : m.payloadTree = (.ok c, { m with payload := .ofElement c }) := by
  rw [Message.payloadTree_eq, readElement_of_reads h.reads]

theorem ofElement (h : m.Yields c) : ({ m with payload := .ofElement c } : Message).Yields c where
  reads := by cases c <;> constructor
  starts := by cases c <;> trivial
  truthful := by
    have htruthful := h.truthful.payloadTree
    rwa [h.payloadTree_eq] at htruthful

theorem copy_eq (h : m.Yields c) :
    m.copy = (.ok { m with payload := m.payload.inMemory }, { m with payload := m.payload.inMemory }) ∧
      ({ m with payload := m.payload.inMemory } : Message).Yields c := by
  obtain ⟨bytes, hread⟩ := readBytes_of_reads h.reads
  have hcopy := m.copy_eq
  simp only [hread] at hcopy
  refine ⟨hcopy, (reads_inMemory_iff hread).mpr h.reads, ?_, ?_⟩
  · show Payload.Starts m.payload.inMemory
    cases m.payload <;> trivial
  · have htruthful := h.truthful.copy.1
    rwa [hcopy] at htruthful

/-- One inquiry: the reply is the one owed, and the message and its copy can be asked again. -/
theorem answer (h : m.Yields c) (q : Inquiry) :
    m.Owes c q (m.answer q).1 ∧ (m.Replica c (m.answer q).2 ∧ (m.answer q).2.Yields c) ∧
      ∀ replica ∈ (m.answer q).1.replicas, m.Replica c replica ∧ replica.Yields c := by
  have hnamed := h.of_sameContent m.sameContent_payloadName h.truthful.payloadName
  cases q with
  | name =>
    refine ⟨?_, hnamed, List.forall_mem_nil _⟩
    show m.Owes c .name (.name m.payloadName.1)
    rw [h.payloadName_eq]
    exact .name
  | hasPayload =>
    refine ⟨?_, hnamed, List.forall_mem_nil _⟩
    show m.Owes c .hasPayload (.hasPayload (m.payloadName.1.map Option.isSome))
    rw [h.payloadName_eq]
    cases c <;> exact .hasPayload
  | isFault =>
    refine ⟨?_, h.of_sameContent m.sameContent_isFault h.truthful.isFault, List.forall_mem_nil _⟩
    show m.Owes c .isFault (.isFault m.isFault.1)
    rw [h.isFault_eq]
    exact .isFault
  | tree =>
    rw [Message.answer, h.payloadTree_eq]
    exact ⟨.tree, ⟨⟨rfl, rfl, rfl, readElement_of_reads h.ofElement.reads⟩, h.ofElement⟩,
      List.forall_mem_nil _⟩
  | copy =>
    obtain ⟨hcopy, hyields⟩ := h.copy_eq
    have hreplica : m.Replica c { m with payload := m.payload.inMemory } :=
      ⟨rfl, rfl, rfl, readElement_of_reads hyields.reads⟩
    rw [Message.answer, hcopy]
    exact ⟨.copy hreplica, ⟨hreplica, hyields⟩,
      fun replica hmem => List.mem_singleton.mp hmem ▸ ⟨hreplica, hyields⟩⟩

end Yields

/-! ### A message and its copies -/

/-- Puts an inquiry to one of the messages. A copy that it makes joins them. -/
def ask (family : List Message) (i : Nat) (q : Inquiry) : Option Reply × List Message :=
  match family[i]? with
  | none => (none, family)
  | some m => (some (m.answer q).1, family.set i (m.answer q).2 ++ (m.answer q).1.replicas)

/-- Puts inquiries to the messages, and gives each with its reply. -/
def interview (family : List Message) : List (Nat × Inquiry) → List (Inquiry × Reply) × List Message
  | [] => ([], family)
  | (i, q) :: orders =>
    let (reply, family) := ask family i q
    let (replies, family) := interview family orders
    (reply.toList.map (q, ·) ++ replies, family)

/-- One inquiry is put to a family of replicas: it is answered as it should be, and they are replicas still. -/
theorem ask_replicas {family : List Message} (h : ∀ m' ∈ family, m.Replica c m' ∧ m'.Yields c)
    (i : Nat) (q : Inquiry) :
    (∀ reply ∈ (ask family i q).1, m.Owes c q reply) ∧
      ∀ m' ∈ (ask family i q).2, m.Replica c m' ∧ m'.Yields c := by
  unfold ask
  split
  · refine ⟨fun reply hreply => ?_, h⟩
    cases hreply
  · rename_i asked hasked
    obtain ⟨hreplica, hyields⟩ := h asked (List.mem_of_getElem? hasked)
    obtain ⟨howes, ⟨hsame, hagain⟩, hcopies⟩ := hyields.answer q
    refine ⟨fun reply hreply => ?_, fun m' hm' => ?_⟩
    · cases hreply
      exact howes.of_replica hreplica
    · rcases List.mem_append.mp hm' with hm' | hm'
      · rcases List.mem_or_eq_of_mem_set hm' with hm' | rfl
        · exact h m' hm'
        · exact ⟨hreplica.trans hsame, hagain⟩
      · obtain ⟨hcopy, hcopied⟩ := hcopies m' hm'
        exact ⟨hreplica.trans hcopy, hcopied⟩

theorem interview_replicas {family : List Message} (h : ∀ m' ∈ family, m.Replica c m' ∧ m'.Yields c)
    (orders : List (Nat × Inquiry)) :
    (∀ entry ∈ (interview family orders).1, m.Owes c entry.1 entry.2) ∧
      ∀ m' ∈ (interview family orders).2, m.Replica c m' ∧ m'.Yields c := by
  induction orders generalizing family with
  | nil => exact ⟨List.forall_mem_nil _, h⟩
  | cons order orders ih =>
    obtain ⟨i, q⟩ := order
    obtain ⟨hreply, hfamily⟩ := ask_replicas h i q
    obtain ⟨hreplies, hlast⟩ := ih hfamily
    refine ⟨fun entry hentry => ?_, hlast⟩
    rcases List.mem_append.mp hentry with hentry | hentry
    · obtain ⟨reply, hmem, rfl⟩ := List.mem_map.mp hentry
      exact hreply reply (Option.mem_toList.mp hmem)
    · exact hreplies entry hentry

/-! ### After the payload was taken -/

/-- Any use of a message: a question or an attempt to take its payload. -/
inductive Use where
  | ask (q : Inquiry)
  | take (t : Taking)

def use (m : Message) : Use → Message
  | .ask q => (m.answer q).2
  | .take t => (m.take t).2

/-- Nothing can be got from the message but, maybe, the name that its payload had. -/
structure Spent (m : Message) : Prop where
  take : ∀ t, (m.take t).1 = .error .messageConsumed
  tree : m.payloadTree.1 = .error .messageConsumed
  copy : m.copy.1 = .error .messageConsumed

theorem spent_of_consumed (h : m.payload = .consumed) : m.Spent where
  take t := (take_gone_iff t).mpr h
  tree := payloadTree_error_iff.mpr (readElement_gone_iff.mpr h)
  copy := copy_error_iff.mpr (readBytes_gone_iff.mpr h)

theorem SameContent.consumed (h : m.SameContent m') (hconsumed : m.payload = .consumed) : m'.payload = .consumed := by
  have hpayload := h.payload
  rw [hconsumed] at hpayload
  generalize m'.payload = p' at hpayload ⊢
  cases hpayload
  rfl

/-- No use brings a payload back. -/
theorem use_consumed (h : m.payload = .consumed) (u : Use) : (m.use u).payload = .consumed := by
  cases u with
  | take t => exact congrArg Message.payload (m.take_left t)
  | ask q =>
    cases q with
    | name | hasPayload => exact m.sameContent_payloadName.consumed h
    | isFault => exact m.sameContent_isFault.consumed h
    | tree =>
      have htree := m.payloadTree_eq
      simp only [readElement_gone_iff.mpr h] at htree
      exact congrArg (·.2.payload) htree
    | copy =>
      have hcopy := m.copy_eq
      simp only [readBytes_gone_iff.mpr h] at hcopy
      exact congrArg (·.2.payload) hcopy

theorem foldl_use_consumed (h : m.payload = .consumed) (uses : List Use) : (uses.foldl use m).payload = .consumed := by
  induction uses generalizing m with
  | nil => exact h
  | cons u uses ih => exact ih (use_consumed h u)

theorem payloadName_setPayload (m : Message) (e : Option Element) :
    (m.setPayload e).payloadName.1 = .ok (e.map Element.name) := by
  cases e <;> rfl

/-- A message that can be read, and its copies and theirs, are asked in any order: every reply is the one that
the content owes, and in the end each of them can be read as it. Once one was taken, it is spent, however it
is used, until it is given another payload, by which it is named then. -/
theorem Reached.family_coherent (hm : m.Reached) (hread : m.readElement.1 = .ok c) (hstarts : m.payload.Starts)
    (orders : List (Nat × Inquiry)) :
    (∀ entry ∈ (interview [m] orders).1, m.Owes c entry.1 entry.2) ∧
      ∀ m' ∈ (interview [m] orders).2, m.Replica c m' ∧
        ∀ (t : Taking) (uses : List Use), (uses.foldl use (m'.take t).2).Spent ∧
          ∀ e, ((uses.foldl use (m'.take t).2).setPayload e).payloadName.1 = .ok (e.map Element.name) := by
  have hyields : m.Yields c := ⟨reads_of_readElement hread, hstarts, hm.truthful⟩
  have halone : ∀ m' ∈ [m], m.Replica c m' ∧ m'.Yields c := by
    intro m' hm'
    rw [List.mem_singleton.mp hm']
    exact ⟨hyields.replica, hyields⟩
  obtain ⟨hreplies, hfamily⟩ := interview_replicas halone orders
  refine ⟨hreplies, fun m' hm' => ⟨(hfamily m' hm').1,
    fun t uses => ⟨?_, fun e => payloadName_setPayload _ e⟩⟩⟩
  exact spent_of_consumed (foldl_use_consumed (congrArg Message.payload (m'.take_left t)) uses)

/-- A source in pieces: its name is asked for, it is copied, the copy becomes a tree and is copied again. -/
theorem Reached.family_coherent_streamed :
    let m := ofSource (some .v11) ⟨Element.nested.toBytes, [1, 3, 2], false⟩
    let orders := [(0, .name), (0, .copy), (1, .tree), (1, .copy), (2, .isFault), (0, .hasPayload)]
    (∀ entry ∈ (interview [m] orders).1, m.Owes (some (Element.nested.settle [])) entry.1 entry.2) ∧
      ∀ m' ∈ (interview [m] orders).2, m.Replica (some (Element.nested.settle [])) m' := by
  intro m orders
  have hparse : Element.parse Element.nested.toBytes = .ok (Element.nested.settle []) :=
    Element.parse_toBytes (by decide)
  have hread : m.readElement.1 = .ok (some (Element.nested.settle [])) := readElement_of_reads (.stream rfl hparse)
  have hstarts : m.payload.Starts := startsWithin_of_parse hparse (by decide +kernel)
  obtain ⟨hreplies, hfamily⟩ := Reached.family_coherent (.source _ _) hread hstarts orders
  exact ⟨hreplies, fun m' hm' => (hfamily m' hm').1⟩

end Message

end SoapNode
