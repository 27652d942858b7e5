import SoapNode.Proofs.Soap.Marks
import SoapNode.Proofs.Stage.Quiet

/-!
# Stages that look at header blocks

The must-understand stage lets plain blocks pass. The addressing stage of a client adds plain blocks to
a request, the one of a server finds them there and adds some to the answer. The payload stays what it is.
The security stage leaves the site alone.
-/

namespace SoapNode

variable {World : Type}

/-- A packet without a message, or with a message that has this payload. -/
def Packet.Bears (version : Option SoapVersion) (answer : Option (Option Element)) (p : Packet) : Prop :=
  match answer with
  | none => p.message = none
  | some payload => ∃ m, p.message = some m ∧ m.Bears version payload

/-- A packet whose message can be sent, if it has one. -/
def Packet.Sends (version : Option SoapVersion) (answer : Option (Option Element)) (p : Packet) : Prop :=
  match answer with
  | none => p.message = none
  | some payload => ∃ m, p.message = some m ∧ m.Sendable version payload

theorem Packet.Bears.copy {version : Option SoapVersion} {answer : Option (Option Element)} {p : Packet}
    (h : p.Bears version answer) : ∀ m ∈ p.message, m.copy.2 = m := by
  intro m hm
  cases answer with
  | none =>
    rw [show p.message = none from h] at hm
    cases hm
  | some payload =>
    obtain ⟨m', hm', hbears⟩ := h
    rw [hm'] at hm
    cases hm
    exact hbears.holds.copy

theorem Packet.Sends.copy {version : Option SoapVersion} {answer : Option (Option Element)} {p : Packet}
    (h : p.Sends version answer) : ∀ m ∈ p.message, m.copy.2 = m := by
  have hbears : p.Bears version answer := by
    cases answer with
    | none => exact h
    | some payload =>
      obtain ⟨m, hm, hsendable⟩ := h
      exact ⟨m, hm, hsendable.bears⟩
  exact hbears.copy

namespace MustUnderstand

variable {b : Binding World} {J : Nat → World → Prop} {v : SoapVersion} {side : Side} {understood : List QName}

theorem missing_plain {l : HeaderList} (h : l.Plain) (roles : List String) : missing v roles understood l = [] := by
  rw [missing, List.map_eq_nil_iff, List.filter_eq_nil_iff]
  rintro ⟨block, i⟩ hblock
  have hmem : block ∈ l.blocks := by
    obtain ⟨_, -, heq⟩ := List.mem_zipIdx (List.mem_filter.mp hblock).1
    rw [heq]
    exact List.getElem_mem _
  have hnone : block.mustUnderstand v = false := by
    rw [Header.mustUnderstand, Element.attribute?, h block hmem]
    rfl
  show ¬(!isProcessed understood l i block && block.mustUnderstand v) = true
  rw [hnone, Bool.and_false]
  decide

theorem blocks_markProcessed (roles : List String) (l : HeaderList) :
    (markProcessed v roles understood l).blocks = l.blocks := by
  have hfold : ∀ (marked : List (Header × Nat)) (l : HeaderList),
      (marked.foldl (fun l x => l.mark x.2) l).blocks = l.blocks := by
    intro marked
    induction marked with
    | nil => exact fun _ => rfl
    | cons x marked ih =>
      intro l
      rw [List.foldl_cons, ih]
      exact l.blocks_mark x.2
  exact hfold _ l

theorem check_plain {m : Message} {payload : Option Element} (h : m.Bears (some v) payload) (understood : List QName)
    (binding : Binding World) :
    ∃ m', check v understood binding m = ([], m') ∧ m'.Bears (some v) payload := by
  let headers := markProcessed v binding.handlerConfig.roles (understood ++ binding.handlerConfig.understood) m.headers
  have hcheck : check v understood binding m = ([], { m with headers }) := by
    rw [check, missing_plain h.plain]
  refine ⟨{ m with headers }, hcheck, h.version_eq, h.holds.withHeaders _, ?_⟩
  intro block hblock
  rw [show ({ m with headers } : Message).headers.blocks = m.headers.blocks from blocks_markProcessed _ _] at hblock
  exact h.plain block hblock

theorem response_plain (understood : List QName) (hversion : b.version? = some v)
    {answer : Option (Option Element)} {p : Packet} {s : SiteStore World} (hp : p.Bears (some v) answer)
    (hs : s.world.binding = b) :
    ∃ p', response .client understood p s = (.ret p', s) ∧ p'.Bears (some v) answer := by
  unfold response
  rw [hs, hversion]
  obtain ⟨message, properties⟩ := p
  cases answer with
  | none =>
    cases hp
    exact ⟨⟨none, properties⟩, rfl, rfl⟩
  | some payload =>
    obtain ⟨m, rfl, hbears⟩ := hp
    simp only [Packet.isFault, Packet.onMessage, hbears.holds.isFault hbears.version_eq]
    have hremembered : (m.remember (payload.map Element.name)).Bears (some v) payload :=
      ⟨hbears.version_eq, hbears.holds.remember, hbears.plain⟩
    obtain ⟨m', hcheck, hm'⟩ := check_plain hremembered understood b
    split
    · exact ⟨_, rfl, _, rfl, hremembered⟩
    · simp only [hcheck]
      exact ⟨_, rfl, m', rfl, hm'⟩

theorem request_plain (hversion : b.version? = some v) {payload : Option Element} {p : Packet} {s : SiteStore World}
    (hp : p.Bears (some v) (some payload)) (hs : s.world.binding = b) (w : Wiring) :
    ∃ p', request .server understood w p s = (w.invokeNext p', s) ∧ p'.Bears (some v) (some payload) := by
  unfold request
  rw [hs, hversion]
  obtain ⟨message, properties⟩ := p
  obtain ⟨m, rfl, hbears⟩ := hp
  obtain ⟨m', hcheck, hm'⟩ := check_plain hbears understood b
  simp only [Packet.onMessage, hcheck]
  exact ⟨_, rfl, m', rfl, hm'⟩

theorem store_request (side : Side) (w : Wiring) (p : Packet) (s : SiteStore World) :
    (request side understood w p s).2 = s := by
  unfold request
  split
  · split <;> rfl
  · rfl

theorem result_response (side : Side) (understood : List QName) (p : Packet) (s : SiteStore World) :
    ∃ action r, response side understood p s = (action, s) ∧ action.result? = some r := by
  unfold response
  split
  · simp only
    split
    · exact ⟨_, _, rfl, rfl⟩
    · split
      · exact ⟨_, _, rfl, rfl⟩
      · exact ⟨_, _, rfl, rfl⟩
  · exact ⟨_, _, rfl, rfl⟩

theorem passes_client (hversion : b.version? = some v) (A : Packet → Prop) (answer : Option (Option Element))
    (J J' : Nat → World → Prop) (good : Prop) :
    (stage .client understood).Passes (Quiet.With b A J) (Quiet.With b A J)
      (Quiet.Gives b good (Packet.Bears (some v) answer) J')
        (Quiet.Gives b good (Packet.Bears (some v) answer) J') where
  request w p s hp := by
    refine ⟨p, s, ?_, hp⟩
    show request .client understood w p s = _
    unfold request
    cases s.world.binding.version? <;> rfl
  result w r s hr := by
    cases r with
    | ok p =>
      obtain ⟨action, r', hresponse, hresult⟩ := result_response .client understood p s
      refine ⟨action, r', s, hresponse, hresult, hr.quiet, ?_⟩
      intro hgood
      obtain ⟨q, hq, hbears⟩ := hr.packet hgood
      cases hq
      obtain ⟨p', hplain, hp'⟩ := response_plain understood hversion hbears hr.quiet.binding_eq
      rw [hplain] at hresponse
      cases hresponse
      cases hresult
      exact ⟨p', rfl, hp'⟩
    | error e => exact ⟨_, _, s, rfl, rfl, hr⟩

theorem passes_server (hversion : b.version? = some v) (payload : Option Element) (B : Packet → Prop)
    (J J' : Nat → World → Prop) (good : Prop) :
    (stage .server understood).Passes (Quiet.With b (Packet.Bears (some v) (some payload)) J)
      (Quiet.With b (Packet.Bears (some v) (some payload)) J) (Quiet.Gives b good B J') (Quiet.Gives b good B J') where
  request w p s hp := by
    obtain ⟨p', hrequest, hp'⟩ := request_plain hversion hp.1 hp.2.binding_eq w
    exact ⟨p', s, hrequest, hp', hp.2⟩
  result w r s hr := by
    cases r with
    | ok p =>
      refine ⟨.ret p, _, s, ?_, rfl, hr⟩
      show response .server understood p s = _
      unfold response
      cases s.world.binding.version? <;> rfl
    | error e => exact ⟨_, _, s, rfl, rfl, hr⟩

theorem keeps_quiet : (stage side understood).Keeps (Quiet b J) where
  request w p s hs := by
    show Quiet b J (request side understood w p s).2
    rwa [store_request]
  response w p s hs := by
    obtain ⟨action, r, hresponse, -⟩ := result_response side understood p s
    show Quiet b J (response side understood p s).2
    rwa [hresponse]
  exception _ _ _ hs := hs

end MustUnderstand

namespace Addressing

variable {b : Binding World} {v : SoapVersion}

theorem mem_addOrReplace {l : HeaderList} {h block : Header} (hblock : block ∈ (l.addOrReplace h).blocks) :
    block = h ∨ block ∈ l.blocks := by
  have hgo : ∀ blocks : List Header, block ∈ HeaderList.addOrReplace.go h blocks →
      block = h ∨ block ∈ blocks := by
    intro blocks
    induction blocks with
    | nil => exact fun hb => .inl (List.mem_singleton.mp hb)
    | cons b blocks ih =>
      rw [HeaderList.addOrReplace.go]
      split
      · intro hb
        exact (List.mem_cons.mp hb).imp id (List.mem_cons_of_mem b)
      · intro hb
        rcases List.mem_cons.mp hb with rfl | hb
        · exact .inr List.mem_cons_self
        · exact (ih hb).imp id (List.mem_cons_of_mem b)
  exact hgo l.blocks hblock

theorem find?_addOrReplace (l : HeaderList) (h : Header) (name : QName) :
    (l.addOrReplace h).find? name = if h.name = name then some h else l.find? name := by
  have hgo : ∀ blocks : List Header, (HeaderList.addOrReplace.go h blocks).find? (·.name = name) =
      if h.name = name then some h else blocks.find? (·.name = name) := by
    intro blocks
    induction blocks with
    | nil =>
      rw [HeaderList.addOrReplace.go, List.find?_cons]
      by_cases hname : h.name = name <;> simp [hname]
    | cons b blocks ih =>
      rw [HeaderList.addOrReplace.go]
      split
      · rename_i hsame
        rw [List.find?_cons, List.find?_cons, hsame]
        by_cases hname : h.name = name <;> simp [hname]
      · rename_i hother
        rw [List.find?_cons, List.find?_cons, ih]
        by_cases hname : h.name = name <;> grind
  exact hgo l.blocks

theorem isSome_find?_addOrReplace (l : HeaderList) (h : Header) (name : QName)
    (hfound : h.name = name ∨ (l.find? name).isSome = true) : ((l.addOrReplace h).find? name).isSome = true := by
  rw [find?_addOrReplace]
  split
  · rfl
  · exact hfound.resolve_left ‹_›

/-- A block of the stage: it can be written and demands nothing. -/
def IsBlock (h : Header) : Prop := h.element.Writable ∧ h.element.tag.attributes = []

theorem isBlock_header {localPart : String} (h : (named localPart).tag.Writable) (value : String) :
    IsBlock (header localPart value) := ⟨⟨h, trivial, trivial⟩, rfl⟩

theorem isBlock_replyTo : IsBlock replyTo := by
  rw [IsBlock]
  decide

theorem encodable_replaceHeader {m : Message} {payload : Option Element} {version : Option SoapVersion}
    (hm : m.Encodable version payload) {h : Header} (hh : h.element.Writable) :
    (replaceHeader m h).Encodable version payload := by
  refine ⟨hm.version_eq, hm.payload_eq, ?_⟩
  intro block hblock
  rcases mem_addOrReplace hblock with rfl | hblock
  · exact hh
  · exact hm.blocks block hblock

theorem sendable_replaceHeader {m : Message} {payload : Option Element} {version : Option SoapVersion}
    (hm : m.Sendable version payload) {h : Header} (hh : IsBlock h) : (replaceHeader m h).Sendable version payload := by
  refine ⟨hm.version_eq, hm.payload_eq, hm.known, (encodable_replaceHeader hm.encodable hh.1).blocks, ?_⟩
  intro block hblock
  rcases mem_addOrReplace hblock with rfl | hblock
  · exact hh.2
  · exact hm.plain block hblock

theorem sendable_replaceText {m : Message} {payload : Option Element} {version : Option SoapVersion}
    (hm : m.Sendable version payload) (localPart : String) (h : (named localPart).tag.Writable)
    (value : Option String) : (replaceText m localPart value).Sendable version payload := by
  cases value with
  | none => exact hm
  | some value => exact sendable_replaceHeader hm (isBlock_header h value)

/-- The message that the stage of a client makes of a request. -/
def addressed (p : Packet) (id : String) (m : Message) : Message :=
  let m := replaceText (replaceText (replaceText m "To" p.endpointAddress) "Action" p.soapAction) "MessageID" (some id)
  if p.isOneWay then m else replaceHeader m replyTo

theorem sendable_addressed {m : Message} {payload : Option Element} {version : Option SoapVersion}
    (hm : m.Sendable version payload) (p : Packet) (id : String) : (addressed p id m).Sendable version payload := by
  have htexts := sendable_replaceText (sendable_replaceText (sendable_replaceText hm "To" (by decide) p.endpointAddress)
    "Action" (by decide) p.soapAction) "MessageID" (by decide) (some id)
  rw [addressed]
  split
  · exact htexts
  · exact sendable_replaceHeader htexts isBlock_replyTo

theorem find?_addressed (p : Packet) (id : String) (m : Message) (haction : p.soapAction.isSome = true) :
    ((addressed p id m).headers.find? (name "Action")).isSome = true := by
  obtain ⟨action, haction⟩ := Option.isSome_iff_exists.mp haction
  have htexts : ((replaceText (replaceText (replaceText m "To" p.endpointAddress) "Action" p.soapAction) "MessageID"
      (some id)).headers.find? (name "Action")).isSome = true := by
    rw [haction]
    exact isSome_find?_addOrReplace _ _ _ (.inr (isSome_find?_addOrReplace _ _ _ (.inl rfl)))
  rw [addressed]
  split
  · exact htexts
  · exact isSome_find?_addOrReplace _ _ _ (.inr htexts)

def addressedPacket (p : Packet) (id : String) (m : Message) : Packet :=
  (p.setMessage (some (addressed p id m))).setMessageId (some id)

theorem passes_client {p : Packet} {m : Message} (hm : p.message = some m) (n : Nat)
    (world : World) (B : Packet → Prop) (J : Nat → World → Prop) (good : Prop) :
    (stage .client v false).Passes (Quiet.With b (· = p) (fun n' w => n' = n ∧ w = world))
      (Quiet.With b (· = addressedPacket p (Site.idText n) m) (fun _ w => w = world)) (Quiet.Gives b good B J)
      (Quiet.Gives b good B J) where
  request w q s hq := by
    obtain ⟨rfl, hs⟩ := hq
    obtain ⟨rfl, hworld⟩ := hs.condition
    refine ⟨_, { s with world := { s.world with issued := s.world.issued + 1 } }, ?_, rfl,
      hs.binding_eq, hs.idle, hworld⟩
    show clientRequest w q s = _
    rw [clientRequest, hm]
    rfl
  result w r s hr := by
    cases r with
    | ok p => exact ⟨_, _, s, rfl, rfl, hr⟩
    | error e => exact ⟨_, _, s, rfl, rfl, hr⟩

/-- A request that comes with an action where one is demanded. -/
def Asks (version : Option SoapVersion) (payload : Option Element) (required : Bool) (p : Packet) : Prop :=
  ∃ m, p.message = some m ∧ m.Bears version payload ∧
    (required = true → (m.headers.find? (name "Action")).isSome = true)

theorem Asks.bears {version : Option SoapVersion} {payload : Option Element} {required : Bool} {p : Packet}
    (h : Asks version payload required p) : p.Bears version (some payload) := by
  obtain ⟨m, hm, hbears, -⟩ := h
  exact ⟨m, hm, hbears⟩

theorem serverRequest_asks {payload : Option Element} {required : Bool} {p : Packet}
    (h : Asks (some v) payload required p) (w : Wiring) :
    ∃ p', serverRequest v required w p = w.invokeNext p' ∧ p'.Bears (some v) (some payload) := by
  obtain ⟨m, hm, hbears, haction⟩ := h
  have hmissing : (required && (headerText p "Action").isNone) = false := by
    cases required with
    | false => rfl
    | true =>
      rw [headerText, hm, Option.bind_some, Option.isNone_map, Bool.true_and, Option.isNone_eq_false_iff]
      exact haction rfl
  have hkept : ∀ (q : Packet) (value : Option String) (f : Packet → Option String → Packet),
      (∀ q x, (f q x).message = q.message) → (if value.isSome then f q value else q).message = q.message := by
    intro q value f hf
    split
    · exact hf q value
    · rfl
  rw [serverRequest, if_neg (by rw [hm]; exact Bool.false_ne_true)]
  simp only [hmissing, Bool.false_eq_true, if_false]
  refine ⟨_, rfl, m, ?_, hbears⟩
  rw [hkept _ _ Packet.setMessageId (fun _ _ => rfl), hkept _ _ Packet.setSoapAction (fun _ _ => rfl), hm]

theorem sends_relate {p : Packet} {answer : Option (Option Element)} (h : p.Sends (some v) answer) :
    (relate p).Sends (some v) answer := by
  obtain ⟨message, properties⟩ := p
  cases answer with
  | none =>
    cases h
    rfl
  | some payload =>
    obtain ⟨m, rfl, hm⟩ := h
    have hremembered : (m.remember (payload.map Element.name)).Sendable (some v) payload :=
      ⟨hm.version_eq, hm.payload_eq, hm.bears.holds.remember.known, hm.blocks, hm.plain⟩
    rw [relate]
    simp only [hm.bears.holds.isFault hm.version_eq]
    refine ⟨_, rfl, ?_⟩
    exact sendable_replaceText (sendable_replaceText hremembered "Action" (by decide) _) "RelatesTo" (by decide) _

theorem passes_server (payload : Option Element) (required : Bool) (answer : Option (Option Element))
    (J J' : Nat → World → Prop) (good : Prop) :
    (stage .server v required).Passes (Quiet.With b (Asks (some v) payload required) J)
      (Quiet.With b (Packet.Bears (some v) (some payload)) J) (Quiet.Gives b good (Packet.Sends (some v) answer) J')
      (Quiet.Gives b good (Packet.Sends (some v) answer) J') where
  request w p s hp := by
    obtain ⟨p', hrequest, hp'⟩ := serverRequest_asks hp.1 w
    refine ⟨p', s, ?_, hp', hp.2⟩
    show (serverRequest v required w p, s) = _
    rw [hrequest]
  result w r s hr := by
    cases r with
    | ok p =>
      refine ⟨_, _, s, rfl, rfl, hr.quiet, ?_⟩
      intro hgood
      obtain ⟨q, hq, hsends⟩ := hr.packet hgood
      cases hq
      exact ⟨relate p, rfl, sends_relate hsends⟩
    | error e => exact ⟨_, _, s, rfl, rfl, hr⟩

theorem keeps_quiet (side : Side) (required : Bool) {J : World → Prop} :
    (stage side v required).Keeps (Quiet b (fun _ w => J w)) := by
  cases side with
  | server => exact ⟨fun _ _ _ hs => hs, fun _ _ _ hs => hs, fun _ _ _ hs => hs⟩
  | client =>
    refine ⟨fun w p s hs => ?_, fun _ _ _ hs => hs, fun _ _ _ hs => hs⟩
    have hstore : (clientRequest w p s).2 = { s with world := { s.world with issued := s.world.issued + 1 } } := by
      unfold clientRequest
      cases p.message <;> rfl
    show Quiet b _ (clientRequest w p s).2
    rw [hstore]
    exact ⟨hs.binding_eq, hs.idle, hs.condition⟩

end Addressing

namespace Security

theorem keeps_quiet {b : Binding World} {J : Nat → World → Prop} {side : Side} {version : Option SoapVersion}
    {c : SecuritySettings} : (stage side version c).Keeps (Quiet b J) :=
  ⟨fun _ _ _ hs => hs, fun _ _ _ hs => hs, fun _ _ _ hs => hs⟩

end Security

end SoapNode
