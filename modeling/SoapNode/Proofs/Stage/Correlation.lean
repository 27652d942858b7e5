import SoapNode.Proofs.Message.Pulling
import SoapNode.Proofs.Stage.Blocks
import SoapNode.Proofs.Tube.Recursion

/-!
# Replies are related to their requests

Whatever comes back from behind the addressing stage of a server is given the message id of the request and an
action. A fault that the stage answers itself is not: it goes back without any block.
-/

namespace SoapNode

/-! ### Asking again whether a message is a fault -/

namespace Message

theorem payloadName_payloadName (m : Message) : m.payloadName.2.payloadName.1 = m.payloadName.1 := by
  obtain ⟨version, headers, attachments, payload, knownName⟩ := m
  cases knownName with
  | some name => rfl
  | none =>
    cases payload with
    | empty | tree _ | consumed => rfl
    | buffered bytes =>
      cases hname : sniff bytes <;> simp only [payloadName, hname, remember]
    | stream pulled s =>
      have hagain := sniffSource_again pulled s
      rcases hfound : sniffSource pulled s with ⟨name, pulled', s'⟩
      rw [hfound] at hagain
      cases name <;> simp only [payloadName, hfound, hagain, remember]

theorem payloadName_withHeaders (m : Message) (headers : HeaderList) :
    ({ m with headers } : Message).payloadName.1 = m.payloadName.1 := by
  obtain ⟨version, _, attachments, payload, knownName⟩ := m
  cases knownName with
  | some name => rfl
  | none =>
    cases payload with
    | empty | tree _ | consumed => rfl
    | buffered bytes => cases hname : sniff bytes <;> simp only [payloadName, hname]
    | stream pulled s =>
      rcases hfound : sniffSource pulled s with ⟨name, pulled', s'⟩
      cases name <;> simp only [payloadName, hfound]

theorem isFault_congr {m m' : Message} (hversion : m'.version = m.version)
    (hname : m'.payloadName.1 = m.payloadName.1) : m'.isFault.1 = m.isFault.1 := by
  simp only [isFault, hversion]
  cases m.version with
  | none => rfl
  | some v => simp only [hname]

theorem isFault_isFault (m : Message) : m.isFault.2.isFault.1 = m.isFault.1 := by
  refine isFault_congr m.sameContent_isFault.version_eq ?_
  rw [isFault]
  cases m.version with
  | none => rfl
  | some v => exact m.payloadName_payloadName

end Message

namespace Addressing

/-- The reply names the message that it answers, and the action that it is. -/
structure Correlated (id : String) (action : Option String) (m : Message) : Prop where
  relates : ∃ h, m.headers.find? (name "RelatesTo") = some h ∧ h.text = Text.trim id
  acts : ∀ value, (if m.isFault.1 then some faultAction else action.map (· ++ "Response")) = some value →
    m.headers.find? (name "Action") = some (header "Action" value)

variable {World : Type} {v : SoapVersion} {required : Bool}

theorem text_header (localPart value : String) : (header localPart value).text = Text.trim value := by
  show Text.trim (String.join [value]) = _
  simp

theorem isFault_replaceText (m : Message) (localPart : String) (value : Option String) :
    (replaceText m localPart value).isFault.1 = m.isFault.1 := by
  cases value with
  | none => rfl
  | some value => exact Message.isFault_congr rfl (m.payloadName_withHeaders _)

theorem find?_replaceText (m : Message) (localPart value : String) :
    (replaceText m localPart (some value)).headers.find? (name localPart) = some (header localPart value) := by
  show (m.headers.addOrReplace (header localPart value)).find? (name localPart) = _
  rw [find?_addOrReplace]
  exact if_pos rfl

theorem find?_replaceText_of_ne {localPart other : String} (h : localPart ≠ other) (m : Message)
    (value : Option String) :
    (replaceText m localPart value).headers.find? (name other) = m.headers.find? (name other) := by
  cases value with
  | none => rfl
  | some value =>
    show (m.headers.addOrReplace (header localPart value)).find? (name other) = _
    rw [find?_addOrReplace]
    exact if_neg (fun hname => h (congrArg QName.localPart hname))

/-- What comes back from behind the stage is related to the message id that it has kept. -/
theorem correlated_relate {p : Packet} {m : Message} {id : String} (hid : p.messageId = some (Text.trim id))
    (hm : (relate p).message = some m) : Correlated id p.soapAction m := by
  obtain ⟨message, properties⟩ := p
  cases message with
  | none => cases hm
  | some reply =>
    have hfault := reply.isFault_isFault
    rcases hasked : reply.isFault with ⟨isFault, asked⟩
    rw [hasked] at hfault
    simp only [relate, hasked, hid, Packet.setMessage, Option.some_inj] at hm
    subst hm
    constructor
    · exact ⟨_, find?_replaceText _ "RelatesTo" _, (text_header _ _).trans (Text.trim_trim id)⟩
    · intro value hvalue
      rw [isFault_replaceText, isFault_replaceText, hfault] at hvalue
      rw [find?_replaceText_of_ne (by decide), show (if isFault then some faultAction else _) = some value from hvalue]
      exact find?_replaceText asked "Action" value

/-- The action that a request asks for: the one in its blocks, or else the one it came with. -/
def requestAction (p : Packet) : Option String := (headerText p "Action").or p.soapAction

theorem serverRequest_eq (v : SoapVersion) (w : Wiring) {p : Packet} {m : Message} (hm : p.message = some m)
    (hnot : ¬(required = true ∧ headerText p "Action" = none)) {id : String}
    (hid : headerText p "MessageID" = some id) :
    ∃ p', serverRequest v required w p = w.invokeNext p' ∧ p'.messageId = some id ∧
      p'.soapAction = requestAction p := by
  rw [requestAction]
  cases haction : headerText p "Action" with
  | none =>
    have hoptional : required = false := by simpa [haction] using hnot
    refine ⟨p.setMessageId (some id), ?_, rfl, rfl⟩
    simp [serverRequest, hm, haction, hid, hoptional]
  | some action =>
    have hkept : headerText (p.setSoapAction (some action)) "MessageID" = some id := hid
    refine ⟨(p.setSoapAction (some action)).setMessageId (some id), ?_, rfl, rfl⟩
    simp [serverRequest, hm, haction, hkept]

theorem serverRequest_refused (v : SoapVersion) (w : Wiring) {p : Packet} {m : Message} (hm : p.message = some m)
    (hrequired : required = true) (haction : headerText p "Action" = none) :
    serverRequest v required w p = .ret (p.respondFault (some v) (actionMissing v)) := by
  have hpresent : ¬p.message.isNone = true := by simp [hm]
  have hrefused : (required && (headerText p "Action").isNone) = true := by simp [hrequired, haction]
  simp only [serverRequest, if_neg hpresent, if_pos hrefused]

variable {tubes : List (Tube (HandlerExchange World) (Site World))} {this next : TubeId} {rest : List TubeId}
  {cells : List CellId}

/-- A tube behind which packets keep their message id and their action. -/
def Keeps (tubes : List (Tube (HandlerExchange World) (Site World))) (tube : TubeId) : Prop :=
  ∀ p s q s' visits, Fiber.Handles (Plant.callbacks tubes) tube p s (.ok q) s' visits →
    q.messageId = p.messageId ∧ q.soapAction = p.soapAction

/-- A reply is related to its request, unless the stage requires an action and the request has none in its blocks. -/
theorem correlated_unless_refused (htube : tubes[this]? = some ⟨stage .server v required, next :: rest, cells⟩)
    (hkeeps : Keeps tubes next) {p : Packet} {m : Message} {h : Header} (hm : p.message = some m)
    (hid : m.headers.find? (name "MessageID") = some h) {s s' : SiteStore World} {q : Packet} {visits : List Visit}
    (hreply : Fiber.Handles (Plant.callbacks tubes) this p s (.ok q) s' visits) {reply : Message}
    (hmessage : q.message = some reply) :
    Correlated h.text (requestAction p) reply ↔ ¬(required = true ∧ headerText p "Action" = none) := by
  obtain ⟨a, s₁, rest', hrequest, heval, -⟩ := hreply
  have hstage : (Plant.callbacks tubes).request this p s =
      (serverRequest v required ⟨this, next :: rest, cells⟩ p, s) := by
    simp only [Plant.callbacks, htube, stage]
  rw [hstage] at hrequest
  obtain ⟨rfl, rfl⟩ := Prod.mk.inj hrequest
  by_cases hrefused : required = true ∧ headerText p "Action" = none
  · rw [serverRequest_refused v _ hm hrefused.1 hrefused.2] at heval
    cases heval
    obtain rfl : Message.ofFaultFor (some v) (actionMissing v) = reply := Option.some_inj.mp hmessage
    refine iff_of_false ?_ (not_not_intro hrefused)
    rintro ⟨⟨_, hfind, -⟩, -⟩
    cases hfind
  · have hid' : headerText p "MessageID" = some (Text.trim h.text) := by
      rw [headerText, hm, Option.bind_some, hid, Option.map_some]
    obtain ⟨p', hforward, hkeptId, hkeptAction⟩ :=
      serverRequest_eq v ⟨this, next :: rest, cells⟩ hm hrefused hid'
    rw [hforward, show Wiring.invokeNext ⟨this, next :: rest, cells⟩ p' = .invoke next p' from rfl] at heval
    refine iff_of_true ?_ hrefused
    cases heval with
    | @invoke _ _ _ _ a s₁ r s₂ visits b s₃ _ _ visits' request inner back rest =>
      cases r with
      | error e =>
        simp only [Callbacks.back, Plant.callbacks, htube, stage, Stage.passing, Prod.mk.injEq] at back
        obtain ⟨rfl, rfl⟩ := back
        cases rest
      | ok q₀ =>
        obtain ⟨hkeptId₀, hkeptAction₀⟩ := hkeeps p' s q₀ s₂ _ ⟨a, s₁, visits, request, inner, rfl⟩
        simp only [Callbacks.back, Plant.callbacks, htube, stage, Prod.mk.injEq] at back
        obtain ⟨rfl, rfl⟩ := back
        cases rest
        have hcorrelated := correlated_relate (hkeptId₀.trans hkeptId) hmessage
        rwa [hkeptAction₀, hkeptAction] at hcorrelated

/-- A server that sends back what it is asked, behind a stage that requires an action. -/
def echoing : List (Tube (HandlerExchange Unit) (Site Unit)) :=
  [⟨Stage.passing "echo", [], []⟩, ⟨stage .server .v12 true, [0], []⟩]

theorem keeps_echoing : Keeps echoing 0 := by
  rintro p s q s' visits ⟨a, s₁, rest, hrequest, heval, -⟩
  obtain ⟨rfl, rfl⟩ := Prod.mk.inj (show (NextAction.ret p, s) = (a, s₁) from hrequest)
  cases heval
  exact ⟨rfl, rfl⟩

/-- A request with a message id and these blocks. -/
def asking (blocks : List Header) : Packet :=
  .ofMessage { Message.empty (some .v12) with headers := .ofBlocks (header "MessageID" " urn:m:1 " :: blocks) }

theorem correlated_unless_refused_order :
    let s : SiteStore Unit := ⟨[], .new (.new .soap12) default ()⟩
    ∃ q visits reply, Fiber.Handles (Plant.callbacks echoing) 1 (asking [header "Action" "urn:Order"])
      s (.ok q) s visits ∧
      q.message = some reply ∧ Correlated "urn:m:1" (some "urn:Order") reply := by
  intro s
  have hhandles : Fiber.Handles (Plant.callbacks echoing) 1 (asking [header "Action" "urn:Order"]) s (.ok _) s _ :=
    ⟨_, _, _, rfl, .invoke rfl .ret rfl .ret, rfl⟩
  refine ⟨_, _, _, hhandles, rfl, ?_⟩
  have hcorrelated := (correlated_unless_refused (v := .v12) rfl keeps_echoing rfl rfl hhandles rfl).mpr (by decide)
  exact hcorrelated

/-- The fault for a request without an action says neither what it answers nor what it is. -/
theorem refusal_uncorrelated :
    let s : SiteStore Unit := ⟨[], .new (.new .soap12) default ()⟩
    ∃ q visits reply, Fiber.Handles (Plant.callbacks echoing) 1 (asking []) s (.ok q) s visits ∧
      q.message = some reply ∧
      reply.isFault.1 = true ∧ reply.headers.find? (name "RelatesTo") = none ∧
          reply.headers.find? (name "Action") = none := by
  intro s
  exact ⟨_, _, _, ⟨_, _, _, rfl, .ret, rfl⟩, rfl, rfl, rfl, rfl⟩

end Addressing

end SoapNode
