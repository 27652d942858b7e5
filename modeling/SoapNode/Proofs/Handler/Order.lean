import SoapNode.Proofs.Handler.Exchange

/-!
# The order in which handlers are called

A request calls the handlers in the order of their chain, up to the first that does not answer true. If that
one stops it, or raises a fault, and an answer is expected, then those in front of it are called in reverse
order, each until one does not answer true; a fault first takes the place of the message. A response calls the
handlers in reverse order, unless the request was turned around. The relations here say so without a
processor; a processor does what they say and nothing else, whatever the handlers do to the packet and to the
world around them.
-/

namespace SoapNode

open Numbered

variable {World : Type}

/-- The callback for faults, or the one for other messages. -/
def Handler.onWay (isFault : Bool) (h : Handler World) : HandlerCallback World :=
  if isFault then h.onFault else h.onMessage

def Callback.onWay (isFault : Bool) : Callback := if isFault then .fault else .message

theorem Numbered.recorded_onWay {isFault : Bool} {h : Numbered World} {ctx : HandlerContext}
    {p p' : Packet} {w w' : World} {a : Except HandlerError Bool} (hcall : h.1.onWay isFault ctx p w = (a, p', w'))
    (log : List Event) :
    h.recorded.onWay isFault ctx p (w, log) = (a, p', w', log ++ [h.event (.onWay isFault) ctx.direction]) := by
  cases isFault with
  | false =>
    have hmessage : h.1.onMessage ctx p w = (a, p', w') := hcall
    show h.recorded.onMessage ctx p (w, log) = _
    simp only [recorded, hmessage]
    rfl
  | true =>
    have hfault : h.1.onFault ctx p w = (a, p', w') := hcall
    show h.recorded.onFault ctx p (w, log) = _
    simp only [recorded, hfault]
    rfl

/-- What became of a message: the answer, the calls that were made, the packet and the world. -/
@[ext]
structure Course (World : Type) where
  answer : Except HandlerError Bool
  events : List Event
  packet : Packet
  world : World

namespace Course

/-- The course of a message that was turned around. It does not go on; an error on the way back is raised. -/
def behind (events : List Event) (c : Course World) : Course World :=
  ⟨c.answer.map (fun _ => false), events ++ c.events, c.packet, c.world⟩

end Course

/-- A fault in the words of a version. Without a version it stays as it is. -/
def ProtocolFault.wordedIn (f : ProtocolFault) : Option SoapVersion → ProtocolFault
  | none => f
  | some v => { f with version := v, code := v.mapCode f.code }

/-- The message has become this fault, in the version of the binding. Nothing else has changed. -/
structure FaultInPlace (version : Option SoapVersion) (fault : ProtocolFault) (p q : Packet) : Prop where
  message : q.message = some (.ofElement version (SoapFault.ofProtocol (fault.wordedIn version)).toElement)
  properties : q.properties = p.properties

namespace Processor

/-- What handlers are told of a request. It leaves a client and comes in at a server. -/
def onRequest (P : Processor World) : HandlerContext :=
  match P.side with
  | .client => ⟨.outbound, P.roles⟩
  | .server => ⟨.inbound, P.roles⟩

/-- What handlers are told of a response, and of a request on its way back. -/
def onResponse (P : Processor World) : HandlerContext :=
  match P.side with
  | .client => ⟨.inbound, P.roles⟩
  | .server => ⟨.outbound, P.roles⟩

theorem requestContext_eq (P : Processor World) : P.requestContext = P.onRequest := by
  rw [requestContext, onRequest]
  cases P.side <;> rfl

theorem responseContext_eq (P : Processor World) : P.responseContext = P.onResponse := by
  rw [responseContext, onResponse]
  cases P.side <;> rfl

theorem faultInPlace_iff {P : Processor World} {fault : ProtocolFault} {p q : Packet} :
    FaultInPlace P.version fault p q ↔ q = P.insertFault p fault := by
  have hmessage : (P.insertFault p fault).message =
      some (.ofElement P.version (SoapFault.ofProtocol (fault.wordedIn P.version)).toElement) := by
    rw [insertFault]
    cases P.version <;> rfl
  constructor
  · rintro ⟨hq, hproperties⟩
    cases q
    exact congrArg₂ Packet.mk (hq.trans hmessage.symm) hproperties
  · rintro rfl
    exact ⟨hmessage, rfl⟩

/-! ### Handlers one after the other -/

/-- Handlers are called one after the other, and each of them answers true. -/
inductive Passes (isFault : Bool) (ctx : HandlerContext) :
    List (Numbered World) → Packet → World → Packet → World → Prop where
  | done {p w} : Passes isFault ctx [] p w p w
  | next {h hs p w p' w' p'' w''} (goes : h.1.onWay isFault ctx p w = (.ok true, p', w'))
      (rest : Passes isFault ctx hs p' w' p'' w'') : Passes isFault ctx (h :: hs) p w p'' w''

/-- Behind handlers that answer true there is one that does not. -/
structure Halts (isFault : Bool) (ctx : HandlerContext) (front : List (Numbered World))
    (h : Numbered World) (p : Packet) (w : World) (a : Except HandlerError Bool) (p' : Packet) (w' : World) : Prop where
  reached : ∃ q v, Passes isFault ctx front p w q v ∧ h.1.onWay isFault ctx q v = (a, p', w')
  halts : a ≠ .ok true

/-- Handlers are called in turn until one does not answer true. -/
inductive InTurn (isFault : Bool) (ctx : HandlerContext) (hs : List (Numbered World)) (p : Packet) (w : World) :
    Course World → Prop where
  | all {p' w'} (passes : Passes isFault ctx hs p w p' w') :
      InTurn isFault ctx hs p w ⟨.ok true, hs.map (event (.onWay isFault) ctx.direction), p', w'⟩
  | upTo {front h rest a p' w'} (chain : hs = front ++ h :: rest) (halt : Halts isFault ctx front h p w a p' w') :
      InTurn isFault ctx hs p w ⟨a, (front ++ [h]).map (event (.onWay isFault) ctx.direction), p', w'⟩

section Chain

variable {isFault : Bool} {ctx : HandlerContext} {hs front rest : List (Numbered World)} {h : Numbered World}
  {p p' : Packet} {w w' : World} {a : Except HandlerError Bool} {c : Course World}

/-- Either all handlers answer true, or there is a first one that does not. -/
theorem passes_or_halts (isFault : Bool) (ctx : HandlerContext) (hs : List (Numbered World)) (p : Packet) (w : World) :
    (∃ p' w', Passes isFault ctx hs p w p' w') ∨
      ∃ front h rest a p' w', hs = front ++ h :: rest ∧ Halts isFault ctx front h p w a p' w' := by
  induction hs generalizing p w with
  | nil => exact .inl ⟨p, w, .done⟩
  | cons h hs ih =>
    rcases hcall : h.1.onWay isFault ctx p w with ⟨a, p₁, w₁⟩
    by_cases ha : a = .ok true
    · subst ha
      rcases ih p₁ w₁ with ⟨p', w', hpasses⟩ | ⟨front, g, rest, a, p', w', rfl,
        ⟨q, v, hpasses, hlast⟩, hhalts⟩
      · exact .inl ⟨p', w', .next hcall hpasses⟩
      · exact .inr ⟨h :: front, g, rest, a, p', w', rfl, ⟨q, v, .next hcall hpasses, hlast⟩, hhalts⟩
    · exact .inr ⟨[], h, hs, a, p₁, w₁, rfl, ⟨p, w, .done, hcall⟩, ha⟩

theorem exists_inTurn (isFault : Bool) (ctx : HandlerContext) (hs : List (Numbered World)) (p : Packet) (w : World) :
    ∃ c, InTurn isFault ctx hs p w c := by
  rcases passes_or_halts isFault ctx hs p w with ⟨p', w', hpasses⟩ | ⟨front, h, rest, a, p', w', hchain, hhalt⟩
  · exact ⟨_, .all hpasses⟩
  · exact ⟨_, .upTo hchain hhalt⟩

theorem Passes.forward (hpasses : Passes false ctx front p w p' w') (position : Nat) (rest : List (Numbered World))
    (log : List Event) :
    forward ctx position ((front ++ rest).map recorded) p (w, log) =
      forward ctx (position + front.length) (rest.map recorded) p'
        (w', log ++ front.map (event .message ctx.direction)) := by
  induction hpasses generalizing position log with
  | done => rw [List.map_nil, List.append_nil]; rfl
  | @next h hs p w p₁ w₁ p' w' goes _ ih =>
    have hcall := recorded_onWay goes log
    rw [List.cons_append, List.map_cons, Processor.forward, show h.recorded.onMessage ctx p (w, log) = _ from hcall]
    simp only
    rw [ih, List.length_cons, List.map_cons, Nat.add_assoc, Nat.add_comm 1, List.append_assoc]
    rfl

theorem Passes.callEach (hpasses : Passes isFault ctx front p w p' w') (rest : List (Numbered World))
    (log : List Event) :
    callEach (Handler.onWay isFault) ctx ((front ++ rest).map recorded) p (w, log) =
      callEach (Handler.onWay isFault) ctx (rest.map recorded) p'
        (w', log ++ front.map (event (.onWay isFault) ctx.direction)) := by
  induction hpasses generalizing log with
  | done => rw [List.map_nil, List.append_nil]; rfl
  | @next h hs p w p₁ w₁ p' w' goes _ ih =>
    rw [List.cons_append, List.map_cons, Processor.callEach, recorded_onWay goes log]
    simp only
    rw [ih, List.map_cons, List.append_assoc]
    rfl

theorem Passes.backward {P : Processor (World × List Event)} (hpasses : Passes isFault P.onResponse front p w p' w')
    (rest : List (Numbered World)) (log : List Event) :
    P.backward isFault ((front ++ rest).map recorded) p (w, log) =
      P.backward isFault (rest.map recorded) p'
        (w', log ++ front.map (event (.onWay isFault) P.onResponse.direction)) := by
  induction hpasses generalizing log with
  | done => rw [List.map_nil, List.append_nil]; rfl
  | @next h hs p w p₁ w₁ p' w' goes _ ih =>
    have hcall := recorded_onWay goes log
    rw [List.cons_append, List.map_cons, Processor.backward, responseContext_eq,
      show (if isFault then h.recorded.onFault else h.recorded.onMessage) P.onResponse p (w, log) = _ from hcall]
    simp only
    rw [ih, List.map_cons, List.append_assoc]
    rfl

theorem InTurn.callEach (hturn : InTurn isFault ctx hs p w c) (log : List Event) :
    callEach (Handler.onWay isFault) ctx (hs.map recorded) p (w, log) =
      (c.answer, c.packet, c.world, log ++ c.events) := by
  cases hturn with
  | all passes =>
    have hall := passes.callEach [] log
    rwa [List.append_nil] at hall
  | @upTo front h rest a p' w' chain halt =>
    obtain ⟨q, v, hpasses, hlast⟩ := halt.reached
    have hfront := hpasses.callEach (h :: rest) log
    rw [chain, hfront, List.map_cons, Processor.callEach, recorded_onWay hlast, List.append_assoc, List.map_append]
    cases a with
    | error e => rfl
    | ok goes =>
      cases goes with
      | true => exact absurd rfl halt.halts
      | false => rfl

theorem InTurn.turned (hturn : InTurn isFault ctx hs p w c) (events log : List Event) :
    turned (Processor.callEach (Handler.onWay isFault) ctx (hs.map recorded) p (w, log ++ events)) =
      ((c.behind events).answer, (c.behind events).packet, (c.behind events).world,
        log ++ (c.behind events).events) := by
  rw [hturn.callEach, List.append_assoc]
  cases hanswer : c.answer <;> simp only [Processor.turned, Course.behind, hanswer, Except.map]

theorem Halts.forward (halt : Halts false ctx front h p w a p' w') (rest : List (Numbered World)) (log : List Event) :
    Processor.forward ctx 0 ((front ++ h :: rest).map recorded) p (w, log) =
      ((match a with | .ok _ => .stopped front.length | .error e => .raised front.length e), p', w',
        log ++ (front ++ [h]).map (event .message ctx.direction)) := by
  obtain ⟨q, v, hpasses, hlast⟩ := halt.reached
  have hfront := hpasses.forward 0 (h :: rest) log
  have hcall := recorded_onWay hlast (log ++ front.map (event .message ctx.direction))
  rw [hfront, List.map_cons, Processor.forward, show h.recorded.onMessage ctx q (v, _) = _ from hcall,
    List.append_assoc, List.map_append, Nat.zero_add]
  cases a with
  | error e => rfl
  | ok goes =>
    cases goes with
    | true => exact absurd rfl halt.halts
    | false => rfl

theorem Halts.backward_eq {Q : Processor (World × List Event)} (halt : Halts isFault Q.onResponse front h p w a p' w')
    (hfinal : isFault = true ∨ ∀ fault, a ≠ .error (.protocol fault)) (rest : List (Numbered World))
    (log : List Event) :
    Q.backward isFault ((front ++ h :: rest).map recorded) p (w, log) =
      (a, p', w', log ++ (front ++ [h]).map (event (.onWay isFault) Q.onResponse.direction)) := by
  obtain ⟨q, v, hpasses, hlast⟩ := halt.reached
  have hcall : (if isFault then h.recorded.onFault else h.recorded.onMessage) Q.onResponse q _ = _ :=
    recorded_onWay hlast (log ++ front.map (event (.onWay isFault) Q.onResponse.direction))
  rw [hpasses.backward, List.map_cons, Processor.backward, responseContext_eq, hcall, List.append_assoc,
    List.map_append]
  cases a with
  | ok goes =>
    cases goes with
    | true => exact absurd rfl halt.halts
    | false => rfl
  | error e =>
    cases e with
    | protocol fault =>
      rcases hfinal with rfl | hfault
      · rfl
      · exact absurd rfl (hfault fault)
    | webService _ | failed _ | runtime _ => rfl

theorem Halts.backward_refused {Q : Processor (World × List Event)} {fault : ProtocolFault}
    (halt : Halts false Q.onResponse front h p w (.error (.protocol fault)) p' w') (rest : List (Numbered World))
    (log : List Event) :
    Q.backward false ((front ++ h :: rest).map recorded) p (w, log) =
      turned (Processor.callEach Handler.onFault Q.onResponse (rest.map recorded) (Q.insertFault p' fault)
        (w', log ++ (front ++ [h]).map (event .message Q.onResponse.direction))) := by
  obtain ⟨q, v, hpasses, hlast⟩ := halt.reached
  have hcall : (if false then h.recorded.onFault else h.recorded.onMessage) Q.onResponse q _ = _ :=
    recorded_onWay hlast (log ++ front.map (event (.onWay false) Q.onResponse.direction))
  rw [hpasses.backward, List.map_cons, Processor.backward, responseContext_eq, hcall, List.append_assoc,
    List.map_append]
  rfl

end Chain

/-! ### Requests and responses -/

/-- The handlers with their positions. -/
def numbered (P : Processor World) : List (Numbered World) := P.handlers.zipIdx

/-- The processor with handlers that write down what they are called for. -/
def recorded (P : Processor World) : Processor (World × List Event) :=
  ⟨recordAll P.handlers, P.roles, P.side, P.version, P.index, P.remedied, P.closed⟩

/-- The course of a request, with the handlers that see it. -/
inductive Request (P : Processor World) (oneWay : Bool) (p : Packet) (w : World) :
    List (Numbered World) → Course World → Prop where
  | through {p' w'} (passes : Passes false P.onRequest P.numbered p w p' w') :
      Request P oneWay p w P.numbered ⟨.ok true, P.numbered.map (event .message P.onRequest.direction), p', w'⟩
  /-- No answer is expected, or the error is no fault. -/
  | ended {front h rest a p' w'} (chain : P.numbered = front ++ h :: rest)
      (halt : Halts false P.onRequest front h p w a p' w')
      (final : oneWay = true ∨ ∃ e, a = .error e ∧ ∀ fault, e ≠ .protocol fault) :
      Request P oneWay p w (front ++ [h]) ⟨a, (front ++ [h]).map (event .message P.onRequest.direction), p', w'⟩
  | stopped {front h rest p' w' c} (twoWay : oneWay = false) (chain : P.numbered = front ++ h :: rest)
      (halt : Halts false P.onRequest front h p w (.ok false) p' w')
      (back : InTurn false P.onResponse front.reverse p' w' c) :
      Request P oneWay p w (front ++ [h]) (c.behind ((front ++ [h]).map (event .message P.onRequest.direction)))
  | refused {front h rest fault p' w' q c} (twoWay : oneWay = false) (chain : P.numbered = front ++ h :: rest)
      (halt : Halts false P.onRequest front h p w (.error (.protocol fault)) p' w')
      (inPlace : FaultInPlace P.version fault p' q) (back : InTurn true P.onResponse front.reverse q w' c) :
      Request P oneWay p w (front ++ [h]) (c.behind ((front ++ [h]).map (event .message P.onRequest.direction)))

/-- The course of a response past handlers, the last one of the chain first. -/
inductive Response (P : Processor World) (isFault : Bool) (hs : List (Numbered World)) (p : Packet) (w : World) :
    Course World → Prop where
  | through {p' w'} (passes : Passes isFault P.onResponse hs p w p' w') :
      Response P isFault hs p w ⟨.ok true, hs.map (event (.onWay isFault) P.onResponse.direction), p', w'⟩
  /-- The way back ends with a handler that stops it or fails, or that faults a fault. -/
  | ended {front h rest a p' w'} (chain : hs = front ++ h :: rest)
      (halt : Halts isFault P.onResponse front h p w a p' w')
      (final : isFault = true ∨ ∀ fault, a ≠ .error (.protocol fault)) :
      Response P isFault hs p w ⟨a, (front ++ [h]).map (event (.onWay isFault) P.onResponse.direction), p', w'⟩
  | refused {front h rest fault p' w' q c} (message : isFault = false) (chain : hs = front ++ h :: rest)
      (halt : Halts false P.onResponse front h p w (.error (.protocol fault)) p' w')
      (inPlace : FaultInPlace P.version fault p' q) (back : InTurn true P.onResponse rest q w' c) :
      Response P isFault hs p w (c.behind ((front ++ [h]).map (event .message P.onResponse.direction)))

section Courses

variable {P : Processor World} {oneWay isFault : Bool} {p : Packet} {w : World}
  {hs seen : List (Numbered World)} {c : Course World}

theorem exists_request (P : Processor World) (oneWay : Bool) (p : Packet) (w : World) :
    ∃ seen c, P.Request oneWay p w seen c := by
  rcases passes_or_halts false P.onRequest P.numbered p w with
    ⟨p', w', hpasses⟩ | ⟨front, h, rest, a, p', w', hchain, hhalt⟩
  · exact ⟨_, _, .through hpasses⟩
  · cases oneWay with
    | true => exact ⟨_, _, .ended hchain hhalt (.inl rfl)⟩
    | false =>
      match a, hhalt with
      | .ok true, hhalt => exact absurd rfl hhalt.halts
      | .ok false, hhalt =>
        obtain ⟨c, hback⟩ := exists_inTurn false P.onResponse front.reverse p' w'
        exact ⟨_, _, .stopped rfl hchain hhalt hback⟩
      | .error (.protocol fault), hhalt =>
        obtain ⟨c, hback⟩ := exists_inTurn true P.onResponse front.reverse (P.insertFault p' fault) w'
        exact ⟨_, _, .refused rfl hchain hhalt (faultInPlace_iff.mpr rfl) hback⟩
      | .error (.webService _), hhalt | .error (.failed _), hhalt | .error (.runtime _), hhalt =>
        exact ⟨_, _, .ended hchain hhalt (.inr ⟨_, rfl, nofun⟩)⟩

theorem Request.seen_prefix (h : P.Request oneWay p w seen c) : seen <+: P.numbered := by
  cases h with
  | through => exact List.prefix_rfl
  | @ended front h rest _ _ _ chain | @stopped front h rest _ _ _ _ chain | @refused front h rest _ _ _ _ _ _ chain =>
    exact ⟨rest, by rw [chain, List.append_assoc]; rfl⟩

/-- The processor behind a request that so many handlers saw, and that was answered so. -/
def asked (P : Processor World) (seen : Nat) (a : Except HandlerError Bool) : Processor World :=
  { P with
    index := if seen = 0 then none else some (seen - 1)
    remedied := match a with | .ok true => false | _ => true
    closed := false }

theorem asked_behind {V : Type} (P : Processor V) (seen : Nat) (events : List Event) (c : Course World) :
    P.asked seen (c.behind events).answer = P.asked seen (.ok false) := by
  cases hanswer : c.answer <;> simp only [asked, Course.behind, hanswer, Except.map]

theorem requestContext_reset {V : Type} (P : Processor V) :
    ({ P with index := none, remedied := false, closed := false } : Processor V).requestContext = P.onRequest :=
  P.requestContext_eq

theorem callRequest_through {p' : Packet} {w' : World} (oneWay : Bool)
    (h : forward P.onRequest 0 P.handlers p w = (.through, p', w')) :
    P.callRequest p oneWay w = (.ok true, P.asked P.handlers.length (.ok true), p', w') := by
  unfold callRequest
  simp only [requestContext_reset, h, asked, List.isEmpty_iff, List.length_eq_zero_iff]

theorem callRequest_stopped {i : Nat} {p' : Packet} {w' : World} (oneWay : Bool)
    (h : forward P.onRequest 0 P.handlers p w = (.stopped i, p', w')) :
    P.callRequest p oneWay w =
      if oneWay then (.ok false, P.asked (i + 1) (.ok false), p', w')
      else
        let (a, p, w) := turned (callEach Handler.onMessage P.onResponse (P.before i) p' w')
        (a, P.asked (i + 1) (.ok false), p, w) := by
  unfold callRequest
  simp only [requestContext_reset, h, ← responseContext_eq]
  rfl

theorem callRequest_raised {i : Nat} {e : HandlerError} {p' : Packet} {w' : World} (oneWay : Bool)
    (h : forward P.onRequest 0 P.handlers p w = (.raised i e, p', w'))
    (hfinal : oneWay = true ∨ ∀ fault, e ≠ .protocol fault) :
    P.callRequest p oneWay w = (.error e, P.asked (i + 1) (.error e), p', w') := by
  unfold callRequest
  simp only [requestContext_reset, h]
  cases e with
  | protocol fault =>
    rcases hfinal with rfl | hfault
    · rfl
    · exact absurd rfl (hfault fault)
  | webService _ | failed _ | runtime _ => rfl

theorem callRequest_refused {i : Nat} {fault : ProtocolFault} {p' : Packet} {w' : World}
    (h : forward P.onRequest 0 P.handlers p w = (.raised i (.protocol fault), p', w')) :
    P.callRequest p false w =
      let (a, p, w) :=
        turned (callEach Handler.onFault P.onResponse (P.before i) (P.insertFault p' fault) w')
      (a, P.asked (i + 1) (.ok false), p, w) := by
  unfold callRequest
  simp only [requestContext_reset, h, ← responseContext_eq]
  rfl

theorem before_front {front rest : List (Numbered World)} {h : Numbered World}
    (hchain : P.numbered = front ++ h :: rest) :
    P.recorded.before front.length = front.reverse.map Numbered.recorded := by
  have hhandlers : P.recorded.handlers = (front ++ h :: rest).map Numbered.recorded := by
    rw [← hchain]
    rfl
  rw [before_recorded hhandlers, List.take_left]

theorem callRequest_of_request (h : P.Request oneWay p w seen c) (log : List Event) :
    P.recorded.callRequest p oneWay (w, log) =
      (c.answer, P.recorded.asked seen.length c.answer, c.packet, c.world, log ++ c.events) := by
  cases h with
  | @through p' w' passes =>
    have hforward := passes.forward 0 [] log
    rw [List.append_nil, Nat.zero_add] at hforward
    rw [callRequest_through oneWay hforward]
    simp [recorded, numbered, recordAll]
  | @ended front h rest a p' w' chain halt final =>
    have hforward := halt.forward rest log
    rw [← chain] at hforward
    rw [show (front ++ [h]).length = front.length + 1 from List.length_append]
    cases a with
    | ok goes =>
      cases goes with
      | true => exact absurd rfl halt.halts
      | false =>
        rcases final with honeWay | ⟨e, ⟨⟩, -⟩
        rw [callRequest_stopped oneWay hforward, if_pos honeWay]
    | error e =>
      refine callRequest_raised oneWay hforward (final.imp_right ?_)
      rintro ⟨_, ⟨⟩, hfault⟩
      exact hfault
  | @stopped front h rest p' w' c twoWay chain halt back =>
    have hforward := halt.forward rest log
    rw [← chain] at hforward
    have hturned : turned (callEach Handler.onMessage P.recorded.onResponse (front.reverse.map Numbered.recorded) p'
      (w', log ++ (front ++ [h]).map (event .message P.onRequest.direction))) = _ := back.turned _ log
    rw [callRequest_stopped oneWay hforward, twoWay, before_front chain, asked_behind,
      if_neg Bool.false_ne_true, hturned, List.length_append]
    rfl
  | @refused front h rest fault p' w' q c twoWay chain halt inPlace back =>
    obtain rfl := faultInPlace_iff.mp inPlace
    have hforward := halt.forward rest log
    rw [← chain] at hforward
    have hturned : turned (callEach Handler.onFault P.recorded.onResponse (front.reverse.map Numbered.recorded)
      (P.recorded.insertFault p' fault)
      (w', log ++ (front ++ [h]).map (event .message P.onRequest.direction))) = _ := back.turned _ log
    rw [twoWay, callRequest_refused hforward, before_front chain, asked_behind, hturned, List.length_append]
    rfl

theorem saw_asked (hseen : seen <+: P.numbered) (a : Except HandlerError Bool) :
    (P.recorded.asked seen.length a).Saw P.side seen := by
  refine ⟨rfl, ?_, rfl⟩
  have hhandlers : (P.recorded.asked seen.length a).handlers = P.numbered.map Numbered.recorded := rfl
  cases hlength : seen.length with
  | zero =>
    rw [List.length_eq_zero_iff.mp hlength]
    rfl
  | succ n =>
    rw [hlength] at hhandlers
    have hindex : (P.recorded.asked (n + 1) a).index = some n := rfl
    rw [reached_at hhandlers hindex, ← hlength, ← List.prefix_iff_eq_take.mp hseen]

theorem exists_response (P : Processor World) (isFault : Bool) (hs : List (Numbered World)) (p : Packet) (w : World) :
    ∃ c, P.Response isFault hs p w c := by
  rcases passes_or_halts isFault P.onResponse hs p w with
    ⟨p', w', hpasses⟩ | ⟨front, h, rest, a, p', w', hchain, hhalt⟩
  · exact ⟨_, .through hpasses⟩
  · cases isFault with
    | true => exact ⟨_, .ended hchain hhalt (.inl rfl)⟩
    | false =>
      match a, hhalt with
      | .error (.protocol fault), hhalt =>
        obtain ⟨c, hback⟩ := exists_inTurn true P.onResponse rest (P.insertFault p' fault) w'
        exact ⟨_, .refused rfl hchain hhalt (faultInPlace_iff.mpr rfl) hback⟩
      | .ok _, hhalt | .error (.webService _), hhalt | .error (.failed _), hhalt | .error (.runtime _), hhalt =>
        exact ⟨_, .ended hchain hhalt (.inr nofun)⟩

theorem backward_of_response {Q : Processor (World × List Event)} (hcontext : Q.onResponse = P.onResponse)
    (hinsert : Q.insertFault = P.insertFault) (h : P.Response isFault hs p w c) (log : List Event) :
    Q.backward isFault (hs.map Numbered.recorded) p (w, log) = (c.answer, c.packet, c.world, log ++ c.events) := by
  cases h with
  | @through p' w' passes =>
    rw [← hcontext] at passes ⊢
    have hall := passes.backward [] log
    rwa [List.append_nil] at hall
  | @ended front h rest a p' w' chain halt final =>
    rw [← hcontext] at halt ⊢
    rw [chain]
    exact halt.backward_eq final rest log
  | @refused front h rest fault p' w' q c message chain halt inPlace back =>
    obtain rfl := faultInPlace_iff.mp inPlace
    rw [← hcontext] at halt back ⊢
    rw [← hinsert] at back
    subst message
    rw [chain, halt.backward_refused]
    exact back.turned _ log

theorem Request.unique {seen' : List (Numbered World)} {c' : Course World} (h : P.Request oneWay p w seen c)
    (h' : P.Request oneWay p w seen' c') : seen' = seen ∧ c' = c := by
  have hsame := (callRequest_of_request h' []).symm.trans (callRequest_of_request h [])
  obtain ⟨hanswer, hasked, hpacket, hworld, hevents⟩ := by simpa only [Prod.mk.injEq] using hsame
  constructor
  · have hindex : (if seen'.length = 0 then none else some (seen'.length - 1)) =
        if seen.length = 0 then none else some (seen.length - 1) := congrArg Processor.index hasked
    have hlength : seen'.length = seen.length := by
      split_ifs at hindex with hnil' hnil hnil
      · rw [hnil', hnil]
      · have := Option.some.inj hindex
        omega
    rw [List.prefix_iff_eq_take.mp h'.seen_prefix, List.prefix_iff_eq_take.mp h.seen_prefix, hlength]
  · exact Course.ext hanswer hevents hpacket hworld

theorem Response.unique {c' : Course World} (h : P.Response isFault hs p w c) (h' : P.Response isFault hs p w c') :
    c' = c := by
  have hsame := (backward_of_response (Q := P.recorded) rfl rfl h' []).symm.trans (backward_of_response rfl rfl h [])
  obtain ⟨hanswer, hpacket, hworld, hevents⟩ := by simpa only [Prod.mk.injEq] using hsame
  exact Course.ext hanswer hevents hpacket hworld

theorem Request.of_ok (h : P.Request oneWay p w seen c) (hok : c.answer = .ok true) :
    seen = P.numbered ∧ ∃ p' w', Passes false P.onRequest P.numbered p w p' w' := by
  cases h with
  | through passes => exact ⟨rfl, _, _, passes⟩
  | ended _ halt => exact absurd hok halt.halts
  | @stopped _ _ _ _ _ c | @refused _ _ _ _ _ _ _ c =>
    cases hanswer : c.answer <;> rw [Course.behind, hanswer] at hok <;> cases hok

theorem Request.ok_iff (h : P.Request oneWay p w seen c) :
    c.answer = .ok true ↔ ∃ p' w', Passes false P.onRequest P.numbered p w p' w' := by
  constructor
  · exact fun hok => (h.of_ok hok).2
  · rintro ⟨p', w', hpasses⟩
    rw [← (h.unique (.through hpasses)).2]

theorem callResponse_asked (h : P.Request oneWay p w seen c) {isFault : Bool} {p₁ : Packet}
    {w₁ : World} {d : Course World} (hd : P.Response isFault P.numbered.reverse p₁ w₁ d) (log : List Event) :
    (P.recorded.asked seen.length c.answer).callResponse p₁ isFault (w₁, log) =
      match c.answer with
      | .ok true => (d.answer, d.packet, d.world, log ++ d.events)
      | _ => (.ok true, p₁, w₁, log) := by
  have hsaw := saw_asked h.seen_prefix c.answer
  match hanswer : c.answer with
  | .ok true =>
    rw [hanswer] at hsaw
    show Processor.backward _ isFault (Processor.reached _) p₁ (w₁, log) = _
    rw [hsaw.reached_eq, (h.of_ok hanswer).1, ← List.map_reverse]
    exact backward_of_response rfl rfl hd log
  | .ok false | .error _ => rfl

/-- Handlers are called in the order of their chain, and in reverse order on the way back. -/
theorem calls_in_order (P : Processor World) (p : Packet) (oneWay : Bool) (w : World) (log : List Event) :
    ∃ seen c Q, (∀ seen' c', P.Request oneWay p w seen' c' ↔ seen' = seen ∧ c' = c) ∧
      (c.answer = .ok true ↔ ∃ p' w', Passes false P.onRequest P.numbered p w p' w') ∧
      P.recorded.callRequest p oneWay (w, log) = (c.answer, Q, c.packet, c.world, log ++ c.events) ∧
      (∀ p isFault w log, ∃ d, (∀ d', P.Response isFault P.numbered.reverse p w d' ↔ d' = d) ∧
        Q.callResponse p isFault (w, log) =
          match c.answer with
          | .ok true => (d.answer, d.packet, d.world, log ++ d.events)
          | _ => (.ok true, p, w, log)) ∧
      ∀ p w log, ∃ Q' p' w',
        Q.close p (w, log) = (Q', p', w', log ++ seen.reverse.map (event .close P.onResponse.direction)) ∧
          ∀ p w, Q'.close p w = (Q', p, w) := by
  obtain ⟨seen, c, hrequest⟩ := exists_request P oneWay p w
  refine ⟨seen, c, P.recorded.asked seen.length c.answer, ?_, hrequest.ok_iff,
    callRequest_of_request hrequest log, ?_, ?_⟩
  · intro seen' c'
    constructor
    · exact hrequest.unique
    · rintro ⟨rfl, rfl⟩
      exact hrequest
  · intro p₁ isFault w₁ log₁
    obtain ⟨d, hresponse⟩ := exists_response P isFault P.numbered.reverse p₁ w₁
    refine ⟨d, fun d' => ⟨hresponse.unique, ?_⟩, callResponse_asked hrequest hresponse log₁⟩
    rintro rfl
    exact hresponse
  · intro p₁ w₁ log₁
    have hclosed := closed_close (P.recorded.asked seen.length c.answer) p₁ (w₁, log₁)
    have hrecord := record_close (saw_asked hrequest.seen_prefix c.answer) p₁ (w₁, log₁)
    rcases hclose : (P.recorded.asked seen.length c.answer).close p₁ (w₁, log₁) with ⟨Q', p', w', log'⟩
    rw [hclose] at hclosed hrecord
    refine ⟨Q', p', w', ?_, close_of_closed hclosed⟩
    rw [show log' = _ from hrecord, ← responseContext_eq]
    rfl

end Courses

end Processor

end SoapNode
