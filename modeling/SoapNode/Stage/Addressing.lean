import SoapNode.Stage.Site

/-!
# The addressing stage

A client puts message information headers into requests. A server takes the action and the message id
over from a request and relates its answers to them; it may refuse requests that name no action.
-/

namespace SoapNode

namespace Addressing

variable {World : Type}

def uri : String := "http://www.w3.org/2005/08/addressing"

def anonymous : String := uri ++ "/anonymous"

def faultAction : String := uri ++ "/fault"

def name (localPart : String) : QName := ⟨uri, localPart⟩

def named (localPart : String) : Element := (Element.named (name localPart)).withPrefix "wsa"

def header (localPart value : String) : Header := ⟨(named localPart).pushText value⟩

def understood : List QName :=
  ["To", "From", "Action", "MessageID", "ReplyTo", "FaultTo", "RelatesTo"].map name

def headerText (p : Packet) (localPart : String) : Option String :=
  p.message.bind (fun m => (m.headers.find? (name localPart)).map (fun h => Text.trim h.text))

def replaceHeader (m : Message) (h : Header) : Message := { m with headers := m.headers.addOrReplace h }

def replaceText (m : Message) (localPart : String) : Option String → Message
  | some value => replaceHeader m (header localPart value)
  | none => m

def replyTo : Header := ⟨(named "ReplyTo").push ((named "Address").pushText anonymous)⟩

def clientRequest (w : Wiring) (p : Packet) (s : SiteStore World) : NextAction × SiteStore World :=
  let (id, site) := s.world.nextId
  let s := { s with world := site }
  match p.message with
  | none => (w.invokeNext p, s)
  | some m =>
    let m := replaceText m "To" p.endpointAddress
    let m := replaceText m "Action" p.soapAction
    let m := replaceText m "MessageID" (some id)
    let m := if p.isOneWay then m else replaceHeader m replyTo
    (w.invokeNext ((p.setMessage (some m)).setMessageId (some id)), s)

def actionMissing (v : SoapVersion) : ProtocolFault :=
  (ProtocolFault.client v "Required WS-Addressing header missing: wsa:Action").withSubcode
    (name "MessageAddressingHeaderRequired")

def serverRequest (v : SoapVersion) (required : Bool) (w : Wiring) (p : Packet) : NextAction :=
  if p.message.isNone then w.invokeNext p
  else
    let action := headerText p "Action"
    if required && action.isNone then .ret (p.respondFault (some v) (actionMissing v))
    else
      let p := if action.isSome then p.setSoapAction action else p
      let id := headerText p "MessageID"
      w.invokeNext (if id.isSome then p.setMessageId id else p)

def relate (p : Packet) : Packet :=
  match p.message with
  | none => p
  | some m =>
    let (isFault, m) := m.isFault
    let action := if isFault then some faultAction else p.soapAction.map (· ++ "Response")
    p.setMessage (some (replaceText (replaceText m "Action" action) "RelatesTo" p.messageId))

def stage (side : Side) (v : SoapVersion) (required : Bool) : SiteStage World :=
  match side with
  | .client => { Stage.passing "addressing" with request := clientRequest }
  | .server =>
    { Stage.passing "addressing" with
      request := fun w p s => (serverRequest v required w p, s)
      response := fun _ p s => (.ret (relate p), s) }

end Addressing

end SoapNode
