import SoapNode.Stage.Site

/-!
# The must-understand stage

A block that is meant for this node and demands to be understood stops the message unless some stage
or SOAP handler processes it. A server answers with a fault, in SOAP 1.2 with a block for each name; a
client raises one, except where the response is a fault itself. Blocks that are processed get marked.
-/

namespace SoapNode

namespace MustUnderstand

variable {World : Type}

def isProcessed (understood : List QName) (l : HeaderList) (position : Nat) (h : Header) : Bool :=
  l.isUnderstood position || understood.contains h.name

def targeted (v : SoapVersion) (roles : List String) (l : HeaderList) : List (Header × Nat) :=
  l.blocks.zipIdx.filter (fun (h, _) => h.isTargetedAt v roles)

/-- The names of the targeted blocks that nobody processes although they demand it. -/
def missing (v : SoapVersion) (roles : List String) (understood : List QName) (l : HeaderList) : List QName :=
  ((targeted v roles l).filter (fun (h, i) => !isProcessed understood l i h && h.mustUnderstand v)).map (·.1.name)

def markProcessed (v : SoapVersion) (roles : List String) (understood : List QName) (l : HeaderList) : HeaderList :=
  ((targeted v roles l).filter (fun (h, i) => isProcessed understood l i h)).foldl (fun l (_, i) => l.mark i) l

def check (v : SoapVersion) (understood : List QName) (binding : Binding World) (m : Message) : List QName × Message :=
  let config := binding.handlerConfig
  let names := understood ++ config.understood
  (missing v config.roles names m.headers, { m with headers := markProcessed v config.roles names m.headers })

def fault (v : SoapVersion) (names : List QName) : ProtocolFault :=
  .mustUnderstand v ("MustUnderstand headers:[" ++ ", ".intercalate (names.map QName.display) ++ "] are not understood")

def notUnderstoodBlock (v : SoapVersion) (name : QName) : Header :=
  let block := (Element.named (v.name "NotUnderstood")).withPrefix "env"
  ⟨if name.namespaceUri.isEmpty then block.setAttribute (.unqualified "qname") name.localPart
    else (block.declare "nu" name.namespaceUri).setAttribute (.unqualified "qname") ("nu:" ++ name.localPart)⟩

def faultMessage (v : SoapVersion) (names : List QName) : Message :=
  let m := Message.ofFault (fault v names)
  match v with
  | .v11 => m
  | .v12 => names.foldl (fun m name => m.addHeader (notUnderstoodBlock v name)) m

def request (side : Side) (understood : List QName) (w : Wiring) (p : Packet) (s : SiteStore World) :
    NextAction × SiteStore World :=
  match side, s.world.binding.version? with
  | .server, some v =>
    match p.onMessage [] (check v understood s.world.binding) with
    | ([], p) => (w.invokeNext p, s)
    | (names, p) => (.ret (p.respond (some (faultMessage v names))), s)
  | _, _ => (w.invokeNext p, s)

def response (side : Side) (understood : List QName) (p : Packet) (s : SiteStore World) :
    NextAction × SiteStore World :=
  match side, s.world.binding.version? with
  | .client, some v =>
    let (isFault, p) := p.isFault
    if isFault then (.ret p, s)
    else match p.onMessage [] (check v understood s.world.binding) with
      | ([], p) => (.ret p, s)
      | (names, _) => (.throw (.protocol (fault v names)), s)
  | _, _ => (.ret p, s)

def stage (side : Side) (understood : List QName) : SiteStage World :=
  { Stage.passing "must-understand" with
    request := request side understood
    response := fun _ => response side understood }

end MustUnderstand

end SoapNode
