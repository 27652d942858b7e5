import SoapNode.Stage.Addressing
import SoapNode.Stage.Dump
import SoapNode.Stage.Handlers
import SoapNode.Stage.Invoker
import SoapNode.Stage.MustUnderstand
import SoapNode.Stage.Security
import SoapNode.Stage.Transport

/-!
# Assembling chains

A chain is a list of layers in front of a last stage. Which layers a client and a server have is a
matter of the binding and the settings; without envelopes there are only handlers and dumps. Chains
are built from the last stage towards the head.
-/

namespace SoapNode

structure AssemblySettings where
  dump : Bool := false
  /-- The size in bytes of the largest request that a server accepts. -/
  maxBodySize : Nat := 1048576
  requireAddressing : Bool := false
  security : SecuritySettings := {}
  deriving DecidableEq, Repr, Inhabited

/-- One stage, or the stages of the binding's handlers. -/
inductive Layer (World : Type) where
  | stage (s : SiteStage World)
  | handlers (side : Side)

namespace Layer

variable {World : Type}

def putHandlers (kind : BindingKind) (side : Side) (next : TubeId) (p : SitePlant World) : TubeId × SitePlant World :=
  let (cell, store) := p.store.newCell .fresh
  let p := { p with store }
  match kind with
  | .xmlHttp => p.add ⟨HandlerStage.stage ⟨.logical, side, false⟩, [next], [cell]⟩
  | _ =>
    let outer := HandlerStage.outerKind side
    let (inner, p) := p.add ⟨HandlerStage.stage ⟨HandlerStage.cousin outer, side, true⟩, [next], [cell]⟩
    p.add ⟨HandlerStage.stage ⟨outer, side, true⟩, [inner], [cell]⟩

def put (kind : BindingKind) (l : Layer World) (next : TubeId) (p : SitePlant World) : TubeId × SitePlant World :=
  match l with
  | .stage s => p.add ⟨s, [next], []⟩
  | .handlers side => putHandlers kind side next p

/-- Builds the layers, the outermost first, in front of a last stage. -/
def build (kind : BindingKind) (layers : List (Layer World)) (last : SiteStage World) (p : SitePlant World) :
    TubeId × SitePlant World :=
  layers.foldr (fun l (next, p) => l.put kind next p) (p.add ⟨last, [], []⟩)

end Layer

namespace Assembly

variable {World : Type}

/-- The header blocks that the enabled stages process. -/
def stageHeaders (b : Binding World) (c : AssemblySettings) : List QName :=
  (if b.hasAddressing then Addressing.understood else []) ++ (if c.security.enabled then [Wss.headerName] else [])

def dumpLayer (side : Side) (c : AssemblySettings) : List (Layer World) :=
  if c.dump then [.stage (Dump.stage side)] else []

def securityLayer (side : Side) (v : SoapVersion) (c : AssemblySettings) : List (Layer World) :=
  if c.security.enabled then [.stage (Security.stage side (some v) c.security)] else []

def addressingLayer (side : Side) (v : SoapVersion) (required : Bool) (b : Binding World) : List (Layer World) :=
  if b.hasAddressing then [.stage (Addressing.stage side v required)] else []

def mustUnderstandLayer (side : Side) (b : Binding World) (c : AssemblySettings) : Layer World :=
  .stage (MustUnderstand.stage side (stageHeaders b c))

def clientLayers (b : Binding World) (c : AssemblySettings) : List (Layer World) :=
  match b.version? with
  | none => .handlers .client :: dumpLayer .client c
  | some v =>
    .handlers .client :: mustUnderstandLayer .client b c :: addressingLayer .client v false b ++
      dumpLayer .client c ++ securityLayer .client v c

def serverLayers (b : Binding World) (c : AssemblySettings) : List (Layer World) :=
  match b.version? with
  | none => dumpLayer .server c ++ [.handlers .server]
  | some v =>
    dumpLayer .server c ++ securityLayer .server v c ++ addressingLayer .server v c.requireAddressing b ++
      [mustUnderstandLayer .server b c, .handlers .server]

def clientChain (b : Binding World) (c : AssemblySettings) (t : Transport World) (p : SitePlant World) :
    TubeId × SitePlant World :=
  Layer.build b.kind (clientLayers b c) (Transport.stage b.kind t) p

def serverChain (b : Binding World) (c : AssemblySettings) (endpoint : Endpoint World) (p : SitePlant World) :
    TubeId × SitePlant World :=
  Layer.build b.kind (serverLayers b c) (Invoker.stage endpoint) p

end Assembly

end SoapNode
