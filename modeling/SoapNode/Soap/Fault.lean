import SoapNode.Soap.Version
import SoapNode.Xml.Element

/-!
# Faults

`ProtocolFault` is the fault as the node reasons about it, whatever its version. `Fault11` and
`Fault12` are the two shapes on the wire. The subcodes of SOAP 1.2 nest; here they are a list, the
outermost first. SOAP 1.1 has neither subcodes nor a node.
-/

namespace SoapNode

structure ProtocolFault where
  version : SoapVersion
  code : QName
  subcodes : List QName
  reason : String
  actor : Option String
  node : Option String
  detail : Option (List Element)
  deriving DecidableEq, Repr

namespace ProtocolFault

def new (version : SoapVersion) (code : QName) (reason : String) : ProtocolFault :=
  ⟨version, code, [], reason, none, none, none⟩

def client (v : SoapVersion) (reason : String) : ProtocolFault := new v v.clientCode reason

def server (v : SoapVersion) (reason : String) : ProtocolFault := new v v.serverCode reason

def mustUnderstand (v : SoapVersion) (reason : String) : ProtocolFault := new v v.mustUnderstandCode reason

def versionMismatch (v : SoapVersion) : ProtocolFault :=
  new v v.versionMismatchCode "Invalid SOAP envelope namespace"

def withSubcode (f : ProtocolFault) (q : QName) : ProtocolFault := { f with subcodes := f.subcodes ++ [q] }

def withDetail (f : ProtocolFault) (e : Element) : ProtocolFault := { f with detail := some (f.detail.getD [] ++ [e]) }

/-- The same fault told in another version. -/
def forVersion (f : ProtocolFault) (v : SoapVersion) : ProtocolFault :=
  { f with version := v, code := v.mapCode f.code }

def message (f : ProtocolFault) : String := "SOAP fault " ++ f.code.display ++ ": " ++ f.reason

/-- The fault with the spelling of its detail erased. -/
def erase (f : ProtocolFault) : ProtocolFault := { f with detail := f.detail.map (·.map Element.erase) }

end ProtocolFault

inductive FaultError where
  | missing (element : String)
  | unboundPrefix (code : String)
  | notAFault (name : QName)
  deriving DecidableEq, Repr

def FaultError.message : FaultError → String
  | .missing element => s!"Fault is missing required element '{element}'"
  | .unboundPrefix code => s!"Fault code '{code}' uses an unbound prefix"
  | .notAFault name => "Element " ++ name.display ++ " is not a SOAP fault"

structure Fault11 where
  code : QName
  string : String
  actor : Option String
  detail : Option (List Element)
  deriving DecidableEq, Repr

structure ReasonText where
  lang : String
  text : String
  deriving DecidableEq, Repr

structure Fault12 where
  code : QName
  subcodes : List QName
  reason : List ReasonText
  node : Option String
  role : Option String
  detail : Option (List Element)
  deriving DecidableEq, Repr

inductive SoapFault where
  | v11 (fault : Fault11)
  | v12 (fault : Fault12)
  deriving DecidableEq, Repr

namespace Fault11

def ofProtocol (f : ProtocolFault) : Fault11 := ⟨SoapVersion.v11.mapCode f.code, f.reason, f.actor, f.detail⟩

def toProtocol (f : Fault11) : ProtocolFault := ⟨.v11, f.code, [], f.string, f.actor, none, f.detail⟩

def erase (f : Fault11) : Fault11 := { f with detail := f.detail.map (·.map Element.erase) }

end Fault11

namespace Fault12

def ofProtocol (f : ProtocolFault) : Fault12 :=
  ⟨SoapVersion.v12.mapCode f.code, f.subcodes, [⟨"en", f.reason⟩], f.node, f.actor, f.detail⟩

/-- Of several reasons the first one counts. -/
def toProtocol (f : Fault12) : ProtocolFault :=
  ⟨.v12, f.code, f.subcodes, (f.reason.head?.map (·.text)).getD "", f.role, f.node, f.detail⟩

def erase (f : Fault12) : Fault12 := { f with detail := f.detail.map (·.map Element.erase) }

end Fault12

namespace SoapFault

def erase : SoapFault → SoapFault
  | v11 f => .v11 f.erase
  | v12 f => .v12 f.erase

def ofProtocol (f : ProtocolFault) : SoapFault :=
  match f.version with
  | .v11 => .v11 (.ofProtocol f)
  | .v12 => .v12 (.ofProtocol f)

def version : SoapFault → SoapVersion
  | v11 _ => .v11
  | v12 _ => .v12

def toProtocol : SoapFault → ProtocolFault
  | v11 f => f.toProtocol
  | v12 f => f.toProtocol

end SoapFault

end SoapNode
