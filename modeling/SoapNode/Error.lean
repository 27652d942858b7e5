import SoapNode.Property.Value
import SoapNode.Soap.FaultElement
import SoapNode.Xml.Error

/-!
# Errors of the node

The causes that end an exchange. A handler's error may carry an error of the node and the other way
round; neither nests in itself, see `HandlerError.ofRuntime`. A fault can travel as an error, and every
error can be told as a fault.
-/

namespace SoapNode

inductive EnvelopeError where
  | notEnvelope (name : QName)
  | unknownNamespace (uri : String)
  | foreignChild (name : QName)
  | misplaced (localPart : String)
  | noBody
  | emptyDocument
  | rootNotEnvelope (name : QName)
  | described (text : String)
  deriving DecidableEq, Repr

def EnvelopeError.message : EnvelopeError → String
  | .notEnvelope name => "expected Envelope, found " ++ name.display
  | .unknownNamespace uri => s!"unrecognized envelope namespace '{uri}'"
  | .foreignChild name => "unexpected envelope child " ++ name.display
  | .misplaced localPart => s!"unexpected envelope element '{localPart}'"
  | .noBody => "envelope has no Body"
  | .emptyDocument => "empty document"
  | .rootNotEnvelope name => "root element is " ++ name.display ++ ", expected Envelope"
  | .described text => text

inductive ConfigError where
  | logicalHandlersOnly
  | rolesNeedSoap
  | unplayableRole (role : String)
  | duplicateOperation (name : String)
  | unknownOperation (name : String)
  | described (text : String)
  deriving DecidableEq, Repr

def ConfigError.message : ConfigError → String
  | .logicalHandlersOnly => "XML/HTTP bindings only accept logical handlers"
  | .rolesNeedSoap => "roles are only meaningful for SOAP bindings"
  | .unplayableRole role => s!"the role '{role}' cannot be played"
  | .duplicateOperation name => s!"duplicate operation name '{name}'"
  | .unknownOperation name => s!"dispatched to unknown operation '{name}'"
  | .described text => text

/-- Why no operation is found. The key is the name of the payload, written as `{uri}local`. -/
inductive DispatchError where
  | unrecognized (version : SoapVersion) (key : String)
  | noUniqueOperation (version : SoapVersion) (key : String)
  deriving DecidableEq, Repr

namespace DispatchError

def message : DispatchError → String
  | unrecognized _ key => s!"Cannot find dispatch method for {key}"
  | noUniqueOperation _ key => s!"No unique operation found for {key}"

def version : DispatchError → SoapVersion
  | unrecognized v _ | noUniqueOperation v _ => v

def key : DispatchError → String
  | unrecognized _ k | noUniqueOperation _ k => k

/-- Both are the sender's fault. -/
def toFault (e : DispatchError) : ProtocolFault := .client e.version e.message

end DispatchError

mutual

inductive RuntimeError where
  | xml (cause : XmlError)
  | invalidEnvelope (cause : EnvelopeError)
  | messageConsumed
  | contentType (given : String)
  | config (cause : ConfigError)
  | dispatch (cause : DispatchError)
  | protocol (fault : ProtocolFault)
  | handler (cause : HandlerError)
  | deserialization (ofResponse : Bool) (cause : RuntimeError)
  | fault (cause : FaultError)
  | property (cause : PropertyError)
  | transport (text : String)
  | pipelineClosed
  /-- A time limit or a date beyond what the calendar can hold. -/
  | timeRange
  | io (text : String)

inductive HandlerError where
  | protocol (fault : ProtocolFault)
  | webService (text : String)
  | failed (text : String)
  | runtime (cause : RuntimeError)

end

mutual

def RuntimeError.message : RuntimeError → String
  | .xml cause => "XML error: " ++ cause.message
  | .invalidEnvelope cause => "Invalid SOAP envelope: " ++ cause.message
  | .messageConsumed => "Message payload has already been consumed"
  | .contentType given => "Unsupported content type: " ++ given
  | .config cause => "Configuration error: " ++ cause.message
  | .dispatch cause => cause.message
  | .protocol fault => fault.message
  | .handler cause => cause.message
  | .deserialization ofResponse cause =>
    "Failed to read " ++ (if ofResponse then "response" else "request") ++ ": " ++ cause.message
  | .fault cause => cause.message
  | .property cause => cause.message
  | .transport text => "Transport error: " ++ text
  | .pipelineClosed => "Pipeline has been closed"
  | .timeRange => "Time out of range"
  | .io text => "IO error: " ++ text

def HandlerError.message : HandlerError → String
  | .protocol fault => fault.message
  | .webService text => "Web service error: " ++ text
  | .failed text => "Handler failure: " ++ text
  | .runtime cause => "Handler failure: " ++ cause.message

end

instance : Coe FaultError RuntimeError := ⟨.fault⟩
instance : Coe PropertyError RuntimeError := ⟨.property⟩
instance : Coe ConfigError RuntimeError := ⟨.config⟩
instance : Coe HandlerError RuntimeError := ⟨.handler⟩

instance : Inhabited RuntimeError := ⟨.messageConsumed⟩

instance : Inhabited HandlerError := ⟨.runtime default⟩

def HandlerError.kind : HandlerError → String
  | .protocol _ => "Protocol"
  | .webService _ => "WebService"
  | .failed _ => "Failed"
  | .runtime _ => "Runtime"

def RuntimeError.kind : RuntimeError → String
  | .xml _ => "Xml"
  | .invalidEnvelope _ => "InvalidEnvelope"
  | .messageConsumed => "MessageConsumed"
  | .contentType _ => "ContentType"
  | .config _ => "Config"
  | .dispatch (.unrecognized ..) => "Dispatch.Unrecognized"
  | .dispatch (.noUniqueOperation ..) => "Dispatch.NoUniqueOperation"
  | .protocol _ => "Protocol"
  | .handler cause => "Handler." ++ cause.kind
  | .deserialization ofResponse _ => "Deserialization." ++ (if ofResponse then "response" else "request")
  | .fault (.missing _) => "Fault.MissingElement"
  | .fault (.unboundPrefix _) => "Fault.UnboundPrefix"
  | .fault (.notAFault _) => "Fault.NotAFault"
  | .property (.readOnly _) => "Property.ReadOnly"
  | .property (.invalidType ..) => "Property.InvalidType"
  | .transport _ => "Transport"
  | .pipelineClosed => "PipelineClosed"
  | .timeRange => "TimeRange"
  | .io _ => "Io"

def RuntimeError.source? : RuntimeError → Option RuntimeError
  | .deserialization _ cause | .handler (.runtime cause) => some cause
  | _ => none

def HandlerError.ofRuntime : RuntimeError → HandlerError
  | .protocol fault => .protocol fault
  | .handler cause => cause
  | e => .runtime e

/-- The fault that tells a client about an error. What the client sent is the client's fault. -/
def ProtocolFault.ofError (v : SoapVersion) (e : RuntimeError) : ProtocolFault :=
  match e with
  | .protocol fault | .handler (.protocol fault) => fault.forVersion v
  | .dispatch cause => cause.toFault.forVersion v
  | .deserialization .. | .xml _ | .invalidEnvelope _ => .client v e.message
  | _ => .server v e.message

end SoapNode
