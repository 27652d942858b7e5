import SoapNode.Handler.Basic

/-!
# Bindings

The kind of a binding fixes the SOAP version, or that there are no envelopes. Features are a set of
ids. The handlers and the roles can be replaced while the binding is in use: a new configuration is
built and takes the place of the old one as a whole.
-/

namespace SoapNode

inductive BindingKind where
  | soap11
  | soap12
  | xmlHttp
  deriving DecidableEq, Repr, Inhabited

namespace BindingKind

def version? : BindingKind → Option SoapVersion
  | soap11 => some .v11
  | soap12 => some .v12
  | xmlHttp => none

def id : BindingKind → String
  | soap11 => "http://schemas.xmlsoap.org/wsdl/soap/http"
  | soap12 => "http://www.w3.org/2003/05/soap/bindings/HTTP/"
  | xmlHttp => "http://www.w3.org/2004/08/wsdl/http"

def ofVersion : SoapVersion → BindingKind
  | .v11 => soap11
  | .v12 => soap12

/-- The version of faults. Where there are no envelopes it is SOAP 1.1. -/
def faultVersion (k : BindingKind) : SoapVersion := k.version?.getD .v11

end BindingKind

def addressingFeature : String := "http://www.w3.org/2005/08/addressing/module"

def mtomFeature : String := "http://www.w3.org/2004/08/soap/features/http-optimization"

structure Binding (World : Type) where
  kind : BindingKind
  /-- The ids of the enabled features, ascending. -/
  features : List String
  handlerConfig : HandlerConfiguration World

namespace Binding

variable {World : Type}

def new (kind : BindingKind) : Binding World := ⟨kind, [], ⟨kind.version?, [], []⟩⟩

def version? (b : Binding World) : Option SoapVersion := b.kind.version?

def withFeature (b : Binding World) (id : String) : Binding World :=
  { b with features := Ascending.insert id b.features }

def withMtom (b : Binding World) (enabled : Bool) : Binding World := if enabled then b.withFeature mtomFeature else b

def hasFeature (b : Binding World) (id : String) : Bool := b.features.contains id

def hasAddressing (b : Binding World) : Bool := b.hasFeature addressingFeature

/-- Replaces the handlers and keeps the roles. Without envelopes there is nothing for SOAP handlers. -/
def setHandlers (b : Binding World) (chain : List (Handler World)) : Except ConfigError (Binding World) :=
  if b.kind = .xmlHttp ∧ chain.any (!·.isLogical) then .error .logicalHandlersOnly
  else .ok { b with handlerConfig := ⟨b.version?, chain, b.handlerConfig.configuredRoles⟩ }

def setRoles (b : Binding World) (roles : List String) : Except ConfigError (Binding World) :=
  match b.version? with
  | none => .error .rolesNeedSoap
  | some v =>
    match v.noneRole? with
    | some role =>
      if roles.contains role then .error (.unplayableRole role)
      else .ok { b with handlerConfig := ⟨some v, b.handlerConfig.chain, Ascending.ofList roles⟩ }
    | none => .ok { b with handlerConfig := ⟨some v, b.handlerConfig.chain, Ascending.ofList roles⟩ }

end Binding

end SoapNode
