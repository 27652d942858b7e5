import SoapNode.Security.Validation
import SoapNode.Stage.Site

/-!
# The security stage

A client puts a security header into every request. A server validates it and answers violations with a
fault that lists them; a validated identity becomes a property of the packet.
-/

namespace SoapNode

namespace Security

variable {World : Type}

def clientRequest (c : SecuritySettings) (w : Wiring) (p : Packet) (s : SiteStore World) : NextAction :=
  match p.message with
  | none => w.invokeNext p
  | some m =>
    match SecurityHeader.make c s.world.clock with
    | some h => w.invokeNext (p.setMessage (some { m with headers := m.headers.addOrReplace h }))
    | none => .throw .timeRange

def violationFault (v : SoapVersion) (violations : List Violation) : ProtocolFault :=
  (ProtocolFault.client v (Violation.reason violations)).withDetail (Violation.detail violations)

def storeIdentity (c : SecuritySettings) (p : Packet) (identity : Option String) : Except PropertyError Packet :=
  match c.identityProperty, identity with
  | some key, some user => (PropertySet.put p key (.string user)).map (·.2)
  | _, _ => .ok p

def serverRequest (version : Option SoapVersion) (c : SecuritySettings) (w : Wiring) (p : Packet)
    (s : SiteStore World) : NextAction :=
  match p.message with
  | none => w.invokeNext p
  | some m =>
    match validate c s.world.clock m.headers with
    | none => .throw .timeRange
    | some result =>
      if !result.violations.isEmpty then
        .ret (p.respondFault version (violationFault (version.getD .v11) result.violations))
      else
        match storeIdentity c p result.identity with
        | .ok p => w.invokeNext p
        | .error e => .throw (.property e)

def stage (side : Side) (version : Option SoapVersion) (c : SecuritySettings) : SiteStage World :=
  { Stage.passing "security" with
    request := fun w p s =>
      (match side with
        | .client => clientRequest c w p s
        | .server => serverRequest version c w p s, s) }

end Security

end SoapNode
