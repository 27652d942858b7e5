import SoapNode.Security.Header
import SoapNode.Soap.EntityScan

/-!
# Validating the security header

A message without the header fails only if the header itself is required. Of a header that is there,
timestamp, password type, token and assertion are checked in this order, each against its own setting.
A timestamp may lie up to five minutes in the future.
-/

namespace SoapNode

structure ValidationResult where
  violations : List Violation
  identity : Option String
  deriving DecidableEq, Repr

namespace Security

def skew : Int := 300

/-- The objection to a creation time, unless the settings hold no span of time. -/
def checkCreated (c : SecuritySettings) (now : Instant) (created : String) : Option (List Violation) :=
  match Rfc3339.parse created with
  | none => some [⟨.invalidTimestamp, "Invalid timestamp format: " ++ created⟩]
  | some t => do
    let limit ← span? c.maxTimestampAge
    let age := now.since t
    if limit * Instant.nanosPerSecond < age then
      some [⟨.timestampExpired,
        s!"Timestamp is too old: {age.tdiv Instant.nanosPerSecond} seconds (max: {c.maxTimestampAge})"⟩]
    else if age < -skew * Instant.nanosPerSecond then some [⟨.invalidTimestamp, "Timestamp is in the future"⟩]
    else some []

def checkExpires (now : Instant) (expires : String) : List Violation :=
  match Rfc3339.parse expires with
  | none => [⟨.invalidTimestamp, "Invalid expires timestamp format: " ++ expires⟩]
  | some t => if t.isBefore now then [⟨.timestampExpired, "Security timestamp has expired"⟩] else []

def checkTimestamp (c : SecuritySettings) (now : Instant) (t : Option SecurityTimestamp) : Option (List Violation) :=
  if !c.requireTimestamp then some []
  else match t with
    | none => some [⟨.invalidTimestamp, "Timestamp is required in WS-Security header but not present"⟩]
    | some t => do
      let created ← match t.created with
        | some created => checkCreated c now created
        | none => some []
      return created ++ (match t.expires with
        | some expires => checkExpires now expires
        | none => [])

def allows (c : SecuritySettings) (uri : String) : Bool :=
  c.allowedPasswordTypes.any (fun t => EntityScan.occurs t.name.toList uri.toList)

def checkToken (c : SecuritySettings) : Option UsernameToken → List Violation
  | some t =>
    match t.passwordType with
    | some uri => if allows c uri then [] else [⟨.invalidPasswordType, s!"Password type '{uri}' is not allowed"⟩]
    | none => []
  | none =>
    if c.requireUsernameToken then [⟨.missingUsernameToken, "UsernameToken is required but not present"⟩] else []

def identity? : Option UsernameToken → Option String
  | some t => if t.username.isEmpty then none else some t.username
  | none => none

/-- Checks the headers of a message. There is no result where a time limit is no span of time. -/
def validate (c : SecuritySettings) (now : Instant) (l : HeaderList) : Option ValidationResult :=
  match SecurityHeader.ofHeaders l with
  | none =>
    some ⟨if c.requireHeader then [⟨.missingSecurityHeader, "WS-Security header is required but not present"⟩]
      else [], none⟩
  | some h => do
    let timestamp ← checkTimestamp c now h.timestamp
    let saml := if c.requireSaml && !h.hasSamlAssertion then
      [⟨.missingSamlAssertion, "SAML assertion is required but not present"⟩] else []
    return ⟨timestamp ++ checkToken c h.token ++ saml, identity? h.token⟩

end Security

end SoapNode
