import SoapNode.Security.Settings
import SoapNode.Soap.Header
import SoapNode.Time.Rfc3339

/-!
# The security header block

What a security header says about its message, and the block that a client puts into a request. A
settings value counts as a signed number of seconds; a date that leaves the calendar makes no block.
-/

namespace SoapNode

namespace Wss

def secextUri : String := "http://docs.oasis-open.org/wss/2004/01/oasis-200401-wss-wssecurity-secext-1.0.xsd"
def utilityUri : String := "http://docs.oasis-open.org/wss/2004/01/oasis-200401-wss-wssecurity-utility-1.0.xsd"
def samlUri : String := "urn:oasis:names:tc:SAML:2.0:assertion"

def wsse (localPart : String) : QName := ⟨secextUri, localPart⟩
def wsu (localPart : String) : QName := ⟨utilityUri, localPart⟩

def headerName : QName := wsse "Security"

end Wss

open Wss

structure SecurityTimestamp where
  created : Option String
  expires : Option String
  deriving DecidableEq, Repr

structure UsernameToken where
  username : String
  passwordType : Option String
  nonce : Option String
  created : Option String
  deriving DecidableEq, Repr

structure SecurityHeader where
  timestamp : Option SecurityTimestamp
  token : Option UsernameToken
  hasSamlAssertion : Bool
  deriving DecidableEq, Repr

namespace SecurityHeader

def childText (e : Element) (name : QName) : Option String := (e.child? name).map (·.textContent)

def ofElement (e : Element) : SecurityHeader where
  timestamp := (e.child? (wsu "Timestamp")).map (fun t =>
    ⟨childText t (wsu "Created"), childText t (wsu "Expires")⟩)
  token := (e.child? (wsse "UsernameToken")).map (fun t =>
    ⟨(childText t (wsse "Username")).getD "",
      (t.child? (wsse "Password")).bind (·.attribute? (.unqualified "Type")),
      childText t (wsse "Nonce"), childText t (wsu "Created")⟩)
  hasSamlAssertion := (e.child? ⟨samlUri, "Assertion"⟩).isSome

def ofHeaders (l : HeaderList) : Option SecurityHeader := (l.find? headerName).map (ofElement ·.element)

end SecurityHeader

/-- The signed number with the same 64 bits. -/
def signed (n : UInt64) : Int := n.toInt64.toInt

/-- The seconds that a span of time can hold. -/
def maxSpan : Int := 9223372036854775

/-- A setting as a span of seconds, unless no span is that long. -/
def span? (n : UInt64) : Option Int :=
  if -maxSpan ≤ signed n ∧ signed n ≤ maxSpan then some (signed n) else none

namespace SecurityHeader

def wsseElement (localPart : String) : Element := (Element.named (wsse localPart)).withPrefix "wsse"
def wsuElement (localPart : String) : Element := (Element.named (wsu localPart)).withPrefix "wsu"

def passwordElement (password : String) : Element :=
  ((wsseElement "Password").setAttribute (.unqualified "Type") PasswordType.text.uri).pushText password

def tokenElement (username : String) (password : Option String) (now : String) : Element :=
  let e := (wsseElement "UsernameToken").push ((wsseElement "Username").pushText username)
  let e := match password with
    | some password => e.push (passwordElement password)
    | none => e
  e.push ((wsuElement "Created").pushText now)

/-- The block of a request that is sent now: a timestamp and, for a configured user, a token. -/
def make (c : SecuritySettings) (now : Instant) : Option Header := do
  let lifetime ← span? c.timestampLifetime
  let expires := now.addSeconds lifetime
  if !expires.inRange then none
  else
    let timestamp := ((wsuElement "Timestamp").push ((wsuElement "Created").pushText (Rfc3339.format now))).push
      ((wsuElement "Expires").pushText (Rfc3339.format expires))
    let e := ((wsseElement "Security").declare "wsu" utilityUri).push timestamp
    some ⟨match c.username with
      | some username => e.push (tokenElement username c.password (Rfc3339.format now))
      | none => e⟩

end SecurityHeader

end SoapNode
