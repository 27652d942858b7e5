/-!
# Security settings

What the security stage demands of requests and puts into them.
-/

namespace SoapNode

inductive PasswordType where
  | text
  | digest
  deriving DecidableEq, Repr

namespace PasswordType

def name : PasswordType → String
  | text => "PasswordText"
  | digest => "PasswordDigest"

def profileUri : String := "http://docs.oasis-open.org/wss/2004/01/oasis-200401-wss-username-token-profile-1.0"

def uri (t : PasswordType) : String := profileUri ++ "#" ++ t.name

end PasswordType

structure SecuritySettings where
  enabled : Bool := false
  requireHeader : Bool := false
  requireTimestamp : Bool := false
  /-- The age in seconds beyond which a timestamp is refused. -/
  maxTimestampAge : UInt64 := 300
  requireUsernameToken : Bool := false
  allowedPasswordTypes : List PasswordType := [.digest]
  requireSaml : Bool := false
  /-- The packet property that the validated identity is stored in. -/
  identityProperty : Option String := none
  username : Option String := none
  password : Option String := none
  timestampLifetime : UInt64 := 300
  deriving DecidableEq, Repr, Inhabited

end SoapNode
