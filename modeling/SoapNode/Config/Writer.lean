import SoapNode.Config.Basic

/-!
# Writing a configuration

The YAML value of a configuration, with every setting present. Texts are quoted scalars, so that
reading takes none of them for a number, a truth value or null.
-/

namespace SoapNode

namespace NodeConfig

def ofText (s : String) : Yaml := .quoted s

def ofNat (n : UInt64) : Yaml := .plain (toString n.toNat)

def ofBool (b : Bool) : Yaml := .plain (if b then "true" else "false")

def ofOption : Option String → Yaml
  | some s => ofText s
  | none => .plain "null"

def mapping (entries : List (String × Yaml)) : Yaml := .mapping (entries.map (fun (k, v) => (ofText k, v)))

def ofBinding (b : BindingSettings) : Yaml := mapping [
  ("kind", ofText (kindName b.kind)),
  ("features", .sequence (b.features.map ofText)),
  ("mtom", ofBool b.mtom),
  ("roles", .sequence (b.roles.map ofText))]

def ofSecurity (s : SecuritySettings) : Yaml := mapping [
  ("enabled", ofBool s.enabled),
  ("require_security_header", ofBool s.requireHeader),
  ("require_timestamp", ofBool s.requireTimestamp),
  ("max_timestamp_age_secs", ofNat s.maxTimestampAge),
  ("require_username_token", ofBool s.requireUsernameToken),
  ("allowed_password_types", .sequence (s.allowedPasswordTypes.map (fun t => ofText t.name))),
  ("require_saml", ofBool s.requireSaml),
  ("identity_property", ofOption s.identityProperty),
  ("username", ofOption s.username),
  ("password", ofOption s.password),
  ("timestamp_ttl_secs", ofNat s.timestampLifetime)]

def toYaml (c : NodeConfig) : Yaml := mapping [
  ("version", ofText c.version),
  ("settings", mapping [("dump", ofBool c.dump), ("max_body_size", ofNat c.maxBodySize)]),
  ("binding", ofBinding c.binding),
  ("addressing", mapping [("enabled", ofBool c.addressingEnabled), ("required", ofBool c.addressingRequired)]),
  ("ws_security", ofSecurity c.security)]

end NodeConfig

end SoapNode
