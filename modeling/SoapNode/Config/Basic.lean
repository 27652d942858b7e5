import SoapNode.Assembly
import SoapNode.Config.Yaml.Document

/-!
# Configuration

The settings of a node as a YAML mapping. Sections and settings that are not given have defaults,
unknown keys are passed over, and a key that is given twice is an error. Texts may be any scalar;
numbers, truth values and names are checked.
-/

namespace SoapNode

structure BindingSettings where
  kind : BindingKind := .soap11
  features : List String := []
  mtom : Bool := false
  roles : List String := []
  deriving DecidableEq, Repr

structure NodeConfig where
  version : String := "1"
  dump : Bool := false
  maxBodySize : UInt64 := 1048576
  binding : BindingSettings := {}
  addressingEnabled : Bool := false
  addressingRequired : Bool := false
  security : SecuritySettings := {}
  deriving DecidableEq, Repr

namespace NodeConfig

/-- The value of a setting: a default where it is not given, an error where it cannot be read. -/
abbrev Read (α : Type) := Yaml.Document → Option α

/-- The value of a key that may be given once. -/
def field {α : Type} (entries : List (String × Yaml.Document)) (key : String) (default : α)
    (read : Read α) : Option α :=
  match entries.filter (·.1 == key) with
  | [] => some default
  | [(_, v)] => read v
  | _ => none

def text : Read String := fun d => d.scalar?.map (·.text)

def isNullWord (s : String) : Bool := ["~", "null", "Null", "NULL"].contains s

def isNull (s : String) : Bool := s.isEmpty || isNullWord s

/-- A text that may be missing. Only a plain scalar can say so, and not one whose tag makes it a text. -/
def optionalText : Read (Option String) := fun d => do
  let s ← d.scalar?
  match s.style, s.tag with
  | .plain, none => return if isNull s.text then none else some s.text
  | .plain, some tag =>
    if tag != Yaml.coreTag "null" then return some s.text
    else if isNullWord s.text then return none
    else none
  | _, _ => return some s.text

/-- The text of a scalar that may be of a type other than text: it is plain, or literal with the tag of
the type. -/
def typed (type : String) : Read String := fun d => do
  let s ← d.scalar?
  if s.style = .plain ∨ (s.style = .literal ∧ s.tag = some (Yaml.coreTag type)) then some s.text else none

def truth : Read Bool := fun d => do
  let s ← typed "bool" d
  if ["true", "True", "TRUE"].contains s then some true
  else if ["false", "False", "FALSE"].contains s then some false
  else none

def digits (radix : Nat) (cs : List Char) : Option Nat := (Entity.readNumber UInt64.size radix cs).toOption

/-- Reads an unsigned number of 64 bits. A leading zero makes a decimal number a text. -/
def unsigned : List Char → Option Nat
  | '0' :: 'x' :: ds => digits 16 ds
  | '0' :: 'o' :: ds => digits 8 ds
  | '0' :: 'b' :: ds => digits 2 ds
  | '0' :: _ :: _ => none
  | ds => digits 10 ds

def number : Read UInt64 := fun d => do
  let value ← match (← typed "int" d).toList with
    | '+' :: cs => unsigned cs
    | cs => unsigned cs
  return UInt64.ofNat value

def list {α : Type} (item : Read α) : Read (List α) := fun d =>
  match d.value with
  | .sequence items => items.mapM (fun v => item (d.within v))
  | .scalar ⟨.plain, _, ""⟩ => some []
  | _ => none

/-- The entries of a section; one without content has none. Every key has to be a scalar. -/
def entriesOf : Read (List (String × Yaml.Document)) := fun d =>
  match d.value with
  | .mapping entries => entries.mapM (fun (k, v) => return (← text (d.within k), d.within v))
  | .scalar ⟨.plain, _, ""⟩ => some []
  | _ => none

/-- The name that a tag gives behind its exclamation mark. -/
def tagName? : Option Bytes → Option String
  | some (33 :: name) => (Utf8.decode name).toOption
  | _ => none

/-- A name from a list of choices. It is a text or, in front of nothing, a tag. -/
def choice {α : Type} (choices : List α) (name : α → String) : Read α := fun d => do
  let s ← d.scalar?
  match tagName? s.tag with
  | some tag => if s.style = .plain ∧ isNull s.text then choices.find? (name · = tag) else none
  | none => choices.find? (name · = s.text)

def kindName : BindingKind → String
  | .soap11 => "soap11"
  | .soap12 => "soap12"
  | .xmlHttp => "xml_http"

def kind : Read BindingKind := choice [.soap11, .soap12, .xmlHttp] kindName

def passwordType : Read PasswordType := choice [.text, .digest] (·.name)

def bindingSettings : Read BindingSettings := fun d => do
  let e ← entriesOf d
  return {
    kind := ← field e "kind" .soap11 kind
    features := ← field e "features" [] (list text)
    mtom := ← field e "mtom" false truth
    roles := ← field e "roles" [] (list text) }

def securitySettings : Read SecuritySettings := fun d => do
  let e ← entriesOf d
  return {
    enabled := ← field e "enabled" false truth
    requireHeader := ← field e "require_security_header" false truth
    requireTimestamp := ← field e "require_timestamp" false truth
    maxTimestampAge := ← field e "max_timestamp_age_secs" 300 number
    requireUsernameToken := ← field e "require_username_token" false truth
    allowedPasswordTypes := ← field e "allowed_password_types" [.digest] (list passwordType)
    requireSaml := ← field e "require_saml" false truth
    identityProperty := ← field e "identity_property" none optionalText
    username := ← field e "username" none optionalText
    password := ← field e "password" none optionalText
    timestampLifetime := ← field e "timestamp_ttl_secs" 300 number }

def general : Read (Bool × UInt64) := fun d => do
  let e ← entriesOf d
  return (← field e "dump" false truth, ← field e "max_body_size" 1048576 number)

def addressing : Read (Bool × Bool) := fun d => do
  let e ← entriesOf d
  return (← field e "enabled" false truth, ← field e "required" false truth)

def ofDocument : Read NodeConfig := fun d => do
  let e ← entriesOf d
  let (dump, maxBodySize) ← field e "settings" (false, 1048576) general
  let (enabled, required) ← field e "addressing" (false, false) addressing
  return {
    version := ← field e "version" "1" text
    dump
    maxBodySize
    binding := ← field e "binding" {} bindingSettings
    addressingEnabled := enabled
    addressingRequired := required
    security := ← field e "ws_security" {} securitySettings }

/-- Reads a configuration file. One without content has defaults throughout. -/
def parse (s : String) : Except ConfigError NodeConfig :=
  match Yaml.parse s with
  | some none => .ok {}
  | some (some d) =>
    match ofDocument d with
    | some c => .ok c
    | none => .error (.described "the document is no configuration")
  | none => .error (.described "the document is not well-formed")

def withDumpOverride (c : NodeConfig) : Option String → NodeConfig
  | none => c
  | some value => { c with dump := ["1", "true"].contains (lowerAscii (Text.trim value)) }

def assembly (c : NodeConfig) : AssemblySettings := ⟨c.dump, c.maxBodySize.toNat, c.addressingRequired, c.security⟩

def makeBinding {World : Type} (c : NodeConfig) : Except ConfigError (Binding World) :=
  let b := c.binding.features.foldl Binding.withFeature ((Binding.new c.binding.kind).withMtom c.binding.mtom)
  let b := if c.addressingEnabled then b.withFeature addressingFeature else b
  if c.binding.roles.isEmpty then .ok b else b.setRoles c.binding.roles

end NodeConfig

end SoapNode
