import SoapNode.Text.Utf8

/-!
# YAML values

The values that configuration files hold. A scalar keeps how it is written and its tag, because both
have a say in what it can be read as. A reference stands for the value with its number; a document
knows those values.
-/

namespace SoapNode

namespace Yaml

inductive Style where
  | plain
  | singleQuoted
  | doubleQuoted
  | literal
  | folded
  deriving DecidableEq, Repr

structure Scalar where
  style : Style
  tag : Option Bytes
  text : String
  deriving DecidableEq, Repr

end Yaml

inductive Yaml where
  | scalar (s : Yaml.Scalar)
  | sequence (items : List Yaml)
  | mapping (entries : List (Yaml × Yaml))
  | reference (number : Nat)
  deriving Repr, Inhabited

namespace Yaml

def plain (text : String) : Yaml := .scalar ⟨.plain, none, text⟩

def quoted (text : String) : Yaml := .scalar ⟨.doubleQuoted, none, text⟩

def coreTag (name : String) : Bytes := Utf8.encode ("tag:yaml.org,2002:" ++ name)

/-- A plain scalar without text, which stands for nothing. -/
def nothing : Yaml := plain ""

/-- A value and those that references may stand for, the last one first. -/
structure Document where
  root : Yaml
  anchored : List (Nat × Yaml)
  deriving Repr, Inhabited

namespace Document

def value (d : Document) : Yaml :=
  match d.root with
  | .reference number => (d.anchored.lookup number).getD nothing
  | v => v

def scalar? (d : Document) : Option Scalar :=
  match d.value with
  | .scalar s => some s
  | _ => none

def within (d : Document) (v : Yaml) : Document := { d with root := v }

end Document

end Yaml

end SoapNode
