import SoapNode.Config.Writer
import SoapNode.Property.Json

/-!
# Settings as property values

Settings may be given as property values instead of a YAML text: an object is a mapping, a text is a
quoted scalar, null stands for what is not given. The other way round, a plain scalar is a number, a
truth value or null.
-/

namespace SoapNode

namespace Yaml

mutual

def ofProperty : PropertyValue → Yaml
  | .null => nothing
  | .bool b => plain (toString b)
  | .number digits places => plain (String.ofList (PropertyValue.Json.numberText digits places))
  | .string s => quoted s
  | .array items => .sequence (ofItems items)
  | .object fields => .mapping (ofFields fields)

def ofItems : List PropertyValue → List Yaml
  | [] => []
  | v :: vs => ofProperty v :: ofItems vs

/-- The entries of an object, without those that are null. -/
def ofFields : List (String × PropertyValue) → List (Yaml × Yaml)
  | [] => []
  | (_, .null) :: fs => ofFields fs
  | (k, v) :: fs => (quoted k, ofProperty v) :: ofFields fs

end

def Document.ofProperty (v : PropertyValue) : Document := ⟨Yaml.ofProperty v, []⟩

def scalarProperty (text : String) : PropertyValue :=
  if NodeConfig.isNull text then .null
  else match text.toInt? with
    | some n => .number n 0
    | none => .bool (text == "true")

def keyText : Yaml → String
  | .scalar s => s.text
  | _ => ""

mutual

def toProperty : Yaml → PropertyValue
  | .scalar s => if s.style = .plain then scalarProperty s.text else .string s.text
  | .sequence items => .array (toItems items)
  | .mapping entries => .object (toFields entries)
  | .reference _ => .null

def toItems : List Yaml → List PropertyValue
  | [] => []
  | v :: vs => toProperty v :: toItems vs

def toFields : List (Yaml × Yaml) → List (String × PropertyValue)
  | [] => []
  | (k, v) :: es => (keyText k, toProperty v) :: toFields es

end

end Yaml

end SoapNode
