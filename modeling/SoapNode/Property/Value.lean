/-!
# Property values

The values that travel with a packet, read and written as JSON elsewhere. A number is a decimal
fraction: an integer and the count of its digits behind the point; a count of zero is an integer.
-/

namespace SoapNode

inductive PropertyValue where
  | null
  | bool (b : Bool)
  | number (digits : Int) (places : Nat)
  | string (s : String)
  | array (items : List PropertyValue)
  | object (fields : List (String × PropertyValue))
  deriving Repr, Inhabited

namespace PropertyValue

def ofText? (s : Option String) : Option PropertyValue := s.map .string

def isNull : PropertyValue → Bool
  | null => true
  | _ => false

def isTrue : PropertyValue → Bool
  | bool b => b
  | _ => false

/-- A number without places, cut off at zero. -/
def toNat : PropertyValue → Nat
  | number digits 0 => digits.toNat
  | _ => 0

def items : PropertyValue → List PropertyValue
  | array items => items
  | _ => []

def item (v : PropertyValue) (position : Nat) : PropertyValue := v.items.getD position null

def field (v : PropertyValue) (key : String) : PropertyValue :=
  match v with
  | object fields => (fields.lookup key).getD null
  | _ => null

end PropertyValue

inductive PropertyError where
  | readOnly (key : String)
  | invalidType (key expected : String)
  deriving DecidableEq, Repr

def PropertyError.message : PropertyError → String
  | .readOnly key => s!"Property '{key}' is read-only"
  | .invalidType key expected => s!"Property '{key}' expects a {expected} value"

end SoapNode
