import SoapNode.Property.Set

/-!
# Transport properties

What the transport stage leaves with a response: the content type that the request was sent with and
that of the reply. Writing null takes a value away.
-/

namespace SoapNode

structure TransportProperties where
  contentType : Option String
  responseContentType : Option String
  deriving DecidableEq, Repr, Inhabited

/-- The text that a written value stands for; null stands for none. -/
def textValue (key : String) : PropertyValue → Except PropertyError (Option String)
  | .null => .ok none
  | .string s => .ok (some s)
  | _ => .error (.invalidType key "string")

namespace TransportProperties

def contentTypeKey : String := "transport.content_type"
def responseContentTypeKey : String := "transport.response_content_type"

def get? (t : TransportProperties) (key : String) : Option PropertyValue :=
  if key = contentTypeKey then PropertyValue.ofText? t.contentType
  else if key = responseContentTypeKey then PropertyValue.ofText? t.responseContentType
  else none

def write (t : TransportProperties) (key : String) (value : PropertyValue) :
    Except PropertyError (Option PropertyValue) × TransportProperties :=
  PropertySet.storeRead t (t.get? key) (textValue key value) (fun text =>
    if key = contentTypeKey then { t with contentType := text }
    else if key = responseContentTypeKey then { t with responseContentType := text }
    else t)

instance : PropertySet TransportProperties where
  supports _ key := key == contentTypeKey || key == responseContentTypeKey
  get? := get?
  write := write
  erase t key := t.write key .null
  keys t := [contentTypeKey, responseContentTypeKey].filter (fun k => (t.get? k).isSome)

end TransportProperties

end SoapNode
