import SoapNode.Text.Utf8

/-!
# Attachments

Binary parts that travel beside the envelope, found by their content id; the first of an id counts.
-/

namespace SoapNode

structure Attachment where
  contentId : String
  contentType : String
  data : Bytes
  deriving DecidableEq, Repr

abbrev Attachments := List Attachment

def Attachments.find? (l : Attachments) (contentId : String) : Option Attachment :=
  List.find? (·.contentId = contentId) l

end SoapNode
