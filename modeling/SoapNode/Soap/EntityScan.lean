import SoapNode.Soap.Violation

/-!
# The scan for entity declarations

A document is searched as raw text before it is read. A document type or an entity declaration is an
objection wherever its opening stands, and so is a markup declaration, other than a comment or a CDATA
section, that names an external identifier before its first closing bracket.
-/

namespace SoapNode.EntityScan

def occurs (word : List Char) : List Char → Bool
  | [] => word.isEmpty
  | c :: cs => word.isPrefixOf (c :: cs) || occurs word cs

def declaresExternal (afterOpening : List Char) : Bool :=
  let declaration := afterOpening.takeWhile (· != '>')
  !"--".toList.isPrefixOf declaration && !"[CDATA[".toList.isPrefixOf declaration &&
    (occurs "SYSTEM".toList declaration || occurs "PUBLIC".toList declaration)

def anyExternal : List Char → Bool
  | [] => false
  | '<' :: '!' :: cs => declaresExternal cs || anyExternal cs
  | _ :: cs => anyExternal cs

def scan (document : List Char) : Except Violation Unit :=
  if occurs "<!DOCTYPE".toList document || occurs "<!doctype".toList document then
    .error ⟨.doctypeDetected, "DOCTYPE declarations are not allowed"⟩
  else if occurs "<!ENTITY".toList document || occurs "<!entity".toList document then
    .error ⟨.externalEntityDetected, "Entity declarations are not allowed"⟩
  else if anyExternal document then
    .error ⟨.externalEntityDetected, "External entity references are not allowed"⟩
  else .ok ()

end SoapNode.EntityScan
