import SoapNode.Packet

/-!
# Dispatch

An operation is found by a key that it alone claims. A finder that looks at the payload refuses a name
that nobody claims, and leaves a name that several claim to the next finder; a finder that looks at the
action only answers or does not.
-/

namespace SoapNode

/-- How many entries have a key. -/
inductive Claim where
  | nobody
  | unique (operation : String)
  | several
  deriving DecidableEq, Repr

namespace Claim

def ofKey {κ : Type} [BEq κ] (entries : List (κ × String)) (key : κ) : Claim :=
  match entries.filter (·.1 == key) with
  | [] => nobody
  | [e] => unique e.2
  | _ => several

def operation? : Claim → Option String
  | unique operation => some operation
  | _ => none

end Claim

/-- A way to find an operation, with the keys of the operations. -/
inductive Finder where
  | payload (version : SoapVersion) (entries : List (QName × String))
  | action (entries : List (String × String))
  deriving DecidableEq, Repr

namespace Finder

/-- The operation, or nothing where this finder cannot tell. -/
def find (f : Finder) (p : Packet) : Except RuntimeError (Option String) × Packet :=
  match f with
  | payload v entries =>
    let (name, p) := p.payloadName
    (match name with
      | .error e => .error e
      | .ok name =>
        match Claim.ofKey entries name with
        | .unique operation => .ok (some operation)
        | .several => .ok none
        | .nobody => .error (.dispatch (.unrecognized v name.display)), p)
  | action entries =>
    (.ok (match p.soapAction with
      | some a => if a.isEmpty then none else (Claim.ofKey entries a).operation?
      | none => none), p)

end Finder

structure Dispatcher where
  version : SoapVersion
  finders : List Finder
  deriving DecidableEq, Repr

namespace Dispatcher

def findFirst : List Finder → Packet → Except RuntimeError (Option String) × Packet
  | [], p => (.ok none, p)
  | f :: fs, p =>
    match f.find p with
    | (.ok none, p) => findFirst fs p
    | answer => answer

/-- The operation for a packet. The payload is asked for its name and otherwise left alone. -/
def dispatch (d : Dispatcher) (p : Packet) : Except RuntimeError String × Packet :=
  match findFirst d.finders p with
  | (.error e, p) => (.error e, p)
  | (.ok (some operation), p) => (.ok operation, p)
  | (.ok none, p) =>
    let (name, p) := p.payloadName
    (name.bind (fun name => .error (.dispatch (.noUniqueOperation d.version name.display))), p)

end Dispatcher

end SoapNode
