import SoapNode.Stage.Site

/-!
# The dump stage

Every message that passes is recorded as an envelope, from a copy, so that the payload stays readable.
A payload that is a source gets buffered by that.
-/

namespace SoapNode

namespace Dump

variable {World : Type}

def record (m : Message) : DumpContent × Message :=
  match m.copy with
  | (.error e, m) => (.failure e.message, m)
  | (.ok copy, m) =>
    (match copy.toEnvelopeText.1 with
      | .ok envelope => .envelope envelope
      | .error e => .failure e.message, m)

def dump (side : Side) (onResponse : Bool) (p : Packet) (s : SiteStore World) : Packet × SiteStore World :=
  let (content, p) := p.onMessage .noMessage record
  (p, s.modifyWorld (fun site => { site with dumps := site.dumps ++ [⟨side, onResponse, content⟩] }))

def stage (side : Side) : SiteStage World :=
  { Stage.passing "dump" with
    request := fun w p s =>
      let (p, s) := dump side false p s
      (w.invokeNext p, s)
    response := fun _ p s =>
      let (p, s) := dump side true p s
      (.ret p, s) }

end Dump

end SoapNode
