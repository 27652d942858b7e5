import SoapNode.Proofs.Assembly
import SoapNode.Proofs.Message.Delivery
import SoapNode.Proofs.Tube.Passing

/-!
# Stages of a site without handlers

While the binding of a site has no handlers, no exchange gets a processor. Then the handler stages and
the dump stage pass what they see, the must-understand stage has nothing to object to in plain blocks,
and the addressing stage adds plain blocks.
-/

namespace SoapNode

variable {World : Type}

/-- A site with this binding where no handlers have run. The condition is on the number of ids and the world. -/
structure Quiet (b : Binding World) (J : Nat → World → Prop) (s : SiteStore World) : Prop where
  binding_eq : s.world.binding = b
  idle : ∀ x ∈ s.cells, ∀ kind, (x.leg kind).processor = none
  condition : J s.world.issued s.world.world

def Quiet.With (b : Binding World) (A : Packet → Prop) (J : Nat → World → Prop) (p : Packet)
    (s : SiteStore World) : Prop :=
  A p ∧ Quiet b J s

/-- A result on a quiet site. Where it is good, it is a packet. -/
structure Quiet.Gives (b : Binding World) (good : Prop) (B : Packet → Prop) (J : Nat → World → Prop)
    (r : Except RuntimeError Packet) (s : SiteStore World) : Prop where
  quiet : Quiet b J s
  packet : good → ∃ p, r = .ok p ∧ B p

namespace Quiet

variable {b : Binding World} {J : Nat → World → Prop} {s : SiteStore World}

theorem cell (h : Quiet b J s) (c : CellId) (kind : HandlerKind) : ((s.cell c).leg kind).processor = none := by
  rw [Store.cell, List.getD_eq_getElem?_getD]
  cases hc : s.cells[c]? with
  | none => cases kind <;> rfl
  | some x => exact h.idle x (List.mem_of_getElem? hc) kind

theorem setCell (h : Quiet b J s) (c : CellId) {x : HandlerExchange World}
    (hx : ∀ kind, (x.leg kind).processor = none) : Quiet b J (s.setCell c x) := by
  refine ⟨h.binding_eq, ?_, h.condition⟩
  intro y hy
  rcases List.mem_or_eq_of_mem_set hy with hy | rfl
  · exact h.idle y hy
  · exact hx

theorem grow {stages : List (SiteStage World)} {p p' : SitePlant World} (h : Quiet b J p.store)
    (hgrows : Plant.Grows stages p p') : Quiet b J p'.store := by
  obtain ⟨n, hcells⟩ := hgrows.cells
  refine ⟨?_, ?_, ?_⟩
  · rw [hgrows.world]
    exact h.binding_eq
  · intro x hx
    rw [hcells] at hx
    rcases List.mem_append.mp hx with hx | hx
    · exact h.idle x hx
    · rw [List.eq_of_mem_replicate hx]
      intro kind
      cases kind <;> rfl
  · rw [hgrows.world]
    exact h.condition

theorem gives_eq {good : Prop} {B : Packet → Prop} :
    Quiet.Gives b good B J = fun r => Quiet b (fun n w => J n w ∧ (good → ∃ p, r = .ok p ∧ B p)) := by
  funext r s
  apply propext
  constructor
  · rintro ⟨hquiet, hpacket⟩
    exact ⟨hquiet.binding_eq, hquiet.idle, hquiet.condition, hpacket⟩
  · intro h
    exact ⟨⟨h.binding_eq, h.idle, h.condition.1⟩, h.condition.2⟩

end Quiet

namespace HandlerStage

variable {b : Binding World} {J : Nat → World → Prop} {s : SiteStore World} {h : HandlerStage}

theorem processor_setLeg {x : HandlerExchange World} {kind : HandlerKind} {l : Leg World}
    (hx : ∀ kind, (x.leg kind).processor = none) (hl : l.processor = none) (kind' : HandlerKind) :
    ((x.setLeg kind l).leg kind').processor = none := by
  have := hx kind'
  cases kind <;> cases kind' <;> assumption

theorem processor_start {x : HandlerExchange World} (hx : ∀ kind, (x.leg kind).processor = none)
    (kind : HandlerKind) : ((h.start x).leg kind).processor = none := by
  rw [start]
  split
  · cases kind <;> rfl
  · exact processor_setLeg hx rfl kind

theorem request_quiet (hchain : b.handlerConfig.chain = []) (hs : Quiet b J s) (w : Wiring) (p : Packet) :
    ∃ s', h.request w p s = (w.invokeNext p, s') ∧ Quiet b J s' := by
  have hstart := processor_start (h := h) (hs.cell (cellOf w))
  have hnone : (s.world.binding.handlerConfig.handlers h.kind).isEmpty = true := by
    rw [hs.binding_eq, HandlerConfiguration.handlers, hchain]
    rfl
  rw [request]
  simp only [hnone, if_true]
  exact ⟨_, rfl, hs.setCell _ (processor_setLeg hstart (hstart h.kind))⟩

theorem closeIfDue_quiet (hs : Quiet b J s) (w : Wiring) (p : Packet) :
    ∃ s', h.closeIfDue w p s = (p, s') ∧ Quiet b J s' := by
  have hclose : ∀ kind, (s.cell (cellOf w)).closeLeg kind p s.world.world =
      (s.cell (cellOf w), p, s.world.world) := by
    intro kind
    rw [HandlerExchange.closeLeg, hs.cell (cellOf w) kind]
  rw [closeIfDue]
  split
  · rw [close]
    simp only [hclose, ite_self]
    exact ⟨_, rfl, hs.setCell _ (hs.cell (cellOf w))⟩
  · exact ⟨s, rfl, hs⟩

theorem response_quiet (hs : Quiet b J s) (w : Wiring) (p : Packet) :
    ∃ s', h.response w p s = (.ret p, s') ∧ Quiet b J s' := by
  obtain ⟨s', hclose, hs'⟩ := closeIfDue_quiet (h := h) hs w p
  have hcall : h.callResponse w p s = (.ok true, p, s) := by
    rw [callResponse, hs.cell]
  rw [response, hcall]
  simp only [hclose]
  exact ⟨s', rfl, hs'⟩

theorem exception_quiet (hs : Quiet b J s) (w : Wiring) (e : RuntimeError) :
    ∃ s', h.stage.exception w e s = (.throw e, s') ∧ Quiet b J s' := by
  obtain ⟨s', hclose, hs'⟩ := closeIfDue_quiet (h := h) hs w .empty
  exact ⟨s', congrArg (fun r => (NextAction.throw e, r.2)) hclose, hs'⟩

/-- Whatever a packet has to satisfy and whatever a result says, it stays so. -/
theorem passes (hchain : b.handlerConfig.chain = []) (A : Packet → Prop) (J : Nat → World → Prop)
    (R : Except RuntimeError Packet → Nat → World → Prop) :
    h.stage.Passes (Quiet.With b A J) (Quiet.With b A J) (fun r => Quiet b (R r)) (fun r => Quiet b (R r)) where
  request w p s hp := by
    obtain ⟨s', hrequest, hs'⟩ := request_quiet (h := h) hchain hp.2 w p
    exact ⟨p, s', hrequest, hp.1, hs'⟩
  result w r s hr := by
    cases r with
    | ok p =>
      obtain ⟨s', hresponse, hs'⟩ := response_quiet (h := h) hr w p
      exact ⟨_, _, s', hresponse, rfl, hs'⟩
    | error e =>
      obtain ⟨s', hexception, hs'⟩ := exception_quiet (h := h) hr w e
      exact ⟨_, _, s', hexception, rfl, hs'⟩

theorem passes_quiet (hchain : b.handlerConfig.chain = []) (A B : Packet → Prop)
    (J J' : Nat → World → Prop) (good : Prop) :
    h.stage.Passes (Quiet.With b A J) (Quiet.With b A J) (Quiet.Gives b good B J') (Quiet.Gives b good B J') := by
  rw [Quiet.gives_eq]
  exact passes hchain A J _

theorem keeps_quiet (hchain : b.handlerConfig.chain = []) : h.stage.Keeps (Quiet b J) where
  request w p s hs := by
    obtain ⟨s', hrequest, hs'⟩ := request_quiet (h := h) hchain hs w p
    show Quiet b J (h.request w p s).2
    rwa [hrequest]
  response w p s hs := by
    obtain ⟨s', hresponse, hs'⟩ := response_quiet (h := h) hs w p
    show Quiet b J (h.response w p s).2
    rwa [hresponse]
  exception w e s hs := by
    obtain ⟨s', hexception, hs'⟩ := exception_quiet (h := h) hs w e
    rwa [hexception]

end HandlerStage

namespace Dump

variable {b : Binding World} {J : Nat → World → Prop} {side : Side}

theorem record_eq {m : Message} (h : m.copy.2 = m) : (record m).2 = m := by
  rw [record]
  split
  all_goals
    rename_i hcopy
    rw [hcopy] at h
    exact h

theorem packet_dump (side : Side) (onResponse : Bool) {p : Packet} (h : ∀ m ∈ p.message, m.copy.2 = m)
    (s : SiteStore World) : (dump side onResponse p s).1 = p := by
  obtain ⟨message, properties⟩ := p
  cases message with
  | none => rfl
  | some m =>
    rw [dump, Packet.onMessage]
    simp only [record_eq (h m rfl)]

/-- A result may say anything that a dump of its packet does not change. -/
theorem passes {A : Packet → Prop} (hA : ∀ p, A p → ∀ m ∈ p.message, m.copy.2 = m)
    {R : Except RuntimeError Packet → Nat → World → Prop}
    (hR : ∀ p s n w, R (.ok p) n w → R (.ok (dump side true p (s : SiteStore World)).1) n w)
    (J : Nat → World → Prop) :
    (stage side).Passes (Quiet.With b A J) (Quiet.With b A J) (fun r => Quiet b (R r)) (fun r => Quiet b (R r)) where
  request w p s hp := by
    have hpacket : A (dump side false p s).1 := by
      rw [packet_dump side false (hA p hp.1)]
      exact hp.1
    exact ⟨_, _, rfl, hpacket, hp.2.binding_eq, hp.2.idle, hp.2.condition⟩
  result w r s hr := by
    cases r with
    | ok p => exact ⟨_, _, _, rfl, rfl, hr.binding_eq, hr.idle, hR p s _ _ hr.condition⟩
    | error e => exact ⟨_, _, s, rfl, rfl, hr⟩

theorem passes_quiet {A B : Packet → Prop} (hA : ∀ p, A p → ∀ m ∈ p.message, m.copy.2 = m)
    (hB : ∀ p, B p → ∀ m ∈ p.message, m.copy.2 = m) (J J' : Nat → World → Prop) (good : Prop) :
    (stage side).Passes (Quiet.With b A J) (Quiet.With b A J) (Quiet.Gives b good B J') (Quiet.Gives b good B J') := by
  rw [Quiet.gives_eq]
  refine passes hA ?_ J
  rintro p s n w ⟨hcondition, hpacket⟩
  refine ⟨hcondition, fun hgood => ?_⟩
  obtain ⟨q, hq, hBq⟩ := hpacket hgood
  cases hq
  exact ⟨p, congrArg Except.ok (packet_dump side true (hB p hBq) s), hBq⟩

theorem line_optional {stages : List (SiteStage World)} {A B : Packet → Prop}
    {J' : Nat → World → Prop} {good : Prop} (hA : ∀ p, A p → ∀ m ∈ p.message, m.copy.2 = m)
    (hB : ∀ p, B p → ∀ m ∈ p.message, m.copy.2 = m) (dump : Bool) (side : Side)
    (hline : Stage.Line stages (Quiet.With b A J) (Quiet.Gives b good B J')) :
    Stage.Line ((if dump then [stage side] else []) ++ stages) (Quiet.With b A J) (Quiet.Gives b good B J') :=
  .optional (passes_quiet hA hB J J' good).screens hline

theorem keeps_quiet : (stage side).Keeps (Quiet b J) where
  request _ _ _ hs := ⟨hs.binding_eq, hs.idle, hs.condition⟩
  response _ _ _ hs := ⟨hs.binding_eq, hs.idle, hs.condition⟩
  exception _ _ _ hs := hs

end Dump

end SoapNode
