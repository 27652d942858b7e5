import SoapNode.Assembly
import SoapNode.Proofs.Dispatch
import SoapNode.Proofs.Handler.Respect
import SoapNode.Proofs.Tube.Shadows

/-!
# The stages are uniform

Where handlers, operations and transports are functions of their arguments, a stage sees of its site the
binding, the clock and the message ids that it draws. Such stages are uniform, and the outer handler
stage starts an exchange. So the chain of any layers is regular.
-/

namespace SoapNode

variable {World : Type}

/-- Sites with the same binding and clock. Where ids matter, they have also drawn the same number of them. -/
structure Site.Alike (b : Binding World) (clock : Instant) (ids : Bool) (R : World → World → Prop)
    (s s' : Site World) :
    Prop where
  binding_eq : s.binding = b
  binding_eq' : s'.binding = b
  clock_eq : s.clock = clock
  clock_eq' : s'.clock = clock
  issued_eq : ids = true → s.issued = s'.issued
  world : R s.world s'.world

/-- Sites that are alike, and equal states of exchanges whose handlers respect the relation of worlds. -/
def Site.likeness (b : Binding World) (clock : Instant) (ids : Bool) (R : World → World → Prop) :
    Likeness (HandlerExchange World) (Site World) where
  world := Site.Alike b clock ids R
  cell x y := x = y ∧ x.Respects R

def Operation.Respects (R : World → World → Prop) (o : Operation World) : Prop :=
  ∀ input u v, R u v → (o.run input u).1 = (o.run input v).1 ∧ R (o.run input u).2 (o.run input v).2

def Transport.Respects (R : World → World → Prop) (t : Transport World) : Prop :=
  ∀ request action oneWay u v, R u v →
    (t request action oneWay u).1 = (t request action oneWay v).1 ∧
    R (t request action oneWay u).2 (t request action oneWay v).2

/-- An operation that answers an input the same in every world. -/
def Operation.Functional (o : Operation World) : Prop := o.Respects (fun _ _ => True)

/-- A transport that answers a request the same in every world. -/
def Transport.Functional (t : Transport World) : Prop := t.Respects (fun _ _ => True)

section

variable {b : Binding World} {clock : Instant} {ids : Bool} {R : World → World → Prop}

theorem Site.Alike.setWorld {s s' : Site World} (h : Site.Alike b clock ids R s s') {u v : World} (hR : R u v) :
    Site.Alike b clock ids R { s with world := u } { s' with world := v } :=
  ⟨h.binding_eq, h.binding_eq', h.clock_eq, h.clock_eq', h.issued_eq, hR⟩

theorem Dump.uniform (side : Side) : (Dump.stage side).Uniform (Site.likeness b clock ids R) 0 true := by
  refine Stage.uniform_of_cells fun w w' handed s s' h => ?_
  have hdumped (dumps dumps' : List DumpEvent) :
      Site.Alike b clock ids R { s.world with dumps } { s'.world with dumps := dumps' } :=
    ⟨h.binding_eq, h.binding_eq', h.clock_eq, h.clock_eq', h.issued_eq, h.world⟩
  cases handed with
  | request p => exact ⟨.pass (p.onMessage .noMessage record).2, _, _, hdumped _ _, rfl, rfl⟩
  | response p => exact ⟨.ret (p.onMessage .noMessage record).2, _, _, hdumped _ _, rfl, rfl⟩
  | exception e => exact ⟨.throw e, _, _, h, rfl, rfl⟩

theorem MustUnderstand.uniform (side : Side) (understood : List QName) :
    (MustUnderstand.stage side understood).Uniform (Site.likeness b clock ids R) 0 true := by
  refine Stage.uniform_of_cells fun w w' handed s s' h => ?_
  suffices ∃ m : Move, (MustUnderstand.stage side understood).call w handed s = (m.action w, s) ∧
      (MustUnderstand.stage side understood).call w' handed s' = (m.action w', s') by
    obtain ⟨m, hm, hm'⟩ := this
    exact ⟨m, _, _, h, hm, hm'⟩
  cases handed with
  | exception e => exact ⟨.throw e, rfl, rfl⟩
  | request p =>
    show ∃ m : Move, MustUnderstand.request side understood w p s = _ ∧
      MustUnderstand.request side understood w' p s' = _
    unfold MustUnderstand.request
    rw [h.binding_eq, h.binding_eq']
    split
    · split
      · rename_i p' _
        exact ⟨.pass p', rfl, rfl⟩
      · exact ⟨.ret _, rfl, rfl⟩
    · exact ⟨.pass p, rfl, rfl⟩
  | response p =>
    show ∃ m : Move, MustUnderstand.response side understood p s = _ ∧
      MustUnderstand.response side understood p s' = _
    unfold MustUnderstand.response
    rw [h.binding_eq, h.binding_eq']
    split
    · dsimp only
      split
      · exact ⟨.ret _, rfl, rfl⟩
      · split
        · exact ⟨.ret _, rfl, rfl⟩
        · exact ⟨.throw _, rfl, rfl⟩
    · exact ⟨.ret p, rfl, rfl⟩

theorem Security.uniform (side : Side) (version : Option SoapVersion) (c : SecuritySettings) :
    (Security.stage side version c).Uniform (Site.likeness b clock ids R) 0 true := by
  refine Stage.uniform_of_cells fun w w' handed s s' h => ?_
  suffices ∃ m : Move, (Security.stage side version c).call w handed s = (m.action w, s) ∧
      (Security.stage side version c).call w' handed s' = (m.action w', s') by
    obtain ⟨m, hm, hm'⟩ := this
    exact ⟨m, _, _, h, hm, hm'⟩
  cases handed with
  | exception e => exact ⟨.throw e, rfl, rfl⟩
  | response p => exact ⟨.ret p, rfl, rfl⟩
  | request p =>
    cases side with
    | client =>
      suffices ∃ m : Move, clientRequest c w p s = m.action w ∧ clientRequest c w' p s' = m.action w' by
        obtain ⟨m, hm, hm'⟩ := this
        exact ⟨m, congrArg (·, s) hm, congrArg (·, s') hm'⟩
      unfold clientRequest
      rw [h.clock_eq, h.clock_eq']
      split
      · exact ⟨.pass _, rfl, rfl⟩
      · split
        · exact ⟨.pass _, rfl, rfl⟩
        · exact ⟨.throw _, rfl, rfl⟩
    | server =>
      suffices ∃ m : Move, serverRequest version c w p s = m.action w ∧
          serverRequest version c w' p s' = m.action w' by
        obtain ⟨m, hm, hm'⟩ := this
        exact ⟨m, congrArg (·, s) hm, congrArg (·, s') hm'⟩
      unfold serverRequest
      rw [h.clock_eq, h.clock_eq']
      split
      · exact ⟨.pass _, rfl, rfl⟩
      · split
        · exact ⟨.throw _, rfl, rfl⟩
        · split
          · exact ⟨.ret _, rfl, rfl⟩
          · split
            · exact ⟨.pass _, rfl, rfl⟩
            · exact ⟨.throw _, rfl, rfl⟩

theorem Addressing.uniform_server (v : SoapVersion) (required : Bool) :
    (Addressing.stage .server v required).Uniform (Site.likeness b clock ids R) 0 true := by
  refine Stage.uniform_of_cells fun w w' handed s s' h => ?_
  cases handed with
  | exception e => exact ⟨.throw e, _, _, h, rfl, rfl⟩
  | response p => exact ⟨.ret (relate p), _, _, h, rfl, rfl⟩
  | request p =>
    suffices ∃ m : Move, serverRequest v required w p = m.action w ∧ serverRequest v required w' p = m.action w' by
      obtain ⟨m, hm, hm'⟩ := this
      exact ⟨m, _, _, h, congrArg (·, s) hm, congrArg (·, s') hm'⟩
    unfold serverRequest
    split
    · exact ⟨.pass _, rfl, rfl⟩
    · dsimp only
      split
      · exact ⟨.ret _, rfl, rfl⟩
      · exact ⟨.pass _, rfl, rfl⟩

/-- A client's addressing stage draws ids. -/
theorem Addressing.uniform_client (v : SoapVersion) (required : Bool) :
    (Addressing.stage .client v required).Uniform (Site.likeness b clock true R) 0 true := by
  refine Stage.uniform_of_cells fun w w' handed s s' h => ?_
  cases handed with
  | exception e => exact ⟨.throw e, _, _, h, rfl, rfl⟩
  | response p => exact ⟨.ret p, _, _, h, rfl, rfl⟩
  | request p =>
    have hissued := h.issued_eq rfl
    have hdrawn : Site.Alike b clock true R s.world.nextId.2 s'.world.nextId.2 :=
      ⟨h.binding_eq, h.binding_eq', h.clock_eq, h.clock_eq', fun _ => congrArg (· + 1) hissued, h.world⟩
    show ∃ (m : Move) (t t' : Site World), _ ∧ clientRequest w p s = _ ∧ clientRequest w' p s' = _
    unfold clientRequest
    rw [show s.world.nextId = (Site.idText s'.world.issued, s.world.nextId.2) by rw [← hissued]; rfl,
      show s'.world.nextId = (Site.idText s'.world.issued, s'.world.nextId.2) from rfl]
    dsimp only
    split
    · exact ⟨.pass p, _, _, hdrawn, rfl, rfl⟩
    · exact ⟨.pass _, _, _, hdrawn, rfl, rfl⟩

theorem Transport.exchange_respects (kind : BindingKind) {t : Transport World} (ht : t.Respects R)
    (p : Packet) {u v : World} (hR : R u v) :
    (exchange kind t p u).1 = (exchange kind t p v).1 ∧ R (exchange kind t p u).2 (exchange kind t p v).2 := by
  unfold exchange
  split
  · exact ⟨rfl, hR⟩
  · split
    · exact ⟨rfl, hR⟩
    · obtain ⟨hreply, hR⟩ := ht _ p.soapAction p.isOneWay u v hR
      refine ⟨?_, hR⟩
      dsimp only
      rw [hreply]

theorem Transport.uniform (kind : BindingKind) {t : Transport World} (ht : t.Respects R) :
    (Transport.stage kind t).Uniform (Site.likeness b clock ids R) 0 true := by
  refine Stage.uniform_of_cells fun w w' handed s s' h => ?_
  cases handed with
  | exception e => exact ⟨.throw e, _, _, h, rfl, rfl⟩
  | response p => exact ⟨.ret p, _, _, h, rfl, rfl⟩
  | request p =>
    obtain ⟨hresponse, hR⟩ := exchange_respects kind ht p h.world
    rcases hsent : exchange kind t p s.world.world with ⟨r, u⟩
    rcases hsent' : exchange kind t p s'.world.world with ⟨r', u'⟩
    rw [hsent, hsent'] at hresponse hR
    obtain rfl : r = r' := hresponse
    cases r with
    | ok q =>
      refine ⟨.ret q, _, _, h.setWorld hR, ?_, ?_⟩
      · simp only [Stage.call, Transport.stage, hsent, Move.action]
      · simp only [Stage.call, Transport.stage, hsent', Move.action]
    | error e =>
      refine ⟨.throw e, _, _, h.setWorld hR, ?_, ?_⟩
      · simp only [Stage.call, Transport.stage, hsent, Move.action]
      · simp only [Stage.call, Transport.stage, hsent', Move.action]

theorem Invoker.invoke_respects {e : Endpoint World} (he : ∀ o ∈ e.operations, o.Respects R)
    (p : Packet) {u v : World} (hR : R u v) :
    (invoke e p u).1 = (invoke e p v).1 ∧ R (invoke e p u).2 (invoke e p v).2 := by
  unfold invoke
  split
  · exact ⟨rfl, hR⟩
  · rename_i o p' hdispatch
    split
    · exact ⟨rfl, hR⟩
    · obtain ⟨houtput, hR⟩ := he o (Endpoint.mem_of_dispatch (congrArg Prod.fst hdispatch)) _ u v hR
      exact ⟨congrArg (answer e.kind o.oneWay _) houtput, hR⟩

theorem Invoker.uniform {e : Endpoint World} (he : ∀ o ∈ e.operations, o.Respects R) :
    (Invoker.stage e).Uniform (Site.likeness b clock ids R) 0 true := by
  refine Stage.uniform_of_cells fun w w' handed s s' h => ?_
  cases handed with
  | exception e => exact ⟨.throw e, _, _, h, rfl, rfl⟩
  | response p => exact ⟨.ret p, _, _, h, rfl, rfl⟩
  | request p =>
    obtain ⟨hanswer, hR⟩ := invoke_respects he p h.world
    refine ⟨.ret (invoke e p s'.world.world).1, _, _, h.setWorld hR, ?_, rfl⟩
    rw [← hanswer]
    rfl

namespace HandlerStage

variable {w w' : Wiring} {c c' : CellId} {s₀ s₀' s s' : SiteStore World} {h : HandlerStage}

/-- Two stores in the midst of the same callback of a stage with one cell. -/
theorem abreast_setExchange (hw : w.cells = [c]) (hw' : w'.cells = [c']) (hroom : c < s₀.cells.length)
    (hroom' : c' < s₀'.cells.length) (hwithin : s₀.Within (· ∈ w.cells) s)
    (hwithin' : s₀'.Within (· ∈ w'.cells) s') (halike : Site.Alike b clock ids R s.world s'.world)
    {x : HandlerExchange World} (hx : x.Respects R) {u v : World} (hR : R u v) :
    Abreast (Site.likeness b clock ids R) w w' s₀ s₀' (setExchange w x (setWorld s u))
      (setExchange w' x (setWorld s' v)) := by
  have hset {w : Wiring} {c : CellId} {s₀ s : SiteStore World} (hw : w.cells = [c])
    (hwithin : s₀.Within (· ∈ w.cells) s)
      (u : World) : s₀.Within (· ∈ w.cells) (setExchange w x (setWorld s u)) := by
    refine hwithin.trans ⟨List.length_set, fun d hd => List.getElem?_set_ne ?_⟩
    rintro rfl
    exact hd (by rw [cellOf, hw]; exact List.mem_singleton_self _)
  have hcell {w : Wiring} {c : CellId} {s₀ s : SiteStore World} (hw : w.cells = [c]) (hroom : c < s₀.cells.length)
      (hwithin : s₀.Within (· ∈ w.cells) s) (u : World) : (setExchange w x (setWorld s u)).cell c = x := by
    have hroom : c < (setWorld s u).cells.length := by
      show c < s.cells.length
      rwa [hwithin.length]
    rw [setExchange, show cellOf w = c by rw [cellOf, hw]; rfl, Store.cell, Store.setCell, List.getD_eq_getElem?_getD,
      List.getElem?_set_self hroom, Option.getD_some]
  refine ⟨halike.setWorld hR, hset hw hwithin u, hset hw' hwithin' v, ?_⟩
  rw [Likeness.Cells, hw, hw']
  exact .cons ⟨(hcell hw hroom hwithin u).trans (hcell hw' hroom' hwithin' v).symm,
    (hcell hw hroom hwithin u).symm ▸ hx⟩ .nil

/-- What both stores hold, at a stage with one cell. -/
theorem cell_of_abreast (hw : w.cells = [c]) (hw' : w'.cells = [c'])
    (hs : Abreast (Site.likeness b clock ids R) w w' s₀ s₀' s s') :
    s.cell (cellOf w) = s'.cell (cellOf w') ∧ (s'.cell (cellOf w')).Respects R := by
  have hcells := hs.cells
  rw [Likeness.Cells, hw, hw'] at hcells
  obtain ⟨⟨heq, hrespects⟩, -⟩ := List.forall₂_cons.mp hcells
  rw [show cellOf w = c by rw [cellOf, hw]; rfl, show cellOf w' = c' by rw [cellOf, hw']; rfl]
  exact ⟨heq, heq ▸ hrespects⟩

section

variable (hw : w.cells = [c]) (hw' : w'.cells = [c']) (hroom : c < s₀.cells.length) (hroom' : c' < s₀'.cells.length)

include hw hw' hroom hroom'

theorem abreast_close (hs : Abreast (Site.likeness b clock ids R) w w' s₀ s₀' s s') (p : Packet) :
    (h.close w p s).1 = (h.close w' p s').1 ∧
      Abreast (Site.likeness b clock ids R) w w' s₀ s₀' (h.close w p s).2 (h.close w' p s').2 := by
  obtain ⟨hx, hrespects⟩ := cell_of_abreast hw hw' hs
  unfold close
  rw [hx]
  generalize s'.cell (cellOf w') = x at hrespects
  have hfirst : ∃ y q u v, (if h.paired && (x.leg h.kind).successful then x.closeLeg (cousin h.kind) p s.world.world
        else (x, p, s.world.world)) = (y, q, u) ∧
      (if h.paired && (x.leg h.kind).successful then x.closeLeg (cousin h.kind) p s'.world.world
        else (x, p, s'.world.world)) = (y, q, v) ∧ R u v ∧ y.Respects R := by
    split
    · obtain ⟨hy, hclose⟩ := HandlerExchange.alike_closeLeg hrespects (cousin h.kind) p hs.alike.world
      obtain ⟨y, q, u, v, hu, hv, hR⟩ := hclose.parts
      exact ⟨y, q, u, v, hu, hv, hR, by rwa [hu] at hy⟩
    · exact ⟨x, p, _, _, rfl, rfl, hs.alike.world, hrespects⟩
  obtain ⟨y, q, u, v, hu, hv, hR, hy⟩ := hfirst
  obtain ⟨hz, hclose⟩ := HandlerExchange.alike_closeLeg hy h.kind q hR
  obtain ⟨z, q', u', v', hu', hv', hR'⟩ := hclose.parts
  rw [hu'] at hz
  simp only [hu, hv, hu', hv', true_and]
  exact abreast_setExchange hw hw' hroom hroom' hs.within hs.within' hs.alike hz hR'

theorem abreast_closeIfDue (hs : Abreast (Site.likeness b clock ids R) w w' s₀ s₀' s s') (p : Packet) :
    (h.closeIfDue w p s).1 = (h.closeIfDue w' p s').1 ∧
      Abreast (Site.likeness b clock ids R) w w' s₀ s₀' (h.closeIfDue w p s).2 (h.closeIfDue w' p s').2 := by
  unfold closeIfDue
  split
  · exact abreast_close hw hw' hroom hroom' hs p
  · exact ⟨rfl, hs⟩

omit hroom hroom' in
theorem abreast_callResponse (hs : Abreast (Site.likeness b clock ids R) w w' s₀ s₀' s s') (p : Packet) :
    (h.callResponse w p s).1 = (h.callResponse w' p s').1 ∧
      (h.callResponse w p s).2.1 = (h.callResponse w' p s').2.1 ∧
      Abreast (Site.likeness b clock ids R) w w' s₀ s₀' (h.callResponse w p s).2.2
        (h.callResponse w' p s').2.2 := by
  obtain ⟨hx, hrespects⟩ := cell_of_abreast hw hw' hs
  unfold callResponse
  rw [hx]
  split
  · exact ⟨rfl, rfl, hs⟩
  · rename_i P hP
    split
    · exact ⟨rfl, rfl, hs⟩
    · obtain ⟨r, q, u, v, hu, hv, hR⟩ :=
        (Processor.alike_callResponse (hrespects h.kind P hP) p.isFault.2 p.isFault.1 hs.alike.world).parts
      simp only [hu, hv, true_and]
      exact ⟨hs.alike.setWorld hR, ⟨hs.within.length, hs.within.rest⟩,
        ⟨hs.within'.length, hs.within'.rest⟩, hs.cells⟩

theorem twins_response (hs : Abreast (Site.likeness b clock ids R) w w' s₀ s₀' s s') (p : Packet) :
    Twins (Site.likeness b clock ids R) w w' s₀ s₀' (h.response w p s) (h.response w' p s') := by
  obtain ⟨hresult, hp, hs⟩ := abreast_callResponse (h := h) hw hw' hs p
  unfold response
  rcases hcall : h.callResponse w p s with ⟨r, q, t⟩
  rcases hcall' : h.callResponse w' p s' with ⟨r', q', t'⟩
  rw [hcall, hcall'] at hresult hp hs
  obtain rfl : r = r' := hresult
  obtain rfl : q = q' := hp
  obtain ⟨hp, hs⟩ := abreast_closeIfDue (h := h) hw hw' hroom hroom' hs q
  dsimp only
  cases r with
  | error e => exact ⟨hs, .throw (.handler e), rfl, rfl⟩
  | ok _ => exact ⟨hs, .ret (h.closeIfDue w' q t').1, congrArg NextAction.ret hp, rfl⟩

theorem twins_request (hb : ∀ g ∈ b.handlerConfig.chain, g.Respects R) (hwithin : s₀.Within (· ∈ w.cells) s)
    (hwithin' : s₀'.Within (· ∈ w'.cells) s') (halike : Site.Alike b clock ids R s.world s'.world)
    (hx : h.start (s.cell (cellOf w)) = h.start (s'.cell (cellOf w')))
    (hrespects : (h.start (s'.cell (cellOf w'))).Respects R) (p : Packet) :
    Twins (Site.likeness b clock ids R) w w' s₀ s₀' (h.request w p s) (h.request w' p s') := by
  unfold request
  rw [hx, halike.binding_eq, halike.binding_eq']
  generalize h.start (s'.cell (cellOf w')) = x at hrespects
  dsimp only
  split
  · have hlegs : (x.setLeg h.kind { x.leg h.kind with successful := true }).Respects R :=
      hrespects.setLeg h.kind (hrespects h.kind)
    exact ⟨abreast_setExchange hw hw' hroom hroom' hwithin hwithin' halike hlegs halike.world, .pass p, rfl, rfl⟩
  · have hhandlers :
        (Processor.new (b.handlerConfig.handlers h.kind) b.handlerConfig.roles h.side b.version?).Respects R :=
      fun g hg => hb g (List.mem_of_mem_filter hg)
    obtain ⟨hP, hresult, hcall⟩ := Processor.alike_callRequest hhandlers p p.isOneWay halike.world
    obtain ⟨P, q, u, v, hu, hv, hR⟩ := hcall.parts
    rcases hcalled :
      (Processor.new (b.handlerConfig.handlers h.kind) b.handlerConfig.roles h.side b.version?).callRequest
        p p.isOneWay s.world.world with ⟨r, rest⟩
    rcases hcalled' :
      (Processor.new (b.handlerConfig.handlers h.kind) b.handlerConfig.roles h.side b.version?).callRequest
        p p.isOneWay s'.world.world with ⟨r', rest'⟩
    rw [hcalled] at hP hresult hu
    rw [hcalled'] at hresult hv
    obtain rfl : r = r' := hresult
    obtain rfl : rest = (P, q, u) := hu
    obtain rfl : rest' = (P, q, v) := hv
    have hset (passed : Bool) := abreast_setExchange hw hw' hroom hroom' hwithin hwithin' halike
      (hrespects.setLeg h.kind (l := ⟨some P, passed⟩) (by rintro _ ⟨⟩; exact hP)) hR
    rcases r with e | goes
    · exact ⟨(abreast_closeIfDue hw hw' hroom hroom' (hset false) q).2, .throw (.handler e), rfl, rfl⟩
    · cases goes with
      | true => exact ⟨hset true, .pass q, rfl, rfl⟩
      | false =>
        obtain ⟨hp, hs⟩ := abreast_closeIfDue (h := h) hw hw' hroom hroom' (hset false)
          (if p.isOneWay then q.setMessage none else q)
        exact ⟨hs, .ret _, congrArg NextAction.ret hp, rfl⟩

end

theorem start_of_closes (hcloses : h.closes = true) (x : HandlerExchange World) : h.start x = .fresh := by
  rw [start, if_pos hcloses]

/-- A handler stage is uniform. The one that closes starts. -/
theorem uniform (hb : ∀ g ∈ b.handlerConfig.chain, g.Respects R) {starts : Bool}
    (hstarts : starts = true → h.closes = true) :
    (h.stage : SiteStage World).Uniform (Site.likeness b clock ids R) 1 starts := by
  constructor
  intro w w' handed s s' hw hw' hroom hroom' halike hcells
  obtain ⟨c, hw⟩ := List.length_eq_one_iff.mp hw
  obtain ⟨c', hw'⟩ := List.length_eq_one_iff.mp hw'
  have hroom : c < s.cells.length := hroom c (by rw [hw]; exact List.mem_singleton_self c)
  have hroom' : c' < s'.cells.length := hroom' c' (by rw [hw']; exact List.mem_singleton_self c')
  rcases hcells with hcells | ⟨rfl, p, rfl⟩
  · have hs : Abreast (Site.likeness b clock ids R) w w' s s' s s' := ⟨halike, .refl _ s, .refl _ s', hcells⟩
    obtain ⟨hx, hrespects⟩ := cell_of_abreast hw hw' hs
    cases handed with
    | response p => exact twins_response hw hw' hroom hroom' hs p
    | exception e =>
      exact ⟨(abreast_closeIfDue hw hw' hroom hroom' hs .empty).2, .throw e, rfl, rfl⟩
    | request p =>
      refine twins_request hw hw' hroom hroom' hb hs.within hs.within' halike (congrArg h.start hx) ?_ p
      unfold start
      split
      · exact .fresh
      · exact hrespects.setLeg h.kind (by rintro _ ⟨⟩)
  · have hfresh := @start_of_closes World _ (hstarts rfl)
    refine twins_request hw hw' hroom hroom' hb (.refl _ s) (.refl _ s') halike (by rw [hfresh, hfresh]) ?_ p
    rw [hfresh]
    exact .fresh

end HandlerStage

end

end SoapNode
