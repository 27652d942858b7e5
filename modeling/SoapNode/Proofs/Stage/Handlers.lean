import SoapNode.Assembly
import SoapNode.Proofs.Handler.Exchange
import SoapNode.Proofs.Tube.Fiber

/-!
# The pair of handler stages closes once

A request runs through the outer stage, the inner one and whatever tube stands behind them. It may turn
around in each of them and fail on either way. Wherever it does, the exchange stays midway until the
outer stage closes, and then nothing is left to close for the next exchange or for the end of the chain.
-/

namespace SoapNode

open Numbered

variable {World : Type}

abbrev SiteTube (World : Type) := Tube (HandlerExchange World) (Site World)

def record (s : SiteStore (World × List Event)) : List Event := s.world.world.2

/-- The handlers of the binding write to the record. -/
def Recorded (s : SiteStore (World × List Event)) : Prop :=
  ∃ hs : List (Handler World), s.world.binding.handlerConfig.chain = recordAll hs

/-- What a tube that is no part of the pair does not touch. -/
structure Keeps (c : CellId) (s s' : SiteStore (World × List Event)) : Prop where
  cell : s'.cells[c]? = s.cells[c]?
  record_eq : record s' = record s
  recorded : Recorded s → Recorded s'

theorem Store.cell_setCell {Cell : Type} [Inhabited Cell] {s : Store Cell World} {c : CellId} (h : c < s.cells.length)
    (x : Cell) : (s.setCell c x).cell c = x := by
  rw [Store.cell, Store.setCell, List.getD_eq_getElem?_getD, List.getElem?_set_self h, Option.getD_some]

/-- A store in the midst of an exchange that has made these calls. -/
structure Running (side : Side) (c : CellId) (hs : List (Handler World)) (old calls : List Event)
    (s : SiteStore (World × List Event)) : Prop where
  room : c < s.cells.length
  recorded : Recorded s
  record_eq : record s = old ++ calls
  midway : Midway side hs (s.cell c) calls

/-- A store after an exchange. A chain that is destroyed then has nothing to close. -/
structure Ended (side : Side) (c : CellId) (s : SiteStore (World × List Event)) : Prop where
  room : c < s.cells.length
  recorded : Recorded s
  shut : ((s.cell c).leg (HandlerStage.outerKind side)).Shut
  shutInner : ((s.cell c).leg (HandlerStage.outerKind side)).successful = true →
    ((s.cell c).leg (innerKind side)).Shut

theorem Running.keep {side : Side} {c : CellId} {hs : List (Handler World)} {old calls : List Event}
    {s s' : SiteStore (World × List Event)} (h : Running side c hs old calls s) (hkeeps : Keeps c s s') :
    Running side c hs old calls s' := by
  have hcell : s'.cell c = s.cell c := by
    rw [Store.cell, Store.cell, List.getD_eq_getElem?_getD, List.getD_eq_getElem?_getD, hkeeps.cell]
  refine ⟨?_, hkeeps.recorded h.recorded, hkeeps.record_eq.trans h.record_eq, ?_⟩
  · have hcells := hkeeps.cell
    rw [List.getElem?_eq_getElem h.room] at hcells
    exact (List.getElem?_eq_some_iff.mp hcells).1
  · rw [hcell]
    exact h.midway

namespace HandlerStage

def outer (side : Side) : HandlerStage := ⟨outerKind side, side, true⟩

def inner (side : Side) : HandlerStage := ⟨innerKind side, side, true⟩

theorem closes_outer (side : Side) : (outer side).closes = true := by
  cases side <;> rfl

theorem closes_inner (side : Side) : (inner side).closes = false := by
  cases side <;> rfl

variable {side : Side} {c : CellId} {hs : List (Handler World)} {old calls : List Event} {w : Wiring} {next : TubeId}
  {s : SiteStore (World × List Event)}

theorem closeIfDue_inner (p : Packet) (s : SiteStore World) : (inner side).closeIfDue w p s = (p, s) := by
  rw [closeIfDue, closes_inner]
  rfl

theorem closeIfDue_outer (p : Packet) (s : SiteStore World) :
    (outer side).closeIfDue w p s = (outer side).close w p s := by
  rw [closeIfDue, closes_outer]
  rfl

theorem cell_setExchange (hcell : cellOf w = c) (hroom : c < s.cells.length) (x : HandlerExchange (World × List Event))
    (v : World × List Event) : (setExchange w x (setWorld s v)).cell c = x := by
  rw [setExchange, hcell]
  exact Store.cell_setCell (s := setWorld s v) hroom x

theorem ended_setExchange (hcell : cellOf w = c) (h : Running side c hs old calls s)
    {x : HandlerExchange (World × List Event)} {v : World × List Event} (hshut : (x.leg (outerKind side)).Shut)
    (hinner : (x.leg (outerKind side)).successful = true → (x.leg (innerKind side)).Shut) :
    Ended side c (setExchange w x (setWorld s v)) := by
  have hx := cell_setExchange hcell h.room x v
  refine ⟨?_, h.recorded, ?_, ?_⟩
  · rw [setExchange, Store.setCell, List.length_set]
    exact h.room
  · rw [hx]
    exact hshut
  · rw [hx]
    exact hinner

theorem close_of_passed {x : HandlerExchange World} {s : SiteStore World} (hx : s.cell (cellOf w) = x)
    (h : (x.leg (outerKind side)).successful = true) (p : Packet) : (outer side).close w p s =
      let first := x.closeLeg (innerKind side) p s.world.world
      let second := first.1.closeLeg (outerKind side) first.2.1 first.2.2
      (second.2.1, setExchange w second.1 (setWorld s second.2.2)) := by
  rw [close, hx]
  simp only [outer, h, Bool.and_self, if_true]

theorem close_of_turned {x : HandlerExchange World} {s : SiteStore World} (hx : s.cell (cellOf w) = x)
    (h : (x.leg (outerKind side)).successful = false) (p : Packet) : (outer side).close w p s =
      let first := x.closeLeg (outerKind side) p s.world.world
      (first.2.1, setExchange w first.1 (setWorld s first.2.2)) := by
  rw [close, hx]
  simp only [outer, h, Bool.and_false, Bool.false_eq_true, if_false]

theorem close_running (hcell : cellOf w = c) (h : Running side c hs old calls s) (p : Packet) :
    ∃ events, record ((outer side).close w p s).2 = old ++ events ∧ ClosesOnce side events ∧
      Ended side c ((outer side).close w p s).2 := by
  obtain ⟨inner, hinner, hinnerSaw, hinnerCalls⟩ := h.midway.saw (innerKind side)
  obtain ⟨outer, houter, houterSaw, houterCalls⟩ := h.midway.saw (outerKind side)
  have hcloses := h.midway.closesOnce hinner houter hinnerCalls houterCalls side.requestDirection.reverse
  have hx : s.cell (cellOf w) = s.cell c := by rw [hcell]
  refine ⟨_, ?_, hcloses, ?_⟩
  all_goals
    cases hpassed : ((s.cell c).leg (outerKind side)).successful
  · have hnone : inner = [] := by
      rw [h.midway.blocked hpassed] at hinnerCalls
      exact List.map_eq_nil_iff.mp hinnerCalls.symm
    have hrecord := HandlerExchange.closeLeg_saw houterSaw p s.world.world
    rw [close_of_turned hx hpassed, hnone, List.reverse_nil, List.nil_append]
    exact hrecord.trans (by rw [show s.world.world.2 = old ++ calls from h.record_eq, List.append_assoc])
  · have hfirst := HandlerExchange.closeLeg_saw hinnerSaw p s.world.world
    rw [← HandlerExchange.leg_closeLeg_of_ne (innerKind_ne side).symm _ p s.world.world] at houterSaw
    have hsecond := HandlerExchange.closeLeg_saw houterSaw ((s.cell c).closeLeg (innerKind side) p s.world.world).2.1
      ((s.cell c).closeLeg (innerKind side) p s.world.world).2.2
    rw [close_of_passed hx hpassed]
    refine hsecond.trans ?_
    rw [hfirst, show s.world.world.2 = old ++ calls from h.record_eq, List.map_append,
      List.append_assoc, List.append_assoc]
  · rw [close_of_turned hx hpassed]
    apply ended_setExchange hcell h (HandlerExchange.shut_closeLeg _ _ _ _)
    rw [HandlerExchange.successful_closeLeg, hpassed]
    rintro ⟨⟩
  · rw [close_of_passed hx hpassed]
    apply ended_setExchange hcell h (HandlerExchange.shut_closeLeg _ _ _ _)
    intro _
    rw [HandlerExchange.leg_closeLeg_of_ne (innerKind_ne side)]
    exact HandlerExchange.shut_closeLeg _ _ _ _

theorem destroy_ended (hcell : cellOf w = c) (h : Ended side c s) :
    record (((outer side).stage).destroy w s) = record s := by
  have hx : s.cell (cellOf w) = s.cell c := by rw [hcell]
  show record ((outer side).closeIfDue w .empty s).2 = record s
  rw [closeIfDue_outer]
  cases hpassed : ((s.cell c).leg (outerKind side)).successful with
  | false =>
    rw [close_of_turned hx hpassed, HandlerExchange.closeLeg_shut h.shut]
    rfl
  | true =>
    rw [close_of_passed hx hpassed, HandlerExchange.closeLeg_shut (h.shutInner hpassed)]
    simp only [HandlerExchange.closeLeg_shut h.shut]
    rfl

variable {h : HandlerStage}

theorem running_setExchange (hcell : cellOf w = c) (hroom : c < s.cells.length) (hrecorded : Recorded s)
    {x : HandlerExchange (World × List Event)} {v : World × List Event} (hrecord : v.2 = old ++ calls)
    (hmid : Midway side hs x calls) : Running side c hs old calls (setExchange w x (setWorld s v)) := by
  refine ⟨?_, hrecorded, hrecord, ?_⟩
  · rw [setExchange, Store.setCell, List.length_set]
    exact hroom
  · rw [cell_setExchange hcell hroom]
    exact hmid

theorem request_running (hside : h.side = side) (hcell : cellOf w = c) (hnext : w.next? = some next)
    (hroom : c < s.cells.length) (hchain : s.world.binding.handlerConfig.chain = recordAll hs)
    (hrecord : record s = old ++ calls) (hmid : Midway side hs (h.start (s.cell c)) calls)
    (hturn : h.kind = outerKind side ∧ calls = [] ∨ h.kind = innerKind side ∧
      ((h.start (s.cell c)).leg (outerKind side)).successful = true ∧
      requested side.requestDirection h.kind calls = [])
    (p : Packet) :
    ∃ s₁ calls₁, Running side c hs old calls₁ s₁ ∧ s₁.world.binding = s.world.binding ∧
      (h.kind = outerKind side → requested side.requestDirection (innerKind side) calls₁ = []) ∧
      ((∃ p', h.request w p s = (.invoke next p', s₁) ∧ ((s₁.cell c).leg h.kind).successful = true) ∨
        ∃ action r p', h.request w p s = (action, (h.closeIfDue w p' s₁).2) ∧ action.result? = some r) := by
  have hrecorded : Recorded s := ⟨hs, hchain⟩
  have hinvoke : ∀ p', w.invokeNext p' = .invoke next p' := by
    intro p'
    rw [Wiring.invokeNext, hnext]
  rw [request, hcell]
  simp only [handlers_recordAll hchain, hinvoke]
  split
  · refine ⟨_, calls, running_setExchange (v := s.world.world) hcell hroom hrecorded hrecord hmid.pass, rfl, ?_,
      .inl ⟨p, rfl, ?_⟩⟩
    · intro houter
      rcases hturn with ⟨-, rfl⟩ | ⟨hinner, -⟩
      · rfl
      · exact absurd (hinner.symm.trans houter) (innerKind_ne side)
    · have hx := cell_setExchange hcell hroom
        ((h.start (s.cell c)).setLeg h.kind { (h.start (s.cell c)).leg h.kind with successful := true }) s.world.world
      exact (congrArg (fun x => (x.leg h.kind).successful) hx).trans (by rw [HandlerExchange.leg_setLeg])
  · obtain ⟨seen, hinitial, hsaw, v, hv, hadds⟩ := Processor.saw_callRequest
      (P := .new ((ofKind h.kind hs).map recorded) s.world.binding.handlerConfig.roles h.side s.world.binding.version?)
      rfl p p.isOneWay s.world.world
    obtain ⟨back, hback, hv'⟩ := hadds
    have hdirection : (Processor.new ((ofKind h.kind hs).map recorded) s.world.binding.handlerConfig.roles h.side
      s.world.binding.version?).side = side := hside
    rw [hdirection] at hsaw hv hback
    rcases hcall : (Processor.new ((ofKind h.kind hs).map recorded) s.world.binding.handlerConfig.roles h.side
      s.world.binding.version?).callRequest p p.isOneWay s.world.world with ⟨result, P', p', v'⟩
    rw [hcall] at hsaw hv'
    have hmid' (passed : Bool) := (hmid.call passed hinitial hsaw hturn).append hback
    have hrecord' : v'.2 = old ++ (calls ++ seen.map (event .message side.requestDirection) ++ back) := by
      rw [show v'.2 = v.2 ++ back from hv', hv, show s.world.world.2 = old ++ calls from hrecord, List.append_assoc,
        List.append_assoc, List.append_assoc]
    have hrunning (passed : Bool) := running_setExchange hcell hroom hrecorded hrecord' (hmid' passed)
    have hnone : h.kind = outerKind side → requested side.requestDirection (innerKind side)
        (calls ++ seen.map (event .message side.requestDirection) ++ back) = [] := by
      intro houter
      rcases hturn with ⟨-, rfl⟩ | ⟨hinner, -⟩
      · rw [requested_append, requested_along (requestDirection_reverse_ne side) hback,
          List.nil_append, List.append_nil]
        exact requested_other (innerKind_ne side).symm (fun n hn => (kind_of_ofKind (hinitial.subset hn)).trans houter)
      · exact absurd (hinner.symm.trans houter) (innerKind_ne side)
    rcases result with e | goes
    · refine ⟨_, _, hrunning false, rfl, hnone, .inr ⟨_, _, p', rfl, rfl⟩⟩
    · cases goes with
      | true =>
        refine ⟨_, _, hrunning true, rfl, hnone, .inl ⟨p', rfl, ?_⟩⟩
        rw [cell_setExchange hcell hroom, HandlerExchange.leg_setLeg]
      | false => exact ⟨_, _, hrunning false, rfl, hnone, .inr ⟨_, _, _, rfl, rfl⟩⟩

theorem callResponse_running (hcell : cellOf w = c) (hrun : Running side c hs old calls s) (p : Packet) :
    ∃ calls₁, Running side c hs old calls₁ (h.callResponse w p s).2.2 := by
  rw [callResponse, hcell]
  split
  · exact ⟨calls, hrun⟩
  · rename_i P hleg
    split
    · exact ⟨calls, hrun⟩
    · obtain ⟨seen, -, hsaw, -⟩ := hrun.midway.saw h.kind
      rw [Leg.Saw, hleg] at hsaw
      obtain ⟨back, hback, hv⟩ := Processor.adds_callResponse hsaw p.isFault.2 p.isFault.1 s.world.world
      refine ⟨calls ++ back, hrun.room, hrun.recorded, ?_, hrun.midway.append hback⟩
      rw [← List.append_assoc, ← hrun.record_eq]
      exact hv

theorem back_running (hcell : cellOf w = c) (hrun : Running side c hs old calls s) (r : Except RuntimeError Packet) :
    ∃ s₁ calls₁, Running side c hs old calls₁ s₁ ∧
      ∃ (action : NextAction) (r' : Except RuntimeError Packet) (p' : Packet),
      (match r with
        | .ok p => h.stage.response w p s
        | .error e => h.stage.exception w e s) = (action, (h.closeIfDue w p' s₁).2) ∧ action.result? = some r' := by
  cases r with
  | error e => exact ⟨s, calls, hrun, .throw e, .error e, .empty, rfl, rfl⟩
  | ok p =>
    obtain ⟨calls₁, hrun₁⟩ := callResponse_running (h := h) hcell hrun p
    refine ⟨_, calls₁, hrun₁, ?_⟩
    show ∃ action r' p', h.response w p s = _ ∧ _
    rw [response]
    rcases h.callResponse w p s with ⟨result, p', s₁⟩
    cases result with
    | error e => exact ⟨.throw (.handler e), _, p', rfl, rfl⟩
    | ok goes => exact ⟨.ret (h.closeIfDue w p' s₁).1, _, p', rfl, rfl⟩

end HandlerStage

/-- The tubes of a pair on a plant, and that what stands behind them answers at once and leaves them alone. -/
structure Paired (side : Side) (c : CellId) (tubes : List (SiteTube (World × List Event)))
    (outer inner next : TubeId) : Prop where
  outer_eq : tubes[outer]? = some ⟨(HandlerStage.outer side).stage, [inner], [c]⟩
  inner_eq : tubes[inner]? = some ⟨(HandlerStage.inner side).stage, [next], [c]⟩
  next_answers : ∀ p s, c < s.cells.length → ∃ action r s',
    (Plant.callbacks tubes).request next p s = (action, s') ∧
    action.result? = some r ∧ Keeps c s s'

namespace Paired

open HandlerStage

variable {side : Side} {c : CellId} {tubes : List (SiteTube (World × List Event))}
  {outer inner next : TubeId} {hs : List (Handler World)} {old calls : List Event} {s : SiteStore (World × List Event)}

theorem settles_inner (h : Paired side c tubes outer inner next) (hrun : Running side c hs old calls s)
    (hchain : s.world.binding.handlerConfig.chain = recordAll hs)
    (hpassed : ((s.cell c).leg (outerKind side)).successful = true)
    (hnone : requested side.requestDirection (innerKind side) calls = []) (p : Packet) :
    ∃ r s' calls', Fiber.Settles (Plant.callbacks tubes) inner p s r s' ∧ Running side c hs old calls' s' := by
  have hstart : (HandlerStage.inner side).start (s.cell c) = (s.cell c).setLeg (innerKind side) .fresh := by
    rw [start, closes_inner]
    rfl
  have hmid : Midway side hs ((HandlerStage.inner side).start (s.cell c)) calls := by
    rw [hstart]
    exact hrun.midway.renew hnone
  have hpassed' : (((HandlerStage.inner side).start (s.cell c)).leg (outerKind side)).successful = true := by
    rw [hstart, HandlerExchange.leg_setLeg_of_ne (innerKind_ne side).symm]
    exact hpassed
  obtain ⟨s₁, calls₁, hrun₁, -, -, hrequest⟩ :=
    request_running (h := HandlerStage.inner side) (w := ⟨inner, [next], [c]⟩)
      rfl rfl rfl hrun.room hchain hrun.record_eq hmid (.inr ⟨rfl, hpassed', hnone⟩) p
  have heq := Plant.request_eq h.inner_eq p s
  rcases hrequest with ⟨p', hrequest, -⟩ | ⟨action, r, p', hrequest, hresult⟩
  · obtain ⟨action, r, s₂, hnext, hresult, hkeeps⟩ := h.next_answers p' s₁ hrun₁.room
    have hrun₂ := hrun₁.keep hkeeps
    obtain ⟨s₃, calls₃, hrun₃, action', r', p'', hback, hresult'⟩ :=
      back_running (h := HandlerStage.inner side) (w := ⟨inner, [next], [c]⟩) rfl hrun₂ r
    rw [closeIfDue_inner] at hback
    refine ⟨r', s₃, calls₃, ?_, hrun₃⟩
    exact .invokes (heq.trans hrequest) (.answers hnext hresult)
      ((Plant.back_eq h.inner_eq r s₂).trans hback) hresult'
  · rw [closeIfDue_inner] at hrequest
    exact ⟨r, s₁, calls₁, .answers (heq.trans hrequest) hresult, hrun₁⟩

/-- One exchange closes what it has called, once. -/
theorem settles_outer (h : Paired side c tubes outer inner next) (hroom : c < s.cells.length) (hrecorded : Recorded s)
    (p : Packet) :
    ∃ r s' events, Fiber.Settles (Plant.callbacks tubes) outer p s r s' ∧
      record s' = record s ++ events ∧ ClosesOnce side events ∧ Ended side c s' := by
  obtain ⟨hs, hchain⟩ := hrecorded
  have hstart : (HandlerStage.outer side).start (s.cell c) = .fresh := by
    rw [start, closes_outer]
    rfl
  have hmid : Midway side hs ((HandlerStage.outer side).start (s.cell c)) [] := by
    rw [hstart]
    exact .fresh side hs
  obtain ⟨s₁, calls₁, hrun₁, hbinding, hnone, hrequest⟩ := request_running (h := HandlerStage.outer side)
    (w := ⟨outer, [inner], [c]⟩) rfl rfl rfl hroom hchain (List.append_nil (record s)).symm
    hmid (.inl ⟨rfl, rfl⟩) p
  have heq := Plant.request_eq h.outer_eq p s
  rcases hrequest with ⟨p', hrequest, hpassed⟩ | ⟨action, r, p', hrequest, hresult⟩
  · rw [← hbinding] at hchain
    obtain ⟨r, s₂, calls₂, hsettles, hrun₂⟩ := h.settles_inner hrun₁ hchain hpassed (hnone rfl) p'
    obtain ⟨s₃, calls₃, hrun₃, action', r', p'', hback, hresult'⟩ :=
      back_running (h := HandlerStage.outer side) (w := ⟨outer, [inner], [c]⟩) rfl hrun₂ r
    rw [closeIfDue_outer] at hback
    obtain ⟨events, hrecord, hcloses, hended⟩ := close_running (w := ⟨outer, [inner], [c]⟩) rfl hrun₃ p''
    refine ⟨r', _, events, ?_, hrecord, hcloses, hended⟩
    exact .invokes (heq.trans hrequest) hsettles ((Plant.back_eq h.outer_eq r s₂).trans hback) hresult'
  · rw [closeIfDue_outer] at hrequest
    obtain ⟨events, hrecord, hcloses, hended⟩ := close_running (w := ⟨outer, [inner], [c]⟩) rfl hrun₁ p'
    exact ⟨r, _, events, .answers (heq.trans hrequest) hresult, hrecord, hcloses, hended⟩

end Paired

end SoapNode
