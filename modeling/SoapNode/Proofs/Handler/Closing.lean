import SoapNode.Proofs.Stage.Handlers
import SoapNode.Proofs.Tube.Runs

/-!
# Handlers are closed once, in order

The pair of handler stages stands in front of any tube that answers. Whatever the handlers and that tube
do, each exchange of a sequence closes exactly the handlers that its request called, after all other
calls, and the end of the chain closes nothing more.
-/

namespace SoapNode

open HandlerStage

variable {World : Type}

/-- A tube that answers each request at once and, like all tubes behind it when they are destroyed, leaves the exchange
of the pair and the record of its handlers alone. -/
structure Downstream (p : SitePlant (World × List Event)) (next : TubeId) : Prop where
  answers : ∃ t, p.tubes[next]? = some t ∧ ∀ packet s, ∃ action r s',
    t.stage.request ⟨next, t.successors, t.cells⟩ packet s = (action, s') ∧ action.result? = some r ∧
      Keeps p.store.cells.length s s'
  destroyed : ∀ (id : TubeId) (t : SiteTube (World × List Event)) s, p.tubes[id]? = some t →
    record (t.stage.destroy ⟨id, t.successors, t.cells⟩ s) = record s

namespace Layer

variable {kind : BindingKind} {side : Side} {next : TubeId} {p : SitePlant (World × List Event)}

theorem putHandlers_eq (hkind : kind ≠ .xmlHttp) (side : Side) (next : TubeId) (p : SitePlant World) :
    putHandlers kind side next p = (p.tubes.length + 1,
      ⟨p.tubes ++ [⟨(HandlerStage.inner side).stage, [next], [p.store.cells.length]⟩] ++
        [⟨(HandlerStage.outer side).stage, [p.tubes.length], [p.store.cells.length]⟩],
        { p.store with cells := p.store.cells ++ [.fresh] }⟩) := by
  have hlength :
      (p.tubes ++ [(⟨(HandlerStage.inner side).stage, [next], [p.store.cells.length]⟩ : Tube _ _)]).length =
      p.tubes.length + 1 := List.length_append
  cases kind with
  | xmlHttp => exact absurd rfl hkind
  | soap11 =>
    rw [← hlength]
    rfl
  | soap12 =>
    rw [← hlength]
    rfl

theorem paired_putHandlers (side : Side) (hkind : kind ≠ .xmlHttp) (hnext : Downstream p next) :
    Paired side p.store.cells.length (putHandlers kind side next p).2.tubes (putHandlers kind side next p).1
      p.tubes.length next := by
  obtain ⟨t, ht, hanswers⟩ := hnext.answers
  have hbound : next < p.tubes.length := (List.getElem?_eq_some_iff.mp ht).1
  rw [putHandlers_eq hkind]
  refine ⟨?_, ?_, ?_⟩
  · simp
  · simp
  · intro packet s _
    obtain ⟨action, r, s', hrequest, hresult, hkeeps⟩ := hanswers packet s
    refine ⟨action, r, s', ?_, hresult, hkeeps⟩
    rw [Plant.request_eq (t := t)]
    · exact hrequest
    · rw [List.append_assoc, List.getElem?_append_left hbound, ht]

theorem tubes_putHandlers (hkind : kind ≠ .xmlHttp) {id : TubeId} {t : SiteTube World} {p : SitePlant World}
    (ht : (putHandlers kind side next p).2.tubes[id]? = some t) (hid : id ≠ (putHandlers kind side next p).1) :
    id = p.tubes.length ∨ p.tubes[id]? = some t := by
  rw [putHandlers_eq hkind] at ht hid
  rcases Nat.lt_trichotomy id p.tubes.length with hlt | heq | hgt
  · rw [List.append_assoc, List.getElem?_append_left hlt] at ht
    exact .inr ht
  · exact .inl heq
  · have hbound := (List.getElem?_eq_some_iff.mp ht).1
    simp only [List.length_append, List.length_singleton] at hbound
    exact absurd (Nat.le_antisymm (Nat.le_of_lt_succ hbound) hgt) hid

theorem run_paired {tubes : List (SiteTube (World × List Event))} {c : CellId}
    {outer inner : TubeId} (h : Paired side c tubes outer inner next) {f : Fiber} (hhead : f.head = outer)
    (hopen : f.state ≠ .closed) {s : SiteStore (World × List Event)} (hroom : c < s.cells.length)
    (hrecorded : Recorded s) (packet : Packet) :
    ∃ events, record (f.run (Plant.callbacks tubes) packet s).2.2 = record s ++ events ∧ ClosesOnce side events ∧
      Ended side c (f.run (Plant.callbacks tubes) packet s).2.2 := by
  obtain ⟨r, s', events, hsettles, hrecord, hcloses, hended⟩ := h.settles_outer hroom hrecorded packet
  subst hhead
  rw [Fiber.run_of_settles hsettles hopen]
  exact ⟨events, hrecord, hcloses, hended⟩

theorem record_destroyChains (hkind : kind ≠ .xmlHttp) (hnext : Downstream p next)
    {s : SiteStore (World × List Event)} (hended : Ended side p.store.cells.length s) :
    record (Plant.destroyChains [(putHandlers kind side next p).1]
      { (putHandlers kind side next p).2 with store := s }).store = record s := by
  obtain ⟨houter, hinner, -⟩ := paired_putHandlers side hkind hnext
  apply Plant.store_destroyChains (I := fun s' => record s' = record s)
    (p := { (putHandlers kind side next p).2 with store := s }) houter
  · exact HandlerStage.destroy_ended rfl hended
  · intro id t s' hid ht hs'
    rcases tubes_putHandlers hkind ht hid with rfl | ht'
    · rw [hinner] at ht
      cases ht
      show record ((inner side).closeIfDue _ .empty s').2 = record s
      rw [closeIfDue_inner]
      exact hs'
    · exact (hnext.destroyed id t s' ht').trans hs'

/-- In front of a tube that answers, in every exchange after any others, each handler that the request has called is
closed exactly once and in order, and destroying the chain closes nothing more. -/
theorem putHandlers_closes_once (hkind : kind ≠ .xmlHttp) (side : Side) (hnext : Downstream p next)
    (hrecorded : Recorded p.store) (exchanges : List (Fiber × Packet))
    (hfibers : ∀ x ∈ exchanges, x.1.head = (putHandlers kind side next p).1 ∧ x.1.state ≠ .closed) {f : Fiber}
    (hhead : f.head = (putHandlers kind side next p).1) (hopen : f.state ≠ .closed) (packet : Packet) :
    let before := (putHandlers kind side next p).2.runs exchanges
    let after := (before.run f packet).2.2
    ∃ events, record after.store = record before.store ++ events ∧ ClosesOnce side events ∧
      record (after.destroyChains [(putHandlers kind side next p).1]).store = record after.store := by
  have hpaired := paired_putHandlers side hkind hnext
  have hready : p.store.cells.length < ((putHandlers kind side next p).2.runs exchanges).store.cells.length ∧
      Recorded ((putHandlers kind side next p).2.runs exchanges).store := by
    apply Plant.store_runs (I := fun s => p.store.cells.length < s.cells.length ∧ Recorded s)
    · rintro ⟨f, packet⟩ hx s ⟨hroom, hrecorded⟩
      obtain ⟨-, -, -, hended⟩ := run_paired hpaired (hfibers _ hx).1 (hfibers _ hx).2 hroom hrecorded packet
      exact ⟨hended.room, hended.recorded⟩
    · rw [putHandlers_eq hkind]
      exact ⟨by simp, hrecorded⟩
  intro before after
  obtain ⟨events, hrecord, hcloses, hended⟩ := run_paired hpaired hhead hopen hready.1 hready.2 packet
  have hafter : after = { (putHandlers kind side next p).2 with
      store := (f.run (Plant.callbacks (putHandlers kind side next p).2.tubes) packet before.store).2.2 } := by
    show (before.run f packet).2.2 = _
    rw [Plant.run_eq, Plant.tubes_runs]
  rw [hafter]
  exact ⟨events, hrecord, hcloses, record_destroyChains hkind hnext hended⟩

def echoPlant (kind : BindingKind) (hs : List (Handler World)) (world : World) : SitePlant (World × List Event) :=
  ((Plant.empty (Site.new ⟨kind, [], ⟨kind.version?, recordAll hs, []⟩⟩ ⟨0, 0⟩ (world, []))).add
    ⟨.passing "echo", [], []⟩).2

theorem downstream_echoPlant (kind : BindingKind) (hs : List (Handler World)) (world : World) :
    Downstream (echoPlant kind hs world) 0 := by
  refine ⟨⟨⟨.passing "echo", [], []⟩, rfl, fun packet s => ?_⟩, ?_⟩
  · exact ⟨.ret packet, .ok packet, s, rfl, rfl, rfl, rfl, id⟩
  · intro id t s ht
    cases id with
    | zero =>
      cases ht
      rfl
    | succ id => cases ht

/-- Two logical handlers and a SOAP handler that answers for the request, in the second of two exchanges. -/
theorem putHandlers_closes_once_refused :
    let refusing : Handler Unit := { Handler.passing .soap [] with onMessage := fun _ p w => (.ok false, p, w) }
    let plant := echoPlant .soap11 [.passing .logical [], refusing, .passing .logical []] ()
    let head := (putHandlers .soap11 .client 0 plant).1
    let packet := Packet.ofMessage (.ofPayload (some .v11) .empty)
    let before := (putHandlers .soap11 .client 0 plant).2.runs [(.ofHead head, packet)]
    let after := (before.run (.ofHead head) packet).2.2
    (∃ events, record after.store = record before.store ++ events ∧ ClosesOnce .client events ∧
      record (after.destroyChains [head]).store = record after.store) ∧
    ((record after.store).drop (record before.store).length).map (fun e => (e.handler, e.call)) =
      [(0, .message), (2, .message), (1, .message), (2, .message), (0, .message),
        (1, .close), (2, .close), (0, .close)] := by
  intro refusing plant head packet before after
  have hnext : Downstream plant 0 := downstream_echoPlant .soap11 _ ()
  have hopen : (Fiber.ofHead head).state ≠ .closed := by decide
  have hrecorded : Recorded plant.store := ⟨_, rfl⟩
  have hfibers : ∀ x ∈ [(Fiber.ofHead head, packet)], x.1.head = head ∧ x.1.state ≠ .closed := by
    intro x hx
    cases List.mem_singleton.mp hx
    exact ⟨rfl, hopen⟩
  let cb := Plant.callbacks (putHandlers .soap11 .client 0 plant).2.tubes
  let steps (s : SiteStore (Unit × List Event)) := Fiber.advance cb 20 (.ofHead head) (.request head packet) s
  have hsteps (s : SiteStore (Unit × List Event)) (hended : (steps s).isSome = true) :
      (Fiber.run cb (.ofHead head) packet s).2.2 = (steps s).elim s (·.2.2) :=
    congrArg (·.elim s (·.2.2)) (Fiber.advance_eq_run hended hopen).symm
  constructor
  · clear_value plant
    exact @putHandlers_closes_once Unit .soap11 0 plant (by decide) .client hnext hrecorded _ hfibers
      (.ofHead head) rfl hopen packet
  · have hbefore : before.store = _ := hsteps _ (by decide +kernel)
    have hafter : after.store = _ := hsteps before.store (by rw [hbefore]; decide +kernel)
    rw [hafter, hbefore]
    decide +kernel

end Layer

end SoapNode
