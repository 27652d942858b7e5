import SoapNode.Proofs.Handler.Exchange
import SoapNode.Proofs.Stage.Layers

/-!
# Exchanges step by step

An exchange on a chain of recorded handlers, made callback by callback. Between its turns others may have
theirs. On a copy of a template whose stages are uniform it stays beside the exchange on the template,
as long as the others leave the cells of the copy alone. Alone it makes the steps of a pipeline's exchange.
-/

namespace SoapNode

variable {World : Type}

/-- Tubes that handle exchanges in a world with a record beside it. -/
abbrev RecordedTubes (World : Type) := List (Tube (HandlerExchange (World × List Event)) (Site (World × List Event)))

/-- How far an exchange is. -/
inductive Progress where
  | going (f : Fiber) (pending : Pending)
  | ended (result : Except RuntimeError Packet)

/-- An exchange on a chain. Its message ids are a supply of its own, and its record holds the calls of
handlers that it made. -/
structure Exchange where
  head : TubeId
  packet : Packet
  firstId : Nat
  issued : Nat
  calls : List Event
  /-- How many steps of its fiber it took. -/
  turns : Nat
  progress : Progress

namespace Exchange

def begin (head : TubeId) (packet : Packet) (firstId : Nat) : Exchange :=
  ⟨head, packet, firstId, firstId, [], 0, .going (.ofHead head) (.request head packet)⟩

def result? (x : Exchange) : Option (Except RuntimeError Packet) :=
  match x.progress with
  | .going _ _ => none
  | .ended r => some r

theorem ended_of_result? {x : Exchange} {r : Except RuntimeError Packet} (h : x.result? = some r) :
    x.progress = .ended r := by
  unfold result? at h
  split at h
  · cases h
  · rename_i r' hr'
    rw [hr', Option.some.inj h]

/-- The store as the exchange finds it, with its own ids and its own record. -/
def enter (x : Exchange) (s : SiteStore (World × List Event)) : SiteStore (World × List Event) :=
  { s with world := { s.world with issued := x.issued, world := (s.world.world.1, x.calls) } }

/-- The exchange after a step of its fiber. -/
def advance (x : Exchange) : Fiber.Step (SiteStore (World × List Event)) → Exchange
  | .going f pending s =>
    { x with issued := s.world.issued, calls := s.world.world.2, turns := x.turns + 1, progress := .going f pending }
  | .ended r _ s =>
    { x with issued := s.world.issued, calls := s.world.world.2, turns := x.turns + 1, progress := .ended r }

/-- A turn of the exchange. When it has ended, nothing happens any more. -/
def step (tubes : RecordedTubes World) (x : Exchange)
    (s : SiteStore (World × List Event)) : Exchange × SiteStore (World × List Event) :=
  match x.progress with
  | .going f pending =>
    let next := Fiber.step (Plant.callbacks tubes) f pending (x.enter s)
    (x.advance next, next.state)
  | .ended _ => (x, s)

section

variable (tubes : RecordedTubes World) {x : Exchange} (s : SiteStore (World × List Event))

theorem step_head : (x.step tubes s).1.head = x.head := by
  unfold step
  split
  · unfold advance
    dsimp only
    split <;> rfl
  · rfl

theorem step_going {f : Fiber} {pending : Pending} (hx : x.progress = .going f pending) :
    (x.step tubes s).1.packet = x.packet ∧ (x.step tubes s).1.firstId = x.firstId ∧
      (x.step tubes s).1.turns = x.turns + 1 := by
  rw [step, hx]
  unfold advance
  dsimp only
  split <;> exact ⟨rfl, rfl, rfl⟩

theorem step_ended {r : Except RuntimeError Packet} (hx : x.progress = .ended r) : x.step tubes s = (x, s) := by
  rw [step, hx]

end

def after (tubes : RecordedTubes World) :
    (turns : Nat) → Exchange × SiteStore (World × List Event) → Exchange × SiteStore (World × List Event)
  | 0, now => now
  | turns + 1, now =>
    let (x, s) := after tubes turns now
    x.step tubes s

/-- An exchange that is alone on a fresh copy of a template, after some turns. -/
def alone (template : TubeId × SitePlant (World × List Event)) (packet : Packet) (firstId turns : Nat) : Exchange :=
  let (head, p) := template.2.copyChain template.1
  (after p.tubes turns (begin head packet firstId, p.store)).1

/-- Where the run of a fiber is after some steps, if the exchange always finds the store as it left it. -/
structure Stands (tubes : RecordedTubes World)
    (run : Nat → Option (Except RuntimeError Packet × Fiber × SiteStore (World × List Event)))
    (turns : Nat) (x : Exchange) (s : SiteStore (World × List Event)) : Prop where
  own : x.enter s = s
  going : ∀ f pending, x.progress = .going f pending →
    ∀ n, run (turns + n) = Fiber.advance (Plant.callbacks tubes) n f pending s
  ended : ∀ r, x.progress = .ended r → ∃ f, ∀ n, turns ≤ n → run n = some (r, f, s)

section

variable {tubes : RecordedTubes World}
  {run : Nat → Option (Except RuntimeError Packet × Fiber × SiteStore (World × List Event))}
  {turns : Nat} {x : Exchange} {s : SiteStore (World × List Event)}

theorem Stands.step (h : Stands tubes run turns x s) :
    Stands tubes run (turns + 1) (x.step tubes s).1 (x.step tubes s).2 := by
  cases hx : x.progress with
  | ended r =>
    rw [step_ended tubes s hx]
    obtain ⟨f, hrun⟩ := h.ended r hx
    refine ⟨h.own, fun f' pending hgoing => ?_, fun r' hr' => ?_⟩
    · rw [hx] at hgoing
      cases hgoing
    · obtain rfl := Progress.ended.inj (hx.symm.trans hr')
      exact ⟨f, fun n hn => hrun n (Nat.le_of_succ_le hn)⟩
  | going f pending =>
    have hrun (n : Nat) : run (turns + 1 + n) = _ :=
      (congrArg run (Nat.succ_add_eq_add_succ turns n)).trans (h.going f pending hx (n + 1))
    rw [Exchange.step, hx]
    dsimp only
    rw [h.own]
    simp only [Fiber.advance] at hrun
    cases hstep : Fiber.step (Plant.callbacks tubes) f pending s with
    | going f' pending' s' =>
      rw [hstep] at hrun
      refine ⟨rfl, fun g q hgoing => ?_, fun r hr => ?_⟩
      · cases hgoing
        exact hrun
      · cases hr
    | ended r f' s' =>
      rw [hstep] at hrun
      refine ⟨rfl, fun g q hgoing => ?_, fun r' hr' => ?_⟩
      · cases hgoing
      · cases hr'
        refine ⟨f', fun n hn => ?_⟩
        obtain ⟨m, rfl⟩ := Nat.exists_eq_add_of_le hn
        exact hrun m

/-- Turn by turn, an exchange that is alone makes the steps of its fiber. -/
theorem stands_after {head : TubeId} {packet : Packet} {firstId : Nat} (hs : (begin head packet firstId).enter s = s)
    (turns : Nat) :
    Stands tubes (fun n => Fiber.advance (Plant.callbacks tubes) n (.ofHead head) (.request head packet) s) turns
      (after tubes turns (begin head packet firstId, s)).1 (after tubes turns (begin head packet firstId, s)).2 := by
  induction turns with
  | zero =>
    refine ⟨hs, fun f pending hgoing n => ?_, fun r hr => absurd hr nofun⟩
    cases hgoing
    rw [Nat.zero_add]
    rfl
  | succ turns ih => exact ih.step

end

theorem enter_begin (head : TubeId) (packet : Packet) {firstId : Nat} {s : SiteStore (World × List Event)}
    (hissued : s.world.issued = firstId) (hrecord : s.world.world.2 = []) :
    (begin head packet firstId).enter s = s := by
  rcases s with ⟨cells, binding, clock, issued, dumps, world, record⟩
  obtain rfl : issued = firstId := hissued
  obtain rfl : record = [] := hrecord
  rfl

/-- Alone on a copy, an exchange has the result that a pipeline gives. -/
theorem process_of_alone {template : TubeId × SitePlant (World × List Event)} {packet : Packet} {firstId turns : Nat}
    (hcopy : (template.2.copyChain template.1).2.world = template.2.world) (hissued : template.2.world.issued = firstId)
    (hrecord : template.2.world.world.2 = []) {r : Except RuntimeError Packet}
    (hr : (alone template packet firstId turns).result? = some r) :
    ((Pipeline.ofHead template.1).process packet template.2).1 = r ∧
      ((Pipeline.ofHead template.1).process packet template.2).2.world.world.2 =
        (alone template packet firstId turns).calls := by
  rw [← hcopy] at hissued hrecord
  clear hcopy
  unfold alone at hr ⊢
  rw [Pipeline.process, Pipeline.fork]
  simp only [Pipeline.ofHead, Bool.false_eq_true, if_false]
  generalize template.2.copyChain template.1 = copy at hissued hrecord hr ⊢
  obtain ⟨head, p⟩ := copy
  have hstands := @stands_after _ p.tubes p.store head packet firstId (enter_begin head packet hissued hrecord) turns
  dsimp only at hr ⊢
  generalize after p.tubes turns (begin head packet firstId, p.store) = now at hstands hr ⊢
  obtain ⟨f, hrun⟩ := hstands.ended r (ended_of_result? hr)
  have hresult : p.run (.ofHead head) packet = (r, f, { p with store := now.2 }) := by
    have hfiber : (Fiber.ofHead head).run (Plant.callbacks p.tubes) packet p.store = (r, f, now.2) :=
      Fiber.run_of_advance (hrun turns (Nat.le_refl turns)) (by rintro ⟨⟩)
    rw [Plant.run, hfiber]
  rw [hresult]
  exact ⟨rfl, congrArg (·.world.world.2) hstands.own.symm⟩

end Exchange

/-- Worlds beside the same record. -/
def Tracked (u v : World × List Event) : Prop := u.2 = v.2

/-- How far an exchange on a copy is, beside one on the template. -/
inductive Progress.Beside {Cell World : Type} [Inhabited Cell] (L : Likeness Cell World)
    (tubes : List (Tube Cell World)) (head : TubeId) (ρ : Renaming) (s s' : Store Cell World) :
    Progress → Progress → Prop where
  | going {f f' pending pending'} (shadow : Shadow L tubes head ρ f f' pending pending' s s') :
      Beside L tubes head ρ s s' (.going f pending) (.going f' pending')
  | ended (r : Except RuntimeError Packet) : Beside L tubes head ρ s s' (.ended r) (.ended r)

theorem Progress.Beside.keep {Cell World : Type} [Inhabited Cell] {L : Likeness Cell World}
    {tubes : List (Tube Cell World)} {head : TubeId} {ρ : Renaming} {s s' u' : Store Cell World} {y x : Progress}
    (h : Progress.Beside L tubes head ρ s s' y x)
    (hkept : ∀ c, Holds tubes head c → u'.cells[ρ.cell c]? = s'.cells[ρ.cell c]?) :
    Progress.Beside L tubes head ρ s u' y x := by
  cases h with
  | going shadow => exact .going (shadow.keep rfl hkept)
  | ended r => exact .ended r

section

variable {b : Binding (World × List Event)} {clock : Instant} {p₀ p p' : SitePlant (World × List Event)}
  {head₀ head : TubeId}
  {ρ : Renaming}

/-- The sites of exchanges with the same ids and the same record, whatever the worlds beside it. -/
def Exchange.likeness (b : Binding (World × List Event)) (clock : Instant) :
    Likeness (HandlerExchange (World × List Event)) (Site (World × List Event)) :=
  Site.likeness b clock true Tracked

/-- An exchange on a copy beside one on the template. -/
structure Exchange.Beside (b : Binding (World × List Event)) (clock : Instant) (tubes : RecordedTubes World)
    (head₀ : TubeId) (ρ : Renaming) (y : Exchange) (s : SiteStore (World × List Event)) (x : Exchange)
    (s' : SiteStore (World × List Event)) : Prop where
  alike : (likeness b clock).world (y.enter s).world (x.enter s').world
  progress : Progress.Beside (likeness b clock) tubes head₀ ρ s s' y.progress x.progress

namespace Exchange

variable {y x : Exchange} {s s' u' : SiteStore (World × List Event)}

theorem Beside.step (h : Beside b clock p₀.tubes head₀ ρ y s x p.store)
    (htemplate : Template (likeness b clock) p₀ head₀) (hfork : Fork p₀ head₀ p head ρ) :
    Beside b clock p₀.tubes head₀ ρ (y.step p₀.tubes s).1 (y.step p₀.tubes s).2 (x.step p.tubes p.store).1
      (x.step p.tubes p.store).2 ∧
      p.store.Within (Holds p.tubes head) (x.step p.tubes p.store).2 := by
  obtain ⟨halike, hprogress⟩ := h
  obtain ⟨rfl, himage, -⟩ := hfork
  generalize hy : y.progress = py at hprogress
  generalize hx : x.progress = px at hprogress
  cases hprogress with
  | ended r =>
    rw [step_ended p₀.tubes s hy, step_ended p.tubes p.store hx]
    refine ⟨⟨halike, ?_⟩, .refl _ _⟩
    rw [hy, hx]
    exact .ended r
  | @going f f' pending pending' shadow =>
    rw [Exchange.step, Exchange.step, hy, hx]
    have hentered : Shadow (likeness b clock) p₀.tubes head₀ ρ f f' pending pending' (y.enter s)
        (x.enter p.store) :=
      shadow.keep rfl (fun _ _ => rfl)
    obtain ⟨hbeside, hwithin⟩ := hentered.step htemplate.regular himage halike
    dsimp only
    generalize Fiber.step (Plant.callbacks p₀.tubes) f pending (y.enter s) = next at hbeside
    generalize Fiber.step (Plant.callbacks p.tubes) f' pending' (x.enter p.store) = next' at hbeside hwithin
    refine ⟨?_, ⟨hwithin.length, hwithin.rest⟩⟩
    cases hbeside with
    | going shadow alike => exact ⟨alike, .going shadow⟩
    | ended alike => exact ⟨alike, .ended _⟩

/-- The exchange on the template after as many turns. -/
def model (p₀ : SitePlant (World × List Event)) (head₀ : TubeId) (x : Exchange) :
    Exchange × SiteStore (World × List Event) :=
  after p₀.tubes x.turns (begin head₀ x.packet x.firstId, p₀.store)

/-- An exchange on a fork that is as far as the exchange on the template is after as many turns. -/
def Follows (b : Binding (World × List Event)) (clock : Instant)
    (p₀ : SitePlant (World × List Event)) (head₀ : TubeId) (p : SitePlant (World × List Event))
    (x : Exchange) : Prop :=
  ∃ ρ, Fork p₀ head₀ p x.head ρ ∧
    Beside b clock p₀.tubes head₀ ρ (x.model p₀ head₀).1 (x.model p₀ head₀).2 x p.store

end Exchange

/-- A plant that was the template's, under the same binding and at the same time. -/
structure Plant.Serves (b : Binding (World × List Event)) (clock : Instant)
    (p₀ p : SitePlant (World × List Event)) : Prop where
  grown : p₀.Extends p
  binding_eq : p.world.binding = b
  clock_eq : p.world.clock = clock

theorem Plant.Serves.grow (h : Plant.Serves b clock p₀ p) (hext : p.Extends p') (hworld : p'.world = p.world) :
    Plant.Serves b clock p₀ p' :=
  ⟨h.grown.trans hext, by rw [hworld, h.binding_eq], by rw [hworld, h.clock_eq]⟩

namespace Exchange

variable {x y : Exchange}

theorem beside_begin (h₀ : Plant.Serves b clock p₀ p₀) (h : Plant.Serves b clock p₀ p)
    (htemplate : Template (likeness b clock) p₀ head₀) (hfork : Fork p₀ head₀ p head ρ)
    (packet : Packet) (firstId : Nat) :
    Beside b clock p₀.tubes head₀ ρ (begin head₀ packet firstId) p₀.store
      (begin head packet firstId) p.store := by
  refine ⟨⟨h₀.binding_eq, h.binding_eq, h₀.clock_eq, h.clock_eq, fun _ => rfl, rfl⟩, ?_⟩
  obtain ⟨rfl, -, hroom⟩ := hfork
  exact .going (.begin htemplate.regular htemplate.room hroom packet)

/-- A turn of an exchange touches only cells of its own chain. -/
theorem Follows.step (h : Follows b clock p₀ head₀ p x) (htemplate : Template (likeness b clock) p₀ head₀) :
    Follows b clock p₀ head₀ { p with store := (x.step p.tubes p.store).2 } (x.step p.tubes p.store).1 ∧
      p.store.Within (Holds p.tubes x.head) (x.step p.tubes p.store).2 := by
  obtain ⟨ρ, hfork, hbeside⟩ := h
  obtain ⟨hbeside', hwithin⟩ := hbeside.step htemplate hfork
  refine ⟨⟨ρ, ?_, ?_⟩, hwithin⟩
  · rw [step_head]
    exact hfork.mono ⟨List.prefix_rfl, Nat.le_of_eq hwithin.length.symm⟩
  · cases hx : x.progress with
    | ended r =>
      rw [step_ended p.tubes p.store hx]
      exact hbeside
    | going f pending =>
      obtain ⟨hpacket, hfirst, hturns⟩ := step_going p.tubes p.store hx
      rw [model, hpacket, hfirst, hturns]
      exact hbeside'

/-- Nothing changes for an exchange while the cells of its chain are left alone. -/
theorem Follows.keep (h : Follows b clock p₀ head₀ p x) (h' : Plant.Serves b clock p₀ p') (hext : p.Extends p')
    (hkept : ∀ c, Holds p.tubes x.head c → p'.store.cells[c]? = p.store.cells[c]?) :
    Follows b clock p₀ head₀ p' x := by
  obtain ⟨ρ, hfork, halike, hprogress⟩ := h
  refine ⟨ρ, hfork.mono hext, ⟨halike.binding_eq, h'.binding_eq, halike.clock_eq, h'.clock_eq,
    halike.issued_eq, halike.world⟩, ?_⟩
  exact hprogress.keep fun c hc => hkept _ (hfork.holds_iff.mpr ⟨c, hc, rfl⟩)

/-- Exchanges beside one exchange on the template are alike. -/
theorem Beside.eq {m y : Exchange} {s s' t' : SiteStore (World × List Event)} {ρ' : Renaming}
    (h : Beside b clock p₀.tubes head₀ ρ m s x s') (h' : Beside b clock p₀.tubes head₀ ρ' m s y t') :
    y.result? = x.result? ∧ y.calls = x.calls := by
  obtain ⟨halike, hprogress⟩ := h
  obtain ⟨halike', hprogress'⟩ := h'
  refine ⟨?_, halike'.world.symm.trans halike.world⟩
  unfold result?
  generalize m.progress = r at hprogress hprogress'
  generalize x.progress = q at hprogress ⊢
  generalize y.progress = q' at hprogress' ⊢
  cases hprogress <;> cases hprogress' <;> rfl

/-- An exchange on a fork goes on beside the exchange on the template. -/
theorem beside_after (htemplate : Template (likeness b clock) p₀ head₀)
    (hfork : Fork p₀ head₀ p head ρ) {y x : Exchange} {s : SiteStore (World × List Event)}
    (h : Beside b clock p₀.tubes head₀ ρ y s x p.store) (turns : Nat) :
    Beside b clock p₀.tubes head₀ ρ (after p₀.tubes turns (y, s)).1 (after p₀.tubes turns (y, s)).2
        (after p.tubes turns (x, p.store)).1 (after p.tubes turns (x, p.store)).2 ∧
      p.store.Within (Holds p.tubes head) (after p.tubes turns (x, p.store)).2 := by
  induction turns with
  | zero => exact ⟨h, .refl _ _⟩
  | succ turns ih =>
    obtain ⟨hbeside, hwithin⟩ := ih
    have hfork' : Fork p₀ head₀ { p with store := (after p.tubes turns (x, p.store)).2 } head ρ :=
      hfork.mono ⟨List.prefix_rfl, Nat.le_of_eq hwithin.length.symm⟩
    obtain ⟨hbeside', hwithin'⟩ :=
      Beside.step (p := { p with store := (after p.tubes turns (x, p.store)).2 }) hbeside htemplate hfork'
    exact ⟨hbeside', hwithin.trans hwithin'⟩

/-- An exchange that is alone on a fresh copy does what every exchange that follows the template does. -/
theorem Follows.alone (h : Follows b clock p₀ head₀ p' x) (htemplate : Template (likeness b clock) p₀ head₀)
    (h₀ : Plant.Serves b clock p₀ p₀) (hp : Plant.Serves b clock p₀ p) :
    (Exchange.alone (head₀, p) x.packet x.firstId x.turns).result? = x.result? ∧
      (Exchange.alone (head₀, p) x.packet x.firstId x.turns).calls = x.calls := by
  obtain ⟨ρ, hfork, hext, hworld, -⟩ := htemplate.fork hp.grown
  have hserves := hp.grow hext hworld
  obtain ⟨ρ', -, hbeside⟩ := h
  obtain ⟨hbeside', -⟩ := beside_after htemplate hfork
    (beside_begin h₀ hserves htemplate hfork x.packet x.firstId) x.turns
  exact hbeside.eq hbeside'

end Exchange

end

end SoapNode
