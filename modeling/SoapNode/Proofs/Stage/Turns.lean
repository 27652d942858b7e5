import SoapNode.Proofs.Stage.Exchanges

/-!
# Exchanges that take turns

Exchanges on chains of one template take turns, a callback at a time, while further chains are copied,
taken from the pool or brought back. No two chains have a cell in common. So where handlers, operations and
transports are functions of their arguments, every exchange does what it does alone on a fresh copy.
-/

namespace SoapNode

variable {World : Type}

inductive Turn where
  /-- Begins an exchange on a fresh copy of the template. -/
  | fork (packet : Packet) (firstId : Nat)
  /-- Begins an exchange on a chain of the pool. -/
  | take (packet : Packet) (firstId : Nat)
  /-- Begins another exchange on the chain of one that has ended. -/
  | again (k : Nat) (packet : Packet) (firstId : Nat)
  | step (k : Nat)
  /-- Brings the chain of an exchange that has ended back to the pool. -/
  | recycle (k : Nat)

/-- A pool and the exchanges on the chains that are out of it. -/
structure Hall (World : Type) where
  plant : SitePlant (World × List Event)
  pool : TubePool
  /-- The last one that began comes first. -/
  exchanges : List Exchange

namespace Hall

/-- The hall of a new pool. -/
def ofTemplate (template : TubeId × SitePlant (World × List Event)) : Hall World :=
  ⟨template.2, .ofHead template.1, []⟩

def enroll (h : Hall World) (packet : Packet) (firstId : Nat) :
    Except RuntimeError TubeId × TubePool × SitePlant (World × List Event) → Hall World
  | (.ok head, pool, plant) => ⟨plant, pool, .begin head packet firstId :: h.exchanges⟩
  | (.error _, pool, plant) => ⟨plant, pool, h.exchanges⟩

def ended? (h : Hall World) (k : Nat) : Option Exchange := h.exchanges[k]?.filter (·.result?.isSome)

def turn (h : Hall World) : Turn → Hall World
  | .fork packet firstId =>
    let (head, plant) := h.pool.pipeline.fork h.plant
    h.enroll packet firstId (head, h.pool, plant)
  | .take packet firstId => h.enroll packet firstId (h.pool.take h.plant)
  | .again k packet firstId =>
    match h.ended? k with
    | some x => { h with exchanges := h.exchanges.set k (.begin x.head packet firstId) }
    | none => h
  | .step k =>
    match h.exchanges[k]? with
    | some x =>
      let (x, store) := x.step h.plant.tubes h.plant.store
      { h with plant := { h.plant with store }, exchanges := h.exchanges.set k x }
    | none => h
  | .recycle k =>
    match h.ended? k with
    | some x =>
      let (pool, plant) := h.pool.recycle x.head h.plant
      ⟨plant, pool, h.exchanges.eraseIdx k⟩
    | none => h

def run (h : Hall World) (turns : List Turn) : Hall World := turns.foldl turn h

end Hall

/-- Chains without a cell in common. -/
def Apart {Cell World : Type} (tubes : List (Tube Cell World)) (head head' : TubeId) : Prop :=
  ∀ c, Holds tubes head c → ¬ Holds tubes head' c

theorem Apart.symm {Cell World : Type} {tubes : List (Tube Cell World)} {head head' : TubeId}
    (h : Apart tubes head head') : Apart tubes head' head :=
  fun c hc hc' => h c hc' hc

section

variable {b : Binding (World × List Event)} {clock : Instant} {p₀ p : SitePlant (World × List Event)}
  {head₀ head : TubeId}

namespace Hall

/-- Chains that wait and exchanges on other chains, none of which have a cell in common. -/
structure Kept (b : Binding (World × List Event)) (clock : Instant)
    (p₀ : SitePlant (World × List Event)) (head₀ : TubeId) (p : SitePlant (World × List Event))
    (idle : List TubeId) (xs : List Exchange) : Prop where
  serves : Plant.Serves b clock p₀ p
  waiting : ∀ head ∈ idle, ∃ ρ, Fork p₀ head₀ p head ρ
  follows : ∀ x ∈ xs, x.Follows b clock p₀ head₀ p
  apart : (idle ++ xs.map (·.head)).Pairwise (Apart p.tubes)

namespace Kept

variable {idle : List TubeId} {xs ys : List Exchange} {x : Exchange}

theorem perm (h : Kept b clock p₀ head₀ p idle xs) (hperm : xs.Perm ys) : Kept b clock p₀ head₀ p idle ys where
  serves := h.serves
  waiting := h.waiting
  follows y hy := h.follows y (hperm.mem_iff.mpr hy)
  apart := (((hperm.map _).append_left idle).pairwise_iff Apart.symm).mp h.apart

theorem forks (h : Kept b clock p₀ head₀ p idle xs) :
    ∀ head ∈ idle ++ xs.map (·.head), ∃ ρ, Fork p₀ head₀ p head ρ := by
  intro head hhead
  rcases List.mem_append.mp hhead with hidle | hused
  · exact h.waiting head hidle
  · obtain ⟨x, hx, rfl⟩ := List.mem_map.mp hused
    obtain ⟨ρ, hfork, -⟩ := h.follows x hx
    exact ⟨ρ, hfork⟩

theorem release (h : Kept b clock p₀ head₀ p idle (x :: xs)) : Kept b clock p₀ head₀ p (x.head :: idle) xs where
  serves := h.serves
  waiting := List.forall_mem_cons.mpr ⟨h.forks x.head (List.mem_append_right _ List.mem_cons_self), h.waiting⟩
  follows := (List.forall_mem_cons.mp h.follows).2
  apart := (List.perm_middle.pairwise_iff Apart.symm).mp h.apart

theorem take (h : Kept b clock p₀ head₀ p (head :: idle) xs) (h₀ : Plant.Serves b clock p₀ p₀)
    (htemplate : Template (Exchange.likeness b clock) p₀ head₀) (packet : Packet) (firstId : Nat) :
    Kept b clock p₀ head₀ p idle (.begin head packet firstId :: xs) := by
  obtain ⟨⟨ρ, hfork⟩, hidle⟩ := List.forall_mem_cons.mp h.waiting
  exact {
    serves := h.serves
    waiting := hidle
    follows := List.forall_mem_cons.mpr
      ⟨⟨ρ, hfork, Exchange.beside_begin h₀ h.serves htemplate hfork packet firstId⟩, h.follows⟩
    apart := (List.perm_middle.pairwise_iff Apart.symm).mpr h.apart }

/-- A copy has cells that no chain had before. -/
theorem copy (h : Kept b clock p₀ head₀ p idle xs) (htemplate : Template (Exchange.likeness b clock) p₀ head₀) :
    Kept b clock p₀ head₀ (p.copyChain head₀).2 ((p.copyChain head₀).1 :: idle) xs := by
  obtain ⟨ρ, hfork, hext, hworld, hfresh, hcells⟩ := htemplate.fork h.serves.grown
  have hserves := h.serves.grow hext hworld
  have hold : ∀ {head' ρ' c}, Fork p₀ head₀ p head' ρ' →
      (Holds (p.copyChain head₀).2.tubes head' c ↔ Holds p.tubes head' c) :=
    fun hfork' => (hfork'.mono hext).holds_iff.trans hfork'.holds_iff.symm
  have hroom : ∀ {head' ρ' c}, Fork p₀ head₀ p head' ρ' → Holds p.tubes head' c →
      c < p.store.cells.length := by
    intro head' ρ' c hfork' hc
    obtain ⟨c₀, hc₀, rfl⟩ := hfork'.holds_iff.mp hc
    exact hfork'.room c₀ hc₀
  constructor
  case serves => exact hserves
  case waiting =>
    refine List.forall_mem_cons.mpr ⟨⟨ρ, hfork⟩, fun head' hhead' => ?_⟩
    obtain ⟨ρ', hfork'⟩ := h.waiting head' hhead'
    exact ⟨ρ', hfork'.mono hext⟩
  case follows =>
    intro x hx
    obtain ⟨ρ', hfork'⟩ := h.forks x.head (List.mem_append_right _ (List.mem_map_of_mem hx))
    refine (h.follows x hx).keep hserves hext fun c hc => ?_
    rw [List.getElem?_eq_getElem (hroom hfork' hc)]
    exact getElem?_mono hcells (List.getElem?_eq_getElem (hroom hfork' hc))
  case apart =>
    refine List.pairwise_cons.mpr ⟨fun head' hhead' c hc hc' => ?_,
      h.apart.imp_of_mem fun {a a'} ha ha' hapart c hc hc' => ?_⟩
    · obtain ⟨ρ', hfork'⟩ := h.forks head' hhead'
      obtain ⟨c₀, hc₀, rfl⟩ := hfork.holds_iff.mp hc
      exact Nat.not_lt.mpr (hfresh c₀ hc₀) (hroom hfork' ((hold hfork').mp hc'))
    · obtain ⟨ρ₁, hfork₁⟩ := h.forks a ha
      obtain ⟨ρ₂, hfork₂⟩ := h.forks a' ha'
      exact hapart c ((hold hfork₁).mp hc) ((hold hfork₂).mp hc')

theorem step (h : Kept b clock p₀ head₀ p idle (x :: xs))
    (htemplate : Template (Exchange.likeness b clock) p₀ head₀) :
    Kept b clock p₀ head₀ { p with store := (x.step p.tubes p.store).2 } idle
      ((x.step p.tubes p.store).1 :: xs) := by
  obtain ⟨hx, hxs⟩ := List.forall_mem_cons.mp h.follows
  obtain ⟨hfollows, hwithin⟩ := hx.step htemplate
  obtain ⟨-, -, halike, -⟩ := hfollows
  have hext : p.Extends { p with store := (x.step p.tubes p.store).2 } :=
    ⟨List.prefix_rfl, Nat.le_of_eq hwithin.length.symm⟩
  have hserves : Plant.Serves b clock p₀ { p with store := (x.step p.tubes p.store).2 } :=
    ⟨h.serves.grown.trans hext, halike.binding_eq', halike.clock_eq'⟩
  have happart : ∀ y ∈ xs, Apart p.tubes x.head y.head := by
    intro y hy
    have hused := (List.pairwise_append.mp h.apart).2.1
    exact (List.pairwise_cons.mp hused).1 y.head (List.mem_map_of_mem hy)
  constructor
  case serves => exact hserves
  case waiting =>
    intro head' hhead'
    obtain ⟨ρ, hfork⟩ := h.waiting head' hhead'
    exact ⟨ρ, hfork.mono hext⟩
  case follows =>
    refine List.forall_mem_cons.mpr ⟨(hx.step htemplate).1, fun y hy => ?_⟩
    exact (hxs y hy).keep hserves hext fun c hc => hwithin.rest c fun hc' => happart y hy c hc' hc
  case apart =>
    rw [List.map_cons, Exchange.step_head]
    exact h.apart

end Kept

/-- A hall with an open pool of a template. -/
structure Sound (b : Binding (World × List Event)) (clock : Instant)
    (p₀ : SitePlant (World × List Event)) (head₀ : TubeId) (h : Hall World) : Prop where
  unclosed : h.pool.pipeline.closed = false
  head_eq : h.pool.pipeline.head = head₀
  kept : Kept b clock p₀ head₀ h.plant h.pool.idle h.exchanges

namespace Sound

variable {h : Hall World}

theorem ofTemplate (hserves : Plant.Serves b clock p₀ p) : Sound b clock p₀ head₀ (.ofTemplate (head₀, p)) where
  unclosed := rfl
  head_eq := rfl
  kept := ⟨hserves, List.forall_mem_nil _, List.forall_mem_nil _, List.Pairwise.nil⟩

theorem fork (hsound : Sound b clock p₀ head₀ h) : h.pool.pipeline.fork h.plant =
    (.ok (h.plant.copyChain head₀).1, (h.plant.copyChain head₀).2) := by
  rw [Pipeline.fork, hsound.unclosed, hsound.head_eq]
  rfl

theorem enroll_fork (hsound : Sound b clock p₀ head₀ h) (h₀ : Plant.Serves b clock p₀ p₀)
    (htemplate : Template (Exchange.likeness b clock) p₀ head₀) (packet : Packet) (firstId : Nat) :
    Sound b clock p₀ head₀
      ⟨(h.plant.copyChain head₀).2, h.pool, .begin (h.plant.copyChain head₀).1 packet firstId :: h.exchanges⟩ :=
  ⟨hsound.unclosed, hsound.head_eq, (hsound.kept.copy htemplate).take h₀ htemplate packet firstId⟩

theorem take (hsound : Sound b clock p₀ head₀ h) (h₀ : Plant.Serves b clock p₀ p₀)
    (htemplate : Template (Exchange.likeness b clock) p₀ head₀) (packet : Packet) (firstId : Nat) :
    Sound b clock p₀ head₀ (h.turn (.take packet firstId)) := by
  rw [turn, TubePool.take, TubePool.isClosed, hsound.unclosed]
  simp only [Bool.false_eq_true, if_false]
  split
  · rename_i head idle hidle
    have hkept := hsound.kept
    rw [hidle] at hkept
    exact ⟨hsound.unclosed, hsound.head_eq, hkept.take h₀ htemplate packet firstId⟩
  · rw [hsound.fork]
    exact hsound.enroll_fork h₀ htemplate packet firstId

/-- The exchange whose turn it is, in front of the other ones. -/
theorem front {k : Nat} {x : Exchange} (hsound : Sound b clock p₀ head₀ h) (hk : h.exchanges[k]? = some x) :
    Kept b clock p₀ head₀ h.plant h.pool.idle (x :: h.exchanges.eraseIdx k) ∧
      ∀ y, (y :: h.exchanges.eraseIdx k).Perm (h.exchanges.set k y) := by
  obtain ⟨hlt, rfl⟩ := List.getElem?_eq_some_iff.mp hk
  exact ⟨hsound.kept.perm (List.getElem_cons_eraseIdx_perm hlt).symm,
    fun y => (List.set_perm_cons_eraseIdx hlt y).symm⟩

theorem front_of_ended {k : Nat} {x : Exchange} (hk : h.ended? k = some x) : h.exchanges[k]? = some x :=
  (Option.filter_eq_some_iff.mp hk).1

theorem turn (hsound : Sound b clock p₀ head₀ h) (h₀ : Plant.Serves b clock p₀ p₀)
    (htemplate : Template (Exchange.likeness b clock) p₀ head₀) (t : Turn) :
    Sound b clock p₀ head₀ (h.turn t) := by
  cases t with
  | fork packet firstId =>
    rw [Hall.turn, hsound.fork]
    exact hsound.enroll_fork h₀ htemplate packet firstId
  | take packet firstId => exact hsound.take h₀ htemplate packet firstId
  | again k packet firstId =>
    rw [Hall.turn]
    split
    · rename_i x hx
      obtain ⟨hkept, hset⟩ := hsound.front (front_of_ended hx)
      exact ⟨hsound.unclosed, hsound.head_eq, (hkept.release.take h₀ htemplate packet firstId).perm (hset _)⟩
    · exact hsound
  | step k =>
    rw [Hall.turn]
    split
    · rename_i x hx
      obtain ⟨hkept, hset⟩ := hsound.front hx
      exact ⟨hsound.unclosed, hsound.head_eq, (hkept.step htemplate).perm (hset _)⟩
    · exact hsound
  | recycle k =>
    rw [Hall.turn]
    split
    · rename_i x hx
      obtain ⟨hkept, -⟩ := hsound.front (front_of_ended hx)
      rw [TubePool.recycle, TubePool.isClosed, hsound.unclosed]
      exact ⟨hsound.unclosed, hsound.head_eq, hkept.release⟩
    · exact hsound

theorem run (hsound : Sound b clock p₀ head₀ h) (h₀ : Plant.Serves b clock p₀ p₀)
    (htemplate : Template (Exchange.likeness b clock) p₀ head₀) (turns : List Turn) :
    Sound b clock p₀ head₀ (h.run turns) := by
  induction turns generalizing h with
  | nil => exact hsound
  | cons t turns ih => exact ih (hsound.turn h₀ htemplate t)

end Sound

end Hall

end

end SoapNode
