import Mathlib.Data.List.Perm.Basic
import SoapNode.Proofs.Tube.Forks

/-!
# What is destroyed when a pool is closed

Chains are taken from a pool, brought back and taken again, until it is closed and after. Closing destroys
every tube of the template and of the chains that wait once; a chain that comes back later is destroyed by
itself. What tubes are destroyed is noted by the tubes, and counted here over every sequence of orders: each
tube that a chain has for itself is destroyed once, and each that the chains share once more for every
chain that comes back late.
-/

namespace SoapNode

variable {Cell World : Type}

/-! ### Plants that note what is destroyed -/

namespace Store

def noted (s : Store Cell World) (notes : List TubeId) : Store Cell (World × List TubeId) :=
  ⟨s.cells, (s.world, notes)⟩

def unnoted (s : Store Cell (World × List TubeId)) : Store Cell World := ⟨s.cells, s.world.1⟩

def notes (s : Store Cell (World × List TubeId)) : List TubeId := s.world.2

end Store

/-- The stage, which also notes the tubes that are destroyed. -/
def Stage.noting (st : Stage Cell World) : Stage Cell (World × List TubeId) where
  name := st.name
  shareable := st.shareable
  endsWalk := st.endsWalk
  request w p s := ((st.request w p s.unnoted).1, (st.request w p s.unnoted).2.noted s.notes)
  response w p s := ((st.response w p s.unnoted).1, (st.response w p s.unnoted).2.noted s.notes)
  exception w e s := ((st.exception w e s.unnoted).1, (st.exception w e s.unnoted).2.noted s.notes)
  destroy w s := (st.destroy w s.unnoted).noted (s.notes ++ [w.self])
  copied w s := (st.copied w s.unnoted).noted s.notes

def Tube.noting (t : Tube Cell World) : Tube Cell (World × List TubeId) := ⟨t.stage.noting, t.successors, t.cells⟩

def Plant.noting (p : Plant Cell World) : Plant Cell (World × List TubeId) :=
  ⟨p.tubes.map Tube.noting, p.store.noted []⟩

theorem Stage.tells_noting (st : Stage Cell World) : st.noting.Tells Store.notes where
  destroy _ _ := rfl
  copied _ _ := rfl
  exchanges _ := ⟨fun _ _ _ h => h, fun _ _ _ h => h, fun _ _ _ h => h⟩

theorem Tube.keepsPlace_noting : KeepsPlace (@Tube.noting Cell World) := ⟨fun _ => rfl, fun _ => rfl, fun _ => rfl⟩

/-! ### Orders to a pool -/

/-- A pool with the chains that it has handed out. -/
structure Custody (Cell World : Type) where
  pool : TubePool
  plant : Plant Cell (World × List TubeId)
  /-- All chains that were ever taken. -/
  taken : List TubeId
  /-- The chains that were taken and have not come back. -/
  out : List TubeId
  /-- How many chains came back to the closed pool. -/
  late : Nat

inductive PoolOrder where
  | take
  /-- Brings a chain back. -/
  | recycle (head : TubeId)
  | close
  /-- Runs a packet through a chain that was taken. -/
  | exchange (head : TubeId) (packet : Packet)

namespace Custody

def ofTemplate (p : Plant Cell World) (head : TubeId) : Custody Cell World := ⟨.ofHead head, p.noting, [], [], 0⟩

def destroyed (c : Custody Cell World) : List TubeId := c.plant.store.notes

variable [Inhabited Cell]

/-- Follows an order, which may only name a chain that is out. -/
def order (c : Custody Cell World) : PoolOrder → Option (Custody Cell World)
  | .take =>
    match c.pool.take c.plant with
    | (.ok head, pool, plant) => some { c with pool, plant, taken := head :: c.taken, out := head :: c.out }
    | (.error _, pool, plant) => some { c with pool, plant }
  | .recycle head =>
    if head ∈ c.out then
      let (pool, plant) := c.pool.recycle head c.plant
      some { c with pool, plant, out := c.out.erase head, late := if c.pool.isClosed then c.late + 1 else c.late }
    else none
  | .close =>
    let (pool, plant) := c.pool.close c.plant
    some { c with pool, plant }
  | .exchange head packet =>
    if head ∈ c.out then some { c with plant := (c.plant.run (.ofHead head) packet).2.2 } else none

def follow (c : Custody Cell World) (orders : List PoolOrder) : Option (Custody Cell World) := orders.foldlM order c

end Custody

/-! ### Chains of one template -/

/-- Forks of a template, no two of which have a tube in common that the template does not share. -/
structure Forks (tubes₀ tubes : List (Tube Cell World)) (head₀ : TubeId) (heads : List TubeId) : Prop where
  forked : ∀ head ∈ heads, Forked tubes₀ tubes head₀ head
  apart : heads.Pairwise fun a b => ∀ id, OnWalk tubes a id → OnWalk tubes b id → Shared tubes₀ head₀ id

section Forks

variable {tubes₀ tubes tubes' : List (Tube Cell World)} {head₀ head : TubeId} {heads heads' : List TubeId}

theorem Forked.mono (h : Forked tubes₀ tubes head₀ head) (htubes : tubes <+: tubes') (hplaced : Placed tubes') :
    Forked tubes₀ tubes' head₀ head where
  grown := h.grown.trans htubes
  placed := hplaced
  head_lt := Nat.lt_of_lt_of_le h.head_lt htubes.length_le
  own id hid := h.own id ((onWalk_iff_of_grown htubes h.placed h.head_lt).mp hid)
  shared id hid := (h.shared id hid).mono htubes

theorem shared_iff_of_grown (htubes : tubes <+: tubes') (hplaced : Placed tubes)
    (hhead : head < tubes.length) {id : TubeId} : Shared tubes' head id ↔ Shared tubes head id := by
  constructor
  · rintro ⟨s, hs, ⟨t, ht, hshareable⟩, hid⟩
    have hs := (onWalk_iff_of_grown htubes hplaced hhead).mp hs
    have hlt := hs.lt_length hplaced hhead
    refine ⟨s, hs, ⟨t, ?_, hshareable⟩, (onWalk_iff_of_grown htubes hplaced hlt).mp hid⟩
    rw [← ht, List.getElem?_eq_getElem hlt]
    exact (getElem?_mono htubes (List.getElem?_eq_getElem hlt)).symm
  · rintro ⟨s, hs, ⟨t, ht, hshareable⟩, hid⟩
    exact ⟨s, hs.mono htubes, ⟨t, getElem?_mono htubes ht, hshareable⟩, hid.mono htubes⟩

namespace Forks

theorem perm (h : Forks tubes₀ tubes head₀ heads) (hperm : heads.Perm heads') :
    Forks tubes₀ tubes head₀ heads' where
  forked head hhead := h.forked head (hperm.mem_iff.mpr hhead)
  apart := (hperm.pairwise_iff (fun hab id hb ha => hab id ha hb)).mp h.apart

theorem mono (h : Forks tubes₀ tubes head₀ heads) (htubes : tubes <+: tubes') (hplaced : Placed tubes') :
    Forks tubes₀ tubes' head₀ heads where
  forked head hhead := (h.forked head hhead).mono htubes hplaced
  apart := by
    refine h.apart.imp_of_mem fun {a b} ha hb hab id hida hidb => hab id ?_ ?_
    · exact (onWalk_iff_of_grown htubes (h.forked a ha).placed (h.forked a ha).head_lt).mp hida
    · exact (onWalk_iff_of_grown htubes (h.forked b hb).placed (h.forked b hb).head_lt).mp hidb

/-- A new fork has no tube of its own in common with the others. -/
theorem cons (h : Forks tubes₀ tubes head₀ heads) (hgrown : tubes₀ <+: tubes) (hplaced₀ : Placed tubes₀)
    (hhead₀ : head₀ < tubes₀.length) (hfork : Forked tubes tubes' head₀ head) :
    Forks tubes₀ tubes' head₀ (head :: heads) := by
  have hshared : ∀ {id}, Shared tubes head₀ id ↔ Shared tubes₀ head₀ id :=
    shared_iff_of_grown hgrown hplaced₀ hhead₀
  have hold := h.mono hfork.grown hfork.placed
  refine ⟨List.forall_mem_cons.mpr ⟨?_, hold.forked⟩,
    List.pairwise_cons.mpr ⟨fun b hb id hid hidb => ?_, hold.apart⟩⟩
  · refine ⟨hgrown.trans hfork.grown, hfork.placed, hfork.head_lt, fun id hid => ?_,
      fun id hid => hfork.shared id (hshared.mpr hid)⟩
    rcases hfork.own id hid with hid | hid
    · exact .inl (hshared.mp hid)
    · exact .inr (Nat.le_trans hgrown.length_le hid)
  · rcases hfork.own id hid with hid | hid
    · exact hshared.mp hid
    · have hb := h.forked b hb
      have hlt := ((onWalk_iff_of_grown hfork.grown hb.placed hb.head_lt).mp hidb).lt_length hb.placed hb.head_lt
      exact absurd hlt (Nat.not_lt.mpr hid)

/-- Among the template and its forks at most one has a tube that is not shared. -/
theorem apart_cons (h : Forks tubes₀ tubes head₀ heads) (hgrown : tubes₀ <+: tubes) (hplaced₀ : Placed tubes₀)
    (hhead₀ : head₀ < tubes₀.length) {id : TubeId} (hown : ¬ Shared tubes₀ head₀ id) :
    (head₀ :: heads).Pairwise fun a b => OnWalk tubes a id → ¬ OnWalk tubes b id := by
  refine List.pairwise_cons.mpr ⟨fun b hb hid hidb => ?_, h.apart.imp fun hab ha hb => hown (hab id ha hb)⟩
  have hlt := ((onWalk_iff_of_grown hgrown hplaced₀ hhead₀).mp hid).lt_length hplaced₀ hhead₀
  rcases (h.forked b hb).own id hidb with hshared | hnew
  · exact hown hshared
  · exact Nat.not_lt.mpr hnew hlt

end Forks

/-- What at most one of a list has is counted once or not at all. -/
theorem countP_of_apart {P : TubeId → Prop} [DecidablePred P] (h : heads.Pairwise fun a b => P a → ¬ P b) :
    heads.countP P = if ∃ head ∈ heads, P head then 1 else 0 := by
  induction heads with
  | nil => simp
  | cons a heads ih =>
    obtain ⟨ha, hrest⟩ := List.pairwise_cons.mp h
    by_cases hp : P a
    · have hnone : heads.countP P = 0 := by
        rw [List.countP_eq_zero]
        intro b hb
        simpa using ha b hb hp
      rw [List.countP_cons_of_pos (by simpa using hp), hnone, if_pos ⟨a, List.mem_cons_self, hp⟩]
    · rw [List.countP_cons_of_neg (by simpa using hp), ih hrest]
      simp [hp]

end Forks

namespace Custody

variable {p₀ : Plant Cell (World × List TubeId)} {head₀ : TubeId} {c c' : Custody Cell World}

open Classical in
/-- What orders keep, `gone` being the forks that were destroyed. -/
structure Kept (p₀ : Plant Cell (World × List TubeId)) (head₀ : TubeId) (gone : List TubeId)
    (c : Custody Cell World) : Prop where
  grown : p₀.tubes <+: c.plant.tubes
  placed : Placed c.plant.tubes
  tells : ∀ t ∈ c.plant.tubes, t.stage.Tells Store.notes
  head_eq : c.pool.pipeline.head = head₀
  forks : Forks p₀.tubes c.plant.tubes head₀ (gone ++ (c.pool.idle ++ c.out))
  taken : ∀ head ∈ c.taken, head ∈ gone ++ (c.pool.idle ++ c.out)
  unclosed : c.pool.isClosed = false → gone = [] ∧ c.late = 0 ∧ c.destroyed = []
  closed : c.pool.isClosed = true → c.pool.idle = [] ∧ ∀ id, c.destroyed.count id =
    if Shared p₀.tubes head₀ id then 1 + c.late else (head₀ :: gone).countP (OnWalk c.plant.tubes · id)

namespace Kept

variable {gone : List TubeId}

theorem keep (h : Kept p₀ head₀ gone c) {store : Store Cell (World × List TubeId)}
    (hnotes : store.notes = c.destroyed) :
    Kept p₀ head₀ gone { c with plant := { c.plant with store } } where
  grown := h.grown
  placed := h.placed
  tells := h.tells
  head_eq := h.head_eq
  forks := h.forks
  taken := h.taken
  unclosed hopen := by
    obtain ⟨hgone, hlate, hnone⟩ := h.unclosed hopen
    exact ⟨hgone, hlate, hnotes.trans hnone⟩
  closed hclosed := by
    refine ⟨(h.closed hclosed).1, fun id => ?_⟩
    rw [← (h.closed hclosed).2 id, ← hnotes]
    rfl

theorem exchange (h : Kept p₀ head₀ gone c) (head : TubeId) (packet : Packet) :
    Kept p₀ head₀ gone { c with plant := (c.plant.run (.ofHead head) packet).2.2 } :=
  h.keep (Fiber.run_keeps (fun t ht => (h.tells t ht).exchanges c.destroyed) (.ofHead head) packet rfl)

/-- A chain that waited is handed out. -/
theorem reuse (h : Kept p₀ head₀ gone c) {head : TubeId} {idle : List TubeId} (hidle : c.pool.idle = head :: idle) :
    Kept p₀ head₀ gone { c with pool := { c.pool with idle }, taken := head :: c.taken, out := head :: c.out } := by
  have hperm : (gone ++ (c.pool.idle ++ c.out)).Perm (gone ++ (idle ++ head :: c.out)) := by
    rw [hidle]
    exact List.perm_middle.symm.append_left gone
  exact {
    grown := h.grown
    placed := h.placed
    tells := h.tells
    head_eq := h.head_eq
    forks := h.forks.perm hperm
    taken := List.forall_mem_cons.mpr ⟨by simp, fun head' hhead' => hperm.mem_iff.mp (h.taken head' hhead')⟩
    unclosed := h.unclosed
    closed := fun hclosed => by
      have hnone := (h.closed hclosed).1
      rw [hidle] at hnone
      cases hnone }

/-- A new fork is handed out. -/
theorem fork [Inhabited Cell] (h : Kept p₀ head₀ gone c) (hacyclic : Acyclic p₀.tubes head₀)
    (hplaced : Placed p₀.tubes) (hopen : c.pool.isClosed = false) :
    Kept p₀ head₀ gone { c with
      plant := (c.plant.copyChain head₀).2, taken := (c.plant.copyChain head₀).1 :: c.taken, out :=
  (c.plant.copyChain head₀).1 :: c.out } := by
  have hfork := Plant.forked_copyChain (hacyclic.mono h.grown) h.placed
  have hcopied := Cloner.copyTube_keeps (p := c.plant)
    (I := fun q => (∀ t ∈ q.tubes, t.stage.Tells Store.notes) ∧ q.store.notes = c.destroyed)
      (Q := (·.Tells Store.notes)) (fun _ hq => hq.1)
    (fun _ _ hq => hq)
    (fun _ st _ _ w hq hst => ⟨List.forall_mem_append.mpr ⟨hq.1, List.forall_mem_singleton.mpr hst⟩,
      (hst.copied w _).trans hq.2⟩)
    c.plant.tubes.length .empty head₀ ⟨h.tells, rfl⟩
  have hperm : ((c.plant.copyChain head₀).1 :: (gone ++ (c.pool.idle ++ c.out))).Perm
      (gone ++ (c.pool.idle ++ (c.plant.copyChain head₀).1 :: c.out)) := by
    rw [← List.append_assoc, ← List.append_assoc]
    exact List.perm_middle.symm
  exact {
    grown := h.grown.trans hfork.grown
    placed := hfork.placed
    tells := hcopied.1
    head_eq := h.head_eq
    forks := (h.forks.cons h.grown hplaced (hacyclic.exist .head) hfork).perm hperm
    taken := List.forall_mem_cons.mpr ⟨hperm.mem_iff.mp List.mem_cons_self,
      fun head' hhead' => hperm.mem_iff.mp (List.mem_cons_of_mem _ (h.taken head' hhead'))⟩
    unclosed := fun hopen => by
      obtain ⟨hgone, hlate, hnone⟩ := h.unclosed hopen
      exact ⟨hgone, hlate, hcopied.2.trans hnone⟩
    closed := fun hclosed => nomatch (hopen.symm.trans hclosed : false = true) }

theorem recycle_open (h : Kept p₀ head₀ gone c) {head : TubeId} (hout : head ∈ c.out)
    (hopen : c.pool.isClosed = false) :
    Kept p₀ head₀ gone { c with pool := { c.pool with idle := head :: c.pool.idle }, out := c.out.erase head } := by
  have hperm : (gone ++ (c.pool.idle ++ c.out)).Perm (gone ++ (head :: c.pool.idle ++ c.out.erase head)) := by
    refine List.Perm.append_left gone ?_
    exact ((List.perm_cons_erase hout).append_left _).trans List.perm_middle
  exact {
    grown := h.grown
    placed := h.placed
    tells := h.tells
    head_eq := h.head_eq
    forks := h.forks.perm hperm
    taken := fun head' hhead' => hperm.mem_iff.mp (h.taken head' hhead')
    unclosed := h.unclosed
    closed := fun hclosed => nomatch (hopen.symm.trans hclosed : false = true) }

theorem lt_length (h : Kept p₀ head₀ gone c) {head : TubeId} (hhead : head ∈ gone ++ (c.pool.idle ++ c.out)) :
    head < c.plant.tubes.length :=
  (h.forks.forked head hhead).head_lt

open Classical in
/-- A chain that comes back late is destroyed by itself, with all that it shares. -/
theorem recycle_late (h : Kept p₀ head₀ gone c) {head : TubeId} (hout : head ∈ c.out)
    (hclosed : c.pool.isClosed = true) :
    Kept p₀ head₀ (head :: gone)
      { c with plant := c.plant.destroyChains [head], out := c.out.erase head, late := c.late + 1 } := by
  have hmem : head ∈ gone ++ (c.pool.idle ++ c.out) := List.mem_append_right _ (List.mem_append_right _ hout)
  obtain ⟨htubes, visits, hnotes, hnodup, hvisits⟩ := Plant.exists_destroyChains h.tells h.placed
    (List.forall_mem_singleton.mpr (h.lt_length hmem))
  obtain ⟨hidle, hcount⟩ := h.closed hclosed
  have hperm : (gone ++ (c.pool.idle ++ c.out)).Perm (head :: gone ++ (c.pool.idle ++ c.out.erase head)) := by
    rw [hidle]
    exact ((List.perm_cons_erase hout).append_left _).trans List.perm_middle
  exact {
    grown := htubes ▸ h.grown
    placed := htubes ▸ h.placed
    tells := htubes ▸ h.tells
    head_eq := h.head_eq
    forks := htubes ▸ h.forks.perm hperm
    taken := fun head' hhead' => hperm.mem_iff.mp (h.taken head' hhead')
    unclosed := fun hopen => nomatch (hclosed.symm.trans hopen : true = false)
    closed := fun _ => by
      refine ⟨hidle, fun id => ?_⟩
      have hdestroyed : (c.plant.destroyChains [head]).store.notes.count id =
          c.destroyed.count id + if OnWalk c.plant.tubes head id then 1 else 0 := by
        have hvisit := hvisits id
        simp only [List.mem_singleton, exists_eq_left] at hvisit
        rw [hnotes, List.count_append, hnodup.count]
        simp only [hvisit]
        rfl
      show (c.plant.destroyChains [head]).store.notes.count id = _
      rw [hdestroyed, hcount]
      by_cases hshared : Shared p₀.tubes head₀ id
      · rw [if_pos hshared, if_pos hshared, if_pos ((h.forks.forked head hmem).shared id hshared), Nat.add_assoc]
      · rw [if_neg hshared, if_neg hshared]
        simp only [htubes, List.countP_cons, decide_eq_true_eq]
        omega }

open Classical in
/-- Closing destroys the template and the chains that wait. -/
theorem close (h : Kept p₀ head₀ gone c) (hplaced : Placed p₀.tubes) (hhead₀ : head₀ < p₀.tubes.length)
    (hopen : c.pool.isClosed = false) :
    Kept p₀ head₀ c.pool.idle { c with
      pool := { c.pool with pipeline := { c.pool.pipeline with closed := true }, idle := [] }
      plant := c.plant.destroyChains (c.pool.pipeline.head :: c.pool.idle.reverse) } := by
  obtain ⟨rfl, hlate, hnone⟩ := h.unclosed hopen
  have hall : Forks p₀.tubes c.plant.tubes head₀ (c.pool.idle ++ c.out) := h.forks
  have hforks : Forks p₀.tubes c.plant.tubes head₀ c.pool.idle :=
    ⟨fun head hhead => hall.forked head (List.mem_append_left _ hhead), (List.pairwise_append.mp hall.apart).1⟩
  have hheads : ∀ head ∈ c.pool.pipeline.head :: c.pool.idle.reverse, head < c.plant.tubes.length := by
    refine List.forall_mem_cons.mpr ⟨h.head_eq ▸ Nat.lt_of_lt_of_le hhead₀ h.grown.length_le,
      fun head hhead => ?_⟩
    exact (hforks.forked head (List.mem_reverse.mp hhead)).head_lt
  obtain ⟨htubes, visits, hnotes, hnodup, hvisits⟩ := Plant.exists_destroyChains h.tells h.placed hheads
  exact {
    grown := htubes ▸ h.grown
    placed := htubes ▸ h.placed
    tells := htubes ▸ h.tells
    head_eq := h.head_eq
    forks := htubes ▸ h.forks
    taken := h.taken
    unclosed := nofun
    closed := fun _ => by
      refine ⟨rfl, fun id => ?_⟩
      have hdestroyed : (c.plant.destroyChains (c.pool.pipeline.head :: c.pool.idle.reverse)).store.notes.count id =
          if ∃ head ∈ head₀ :: c.pool.idle, OnWalk c.plant.tubes head id then 1 else 0 := by
        have hbefore : c.plant.store.notes = [] := hnone
        rw [hnotes, hbefore, List.nil_append, hnodup.count]
        simp only [hvisits, h.head_eq, List.mem_cons, List.mem_reverse]
      show (c.plant.destroyChains (c.pool.pipeline.head :: c.pool.idle.reverse)).store.notes.count id = _
      rw [hdestroyed]
      by_cases hshared : Shared p₀.tubes head₀ id
      · rw [if_pos hshared, if_pos ⟨head₀, List.mem_cons_self, hshared.onWalk.mono h.grown⟩]
        show 1 = 1 + c.late
        rw [hlate]
      · rw [if_neg hshared]
        show _ = (head₀ :: c.pool.idle).countP
          (OnWalk (c.plant.destroyChains (c.pool.pipeline.head :: c.pool.idle.reverse)).tubes · id)
        rw [htubes, countP_of_apart (hforks.apart_cons h.grown hplaced hhead₀ hshared)] }

theorem ofTemplate {p : Plant Cell World} (hplaced : Placed p.tubes) (head : TubeId) :
    Kept p.noting head [] (.ofTemplate p head) where
  grown := List.prefix_rfl
  placed := Tube.keepsPlace_noting.placed_map.mpr hplaced
  tells t ht := by
    obtain ⟨t, -, rfl⟩ := List.mem_map.mp ht
    exact t.stage.tells_noting
  head_eq := rfl
  forks := ⟨nofun, .nil⟩
  taken := nofun
  unclosed _ := ⟨rfl, rfl, rfl⟩
  closed := nofun

section Counts

variable {head id : TubeId}

theorem count_shared (h : Kept p₀ head₀ gone c) (hclosed : c.pool.isClosed = true)
    (hshared : Shared p₀.tubes head₀ id) : c.destroyed.count id = 1 + c.late := by
  rw [(h.closed hclosed).2 id, if_pos hshared]

/-- Of a tube that is not shared, no two of the template, the chains that were destroyed and those that
are out have it. -/
theorem apart (h : Kept p₀ head₀ gone c) (hplaced : Placed p₀.tubes) (hhead₀ : head₀ < p₀.tubes.length)
    (hclosed : c.pool.isClosed = true) (hown : ¬ Shared p₀.tubes head₀ id) :
    (head₀ :: gone ++ c.out).Pairwise fun a b => OnWalk c.plant.tubes a id → ¬ OnWalk c.plant.tubes b id := by
  have hapart := h.forks.apart_cons h.grown hplaced hhead₀ hown
  rw [(h.closed hclosed).1] at hapart
  exact hapart

open Classical in
theorem count_own (h : Kept p₀ head₀ gone c) (hplaced : Placed p₀.tubes)
    (hhead₀ : head₀ < p₀.tubes.length) (hclosed : c.pool.isClosed = true)
    (hown : ¬ Shared p₀.tubes head₀ id) :
    c.destroyed.count id = if ∃ head ∈ head₀ :: gone, OnWalk c.plant.tubes head id then 1 else 0 := by
  rw [(h.closed hclosed).2 id, if_neg hown]
  exact countP_of_apart (List.pairwise_append.mp (h.apart hplaced hhead₀ hclosed hown)).1

theorem count_taken (h : Kept p₀ head₀ gone c) (hplaced : Placed p₀.tubes)
    (hhead₀ : head₀ < p₀.tubes.length) (hclosed : c.pool.isClosed = true)
    (hown : ¬ Shared p₀.tubes head₀ id) (hhead : head ∈ head₀ :: c.taken)
    (hid : OnWalk c.plant.tubes head id) : c.destroyed.count id = if head ∈ c.out then 0 else 1 := by
  obtain ⟨-, -, hapart⟩ := List.pairwise_append.mp (h.apart hplaced hhead₀ hclosed hown)
  rw [h.count_own hplaced hhead₀ hclosed hown]
  by_cases hout : head ∈ c.out
  · rw [if_pos hout, if_neg]
    rintro ⟨a, ha, hwalk⟩
    exact hapart a ha head hout hwalk hid
  · have hgone : head ∈ head₀ :: gone := by
      rcases List.mem_cons.mp hhead with rfl | hhead
      · exact List.mem_cons_self
      · have hall := h.taken head hhead
        simp only [(h.closed hclosed).1, List.nil_append, List.mem_append] at hall
        exact List.mem_cons_of_mem head₀ (hall.resolve_right hout)
    rw [if_neg hout, if_pos ⟨head, hgone, hid⟩]

theorem count_le_one (h : Kept p₀ head₀ gone c) (hplaced : Placed p₀.tubes)
    (hhead₀ : head₀ < p₀.tubes.length) :
    (∀ id, c.destroyed.count id ≤ 1) ↔ c.late = 0 ∨ ¬ ∃ id, Shared p₀.tubes head₀ id := by
  cases hclosed : c.pool.isClosed with
  | false =>
    obtain ⟨-, hlate, hnone⟩ := h.unclosed hclosed
    simp [hlate, hnone]
  | true =>
    constructor
    · intro hcount
      by_contra hnot
      obtain ⟨hlate, hshared⟩ := not_or.mp hnot
      obtain ⟨id, hid⟩ := not_not.mp hshared
      have := h.count_shared hclosed hid
      have := hcount id
      omega
    · intro hnot id
      by_cases hshared : Shared p₀.tubes head₀ id
      · have hlate := hnot.resolve_right (not_not.mpr ⟨id, hshared⟩)
        rw [h.count_shared hclosed hshared, hlate]
      · rw [h.count_own hplaced hhead₀ hclosed hshared]
        split <;> omega

end Counts

variable [Inhabited Cell]

/-- One case per order, and per state of the pool. -/
theorem order (h : Kept p₀ head₀ gone c) (hacyclic : Acyclic p₀.tubes head₀)
    (hplaced : Placed p₀.tubes) {o : PoolOrder} (ho : c.order o = some c') :
    ∃ gone', Kept p₀ head₀ gone' c' := by
  cases o with
  | take =>
    simp only [Custody.order, TubePool.take] at ho
    by_cases hclosed : c.pool.isClosed = true
    · rw [if_pos hclosed] at ho
      cases ho
      exact ⟨gone, h⟩
    · rw [if_neg hclosed] at ho
      cases hidle : c.pool.idle with
      | cons head idle =>
        rw [hidle] at ho
        cases ho
        exact ⟨gone, h.reuse hidle⟩
      | nil =>
        have hopen : c.pool.isClosed = false := Bool.eq_false_iff.mpr hclosed
        have hfork : c.pool.pipeline.closed = false := hopen
        simp only [hidle, Pipeline.fork, hfork, h.head_eq] at ho
        cases ho
        exact ⟨gone, h.fork hacyclic hplaced hopen⟩
  | recycle head =>
    simp only [Custody.order, TubePool.recycle] at ho
    by_cases hout : head ∈ c.out
    · rw [if_pos hout] at ho
      cases hclosed : c.pool.isClosed with
      | true =>
        rw [hclosed] at ho
        cases ho
        exact ⟨head :: gone, h.recycle_late hout hclosed⟩
      | false =>
        rw [hclosed] at ho
        cases ho
        exact ⟨gone, h.recycle_open hout hclosed⟩
    · rw [if_neg hout] at ho
      cases ho
  | close =>
    simp only [Custody.order, TubePool.close] at ho
    cases hclosed : c.pool.isClosed with
    | true =>
      rw [hclosed] at ho
      cases ho
      exact ⟨gone, h⟩
    | false =>
      rw [hclosed] at ho
      cases ho
      exact ⟨c.pool.idle, h.close hplaced (hacyclic.exist .head) hclosed⟩
  | exchange head packet =>
    simp only [Custody.order] at ho
    by_cases hout : head ∈ c.out
    · rw [if_pos hout] at ho
      cases ho
      exact ⟨gone, h.exchange head packet⟩
    · rw [if_neg hout] at ho
      cases ho

theorem follow (h : Kept p₀ head₀ gone c) (hacyclic : Acyclic p₀.tubes head₀)
    (hplaced : Placed p₀.tubes) {orders : List PoolOrder} (hfollow : c.follow orders = some c') :
    ∃ gone', Kept p₀ head₀ gone' c' := by
  induction orders generalizing c gone with
  | nil =>
    cases hfollow
    exact ⟨gone, h⟩
  | cons o orders ih =>
    rw [Custody.follow, List.foldlM_cons, Option.bind_eq_bind, Option.bind_eq_some_iff] at hfollow
    obtain ⟨c₁, ho, hrest⟩ := hfollow
    obtain ⟨gone₁, h₁⟩ := h.order hacyclic hplaced ho
    exact ih h₁ hrest

end Kept

variable [Inhabited Cell]

/-- Whatever chains of a template are taken, used and brought back, before a pool is closed and after: no
tube is destroyed before; then those that the chains share are destroyed with the template and once more
for every chain that comes back late, and the others once with the chain that has them. So tubes are
destroyed at most once just if no chain came back late or nothing is shared. -/
theorem count_destroyed {p : Plant Cell World} {head : TubeId} (hacyclic : Acyclic p.tubes head)
    (hplaced : Placed p.tubes) {orders : List PoolOrder} {c : Custody Cell World}
    (hfollow : (ofTemplate p head).follow orders = some c) :
    ((∀ id, c.destroyed.count id ≤ 1) ↔ c.late = 0 ∨ ¬ ∃ id, Shared p.tubes head id) ∧
    (c.pool.isClosed = false → c.destroyed = []) ∧
    (c.pool.isClosed = true → ∀ head' ∈ head :: c.taken, ∀ id, OnWalk c.plant.tubes head' id →
      (Shared p.tubes head id → c.destroyed.count id = 1 + c.late) ∧
      (¬ Shared p.tubes head id → c.destroyed.count id = if head' ∈ c.out then 0 else 1)) := by
  have hplace : Tube.KeepsPlace (@Tube.noting Cell World) := Tube.keepsPlace_noting
  have hplaced' := hplace.placed_map.mpr hplaced
  have hacyclic' := hplace.acyclic_map hacyclic
  obtain ⟨gone, h⟩ := (Kept.ofTemplate hplaced head).follow hacyclic' hplaced' hfollow
  have hhead := hacyclic'.exist .head
  have hshared : Shared p.noting.tubes head = Shared p.tubes head := by rw [Plant.noting, hplace.shared_map]
  rw [← hshared]
  refine ⟨h.count_le_one hplaced' hhead, fun hopen => (h.unclosed hopen).2.2, fun hclosed head' hhead' id hid => ?_⟩
  constructor
  · exact h.count_shared hclosed
  · intro hown
    exact h.count_taken hplaced' hhead hclosed hown hhead' hid

/-- A tube in front of one that is shared. -/
def branch : Plant Unit Unit where
  tubes := [⟨{ Stage.passing "trunk" with shareable := true }, [], []⟩, ⟨.passing "leaf", [0], []⟩]
  store := ⟨[], ()⟩

theorem acyclic_branch : Acyclic branch.tubes 1 := by
  refine .of_earlier (by decide) fun id _ n hn => ?_
  obtain ⟨t, ht, -, hmem⟩ := hn
  rcases id with _ | _ | id
  · obtain rfl := Option.some.inj ht
    cases hmem
  · obtain rfl := Option.some.inj ht
    rw [List.mem_singleton.mp hmem]
    decide
  · cases ht

theorem placed_branch : Placed branch.tubes := by
  rintro (_ | _ | id) n ⟨t, ht, hn⟩
  · obtain rfl := Option.some.inj ht
    cases hn
  · obtain rfl := Option.some.inj ht
    obtain rfl := Option.some.inj hn
    decide
  · cases ht

theorem shared_branch : Shared branch.tubes 1 0 :=
  ⟨0, .single ⟨_, rfl, rfl⟩, ⟨_, rfl, rfl⟩, .refl⟩

/-- One chain is used twice and comes back late, another one stays out. -/
def laggards : List PoolOrder := [.take, .exchange 2 .empty, .recycle 2, .take, .take, .close, .recycle 2]

theorem count_destroyed_laggards :
    Acyclic branch.tubes 1 ∧ Placed branch.tubes ∧ ∃ c, (ofTemplate branch 1).follow laggards = some c ∧
    c.pool.isClosed = true ∧ c.late = 1 ∧ c.taken = [3, 2, 2] ∧ c.out = [3] ∧
    ¬ (∀ id, c.destroyed.count id ≤ 1) ∧
    c.destroyed.count 0 = 1 + c.late ∧ c.destroyed.count 2 = 1 ∧ c.destroyed.count 3 = 0 := by
  obtain ⟨c, hfollow⟩ : ∃ c, (ofTemplate branch 1).follow laggards = some c := Option.isSome_iff_exists.mp rfl
  have hends : ((ofTemplate branch 1).follow laggards).map
      (fun c => (c.pool.isClosed, c.late, c.taken, c.out, c.plant.tubes[1]?.bind Tube.next?)) =
        some (true, 1, [3, 2, 2], [3], some 0) := rfl
  rw [hfollow, Option.map_some, Option.some_inj] at hends
  simp only [Prod.mk.injEq] at hends
  obtain ⟨hclosed, hlate, htaken, hout, hnext⟩ := hends
  obtain ⟨honce, -, hcount⟩ := count_destroyed acyclic_branch placed_branch hfollow
  replace hcount := hcount hclosed
  rw [htaken, hout] at hcount
  have hown : ∀ id, 1 < id → ¬ Shared branch.tubes 1 id := fun id hid hshared =>
    absurd (hshared.onWalk.lt_length placed_branch (by decide)) (Nat.not_lt.mpr hid)
  refine ⟨acyclic_branch, placed_branch, c, hfollow, hclosed, hlate, htaken, hout, fun hall => ?_, ?_, ?_, ?_⟩
  · rcases honce.mp hall with hnone | hnone
    · rw [hlate] at hnone
      cases hnone
    · exact hnone ⟨0, shared_branch⟩
  · exact (hcount 1 List.mem_cons_self 0 (.single (Option.bind_eq_some_iff.mp hnext))).1 shared_branch
  · exact (hcount 2 (by decide) 2 .refl).2 (hown 2 (by decide))
  · exact (hcount 3 (by decide) 3 .refl).2 (hown 3 (by decide))

/-- A shared tube is destroyed with the template and with the chain that comes back late. -/
theorem trunk_destroyed_twice : ∃ c, (ofTemplate branch 1).follow [.take, .close, .recycle 2] = some c ∧
    c.pool.isClosed = true ∧ c.out = [] ∧ c.destroyed = [1, 0, 2, 0] :=
  ⟨_, rfl, rfl, rfl, rfl⟩

end Custody

end SoapNode
