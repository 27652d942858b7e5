import SoapNode.Tube.Pool

/-!
# Chains of a pool

A chain is a line of tubes with a list of stages. A copy of a chain has the stages of the chain, and
chains that exist stay as they are while tubes are added. So every exchange of a pool runs on a chain
with the stages of its template.
-/

namespace SoapNode

variable {Cell World : Type}

theorem getElem?_mono {α : Type} {l l' : List α} (h : l <+: l') {i : Nat} {a : α} (ha : l[i]? = some a) :
    l'[i]? = some a := by
  obtain ⟨added, rfl⟩ := h
  rw [List.getElem?_append_left (List.getElem?_eq_some_iff.mp ha).1, ha]

/-- From a tube on, each tube has the next one as its only successor, and these are their stages. -/
inductive Linked (tubes : List (Tube Cell World)) : TubeId → List (Stage Cell World) → Prop where
  | last {id t} (tube : tubes[id]? = some t) (successors : t.successors = []) : Linked tubes id [t.stage]
  | link {id t next stages} (tube : tubes[id]? = some t) (successors : t.successors = [next]) (earlier : next < id)
      (behind : Linked tubes next stages) : Linked tubes id (t.stage :: stages)

namespace Linked

variable {tubes tubes' : List (Tube Cell World)} {id : TubeId} {stages : List (Stage Cell World)}

theorem mono (h : Linked tubes id stages) (htubes : tubes <+: tubes') : Linked tubes' id stages := by
  induction h with
  | last tube successors => exact .last (getElem?_mono htubes tube) successors
  | link tube successors earlier behind ih => exact .link (getElem?_mono htubes tube) successors earlier ih

theorem lt_length (h : Linked tubes id stages) : id < tubes.length := by
  cases h with
  | last tube _ => exact (List.getElem?_eq_some_iff.mp tube).1
  | link tube _ _ _ => exact (List.getElem?_eq_some_iff.mp tube).1

theorem of_add_last {t : Tube Cell World} (successors : t.successors = []) :
    Linked (tubes ++ [t]) tubes.length [t.stage] := .last (by simp) successors

theorem of_add {t : Tube Cell World} {next : TubeId} (successors : t.successors = [next])
    (behind : Linked tubes next stages) : Linked (tubes ++ [t]) tubes.length (t.stage :: stages) :=
  .link (by simp) successors behind.lt_length (behind.mono (List.prefix_append tubes [t]))

end Linked

namespace Plant

variable [Inhabited Cell]

/-- A plant to which tubes with known stages and empty cells were added. -/
structure Grows (stages : List (Stage Cell World)) (p p' : Plant Cell World) : Prop where
  tubes : p.tubes <+: p'.tubes
  staged : ∀ t ∈ p'.tubes, t ∈ p.tubes ∨ t.stage ∈ stages
  world : p'.store.world = p.store.world
  cells : ∃ n, p'.store.cells = p.store.cells ++ List.replicate n default

theorem Grows.refl (stages : List (Stage Cell World)) (p : Plant Cell World) : Grows stages p p :=
  ⟨List.prefix_rfl, fun _ ht => .inl ht, rfl, 0, (List.append_nil _).symm⟩

theorem Grows.mono {stages stages' : List (Stage Cell World)} {p q : Plant Cell World} (h : Grows stages p q)
    (hsub : stages ⊆ stages') : Grows stages' p q :=
  ⟨h.tubes, fun t ht => (h.staged t ht).imp id (fun hst => hsub hst), h.world, h.cells⟩

theorem Grows.trans {stages : List (Stage Cell World)} {p q r : Plant Cell World} (h : Grows stages p q)
    (h' : Grows stages q r) : Grows stages p r := by
  obtain ⟨n, hn⟩ := h.cells
  obtain ⟨n', hn'⟩ := h'.cells
  refine ⟨h.tubes.trans h'.tubes, ?_, h'.world.trans h.world, n + n', ?_⟩
  · intro t ht
    rcases h'.staged t ht with ht | ht
    · exact h.staged t ht
    · exact .inr ht
  · rw [hn', hn, List.append_assoc, List.replicate_append_replicate]

end Plant

namespace Cloner

open Plant

variable [Inhabited Cell]

theorem grows_copyCell (c : Cloner) (id : CellId) (p : Plant Cell World) (stages : List (Stage Cell World)) :
    Grows stages p (copyCell c id p).2.2 := by
  rw [copyCell]
  split
  · exact .refl stages p
  · exact ⟨List.prefix_rfl, fun _ ht => .inl ht, rfl, 1, rfl⟩

theorem grows_copyCells (c : Cloner) (ids : List CellId) (p : Plant Cell World) (stages : List (Stage Cell World)) :
    Grows stages p (copyEach copyCell ids c p).2.2 := by
  induction ids generalizing c p with
  | nil => exact .refl stages p
  | cons id ids ih =>
    rw [copyEach]
    exact (grows_copyCell c id p stages).trans (ih _ _)

theorem grows_add {stages : List (Stage Cell World)} (hcopied : ∀ st ∈ stages, ∀ w s, st.copied w s = s)
    {st : Stage Cell World} (hst : st ∈ stages) (successors : List TubeId) (cells : List CellId) (w : Wiring)
    (p : Plant Cell World) :
    Grows stages p { (p.add ⟨st, successors, cells⟩).2 with
      store := st.copied w (p.add ⟨st, successors, cells⟩).2.store } := by
  rw [hcopied st hst]
  refine ⟨List.prefix_append _ _, ?_, rfl, 0, (List.append_nil _).symm⟩
  intro t ht
  rcases List.mem_append.mp ht with ht | ht
  · exact .inl ht
  · rw [List.mem_singleton.mp ht]
    exact .inr hst

omit [Inhabited Cell] in
theorem copyEach_singleton {ι : Type}
    (copyOne : Cloner → ι → Plant Cell World → ι × Cloner × Plant Cell World) (i : ι) (c : Cloner)
    (p : Plant Cell World) :
    copyEach copyOne [i] c p = ([(copyOne c i p).1], (copyOne c i p).2.1, (copyOne c i p).2.2) := rfl

theorem linked_copyTube {stages : List (Stage Cell World)}
    (hcopied : ∀ st ∈ stages, ∀ w s, st.copied w s = s) {depth : Nat} {id : TubeId}
    (hdepth : id < depth) {c : Cloner} (hnew : ∀ i ≤ id, c.tubes.lookup i = none) {p : Plant Cell World}
    (h : Linked p.tubes id stages) :
    Linked (copyTube depth c id p).2.2.tubes (copyTube depth c id p).1 stages ∧
      Grows stages p (copyTube depth c id p).2.2 := by
  induction h generalizing depth with
  | @last id t tube successors =>
    obtain ⟨depth, rfl⟩ := Nat.exists_eq_add_of_lt (Nat.zero_lt_of_lt hdepth)
    have hmem : t.stage ∈ [t.stage] := List.mem_singleton_self _
    rw [Nat.zero_add] at hdepth
    rw [Nat.zero_add, copyTube, hnew id (Nat.le_refl id), tube]
    simp only
    split
    · exact ⟨.last tube successors, .refl _ p⟩
    · have hcells := grows_copyCells c t.cells p [t.stage]
      rw [successors, copyEach]
      refine ⟨?_, hcells.trans (grows_add hcopied hmem _ _ _ _)⟩
      exact .of_add_last (t := ⟨t.stage, [], _⟩) rfl
  | @link id t next stages tube successors earlier behind ih =>
    obtain ⟨depth, rfl⟩ := Nat.exists_eq_add_of_lt (Nat.zero_lt_of_lt hdepth)
    have hmem : t.stage ∈ t.stage :: stages := List.mem_cons_self
    have hbehind : stages ⊆ t.stage :: stages := List.subset_cons_self _ _
    rw [Nat.zero_add] at hdepth
    rw [Nat.zero_add, copyTube, hnew id (Nat.le_refl id), tube]
    simp only
    split
    · exact ⟨.link tube successors earlier behind, .refl _ p⟩
    · obtain ⟨hlinked, hgrows⟩ :=
        ih (fun st hst => hcopied st (hbehind hst)) (Nat.lt_of_lt_of_le earlier (Nat.le_of_lt_succ hdepth))
          (fun i hi => hnew i (Nat.le_trans hi (Nat.le_of_lt earlier)))
      rw [successors, copyEach_singleton]
      rcases hcopy : copyTube depth c next p with ⟨next', c', p'⟩
      rw [hcopy] at hlinked hgrows
      have hcells := grows_copyCells c' t.cells p' (t.stage :: stages)
      refine ⟨?_, ((hgrows.mono hbehind).trans hcells).trans (grows_add hcopied hmem _ _ _ _)⟩
      exact .of_add rfl (hlinked.mono hcells.tubes)

end Cloner

theorem Plant.linked_copyChain [Inhabited Cell] {stages : List (Stage Cell World)}
    (hcopied : ∀ st ∈ stages, ∀ w s, st.copied w s = s) {p : Plant Cell World} {head : TubeId}
    (h : Linked p.tubes head stages) :
    Linked (p.copyChain head).2.tubes (p.copyChain head).1 stages ∧ Plant.Grows stages p (p.copyChain head).2 :=
  Cloner.linked_copyTube hcopied h.lt_length (fun _ _ => rfl) h

namespace TubePool

/-- An open pool whose chains all have these stages, as all tubes of the plant have. -/
structure Serving (stages : List (Stage Cell World)) (pool : TubePool) (p : Plant Cell World) : Prop where
  unclosed : pool.pipeline.closed = false
  template : Linked p.tubes pool.pipeline.head stages
  idle : ∀ head ∈ pool.idle, Linked p.tubes head stages
  staged : ∀ t ∈ p.tubes, t.stage ∈ stages

variable [Inhabited Cell] {stages : List (Stage Cell World)} {pool : TubePool} {p : Plant Cell World}

theorem Serving.take (h : Serving stages pool p) (hcopied : ∀ st ∈ stages, ∀ w s, st.copied w s = s) :
    ∃ head pool' p', pool.take p = (.ok head, pool', p') ∧ Linked p'.tubes head stages ∧
      Serving stages pool' p' ∧
      Plant.Grows stages p p' := by
  rw [TubePool.take, isClosed, h.unclosed]
  simp only [Bool.false_eq_true, if_false]
  split
  · rename_i head idle hidle
    refine ⟨head, _, p, rfl, h.idle head (by rw [hidle]; exact List.mem_cons_self), ?_, .refl stages p⟩
    refine ⟨h.unclosed, h.template, ?_, h.staged⟩
    intro head' hhead'
    exact h.idle head' (by rw [hidle]; exact List.mem_cons_of_mem _ hhead')
  · rename_i hidle
    obtain ⟨hlinked, hgrows⟩ := p.linked_copyChain hcopied h.template
    rw [Pipeline.fork, h.unclosed]
    refine ⟨_, pool, _, rfl, hlinked, ⟨h.unclosed, h.template.mono hgrows.tubes, ?_, ?_⟩, hgrows⟩
    · rw [hidle]
      rintro head' ⟨⟩
    · intro t ht
      rcases hgrows.staged t ht with ht | ht
      · exact h.staged t ht
      · exact ht

/-- An exchange of a pool is a run on a chain with its stages. -/
theorem Serving.process (h : Serving stages pool p)
    (hcopied : ∀ st ∈ stages, ∀ w s, st.copied w s = s) (packet : Packet) :
    ∃ head p' pool', Linked p'.tubes head stages ∧ Plant.Grows stages p p' ∧
      (∀ t ∈ p'.tubes, t.stage ∈ stages) ∧
      pool.process packet p = ((p'.run (.ofHead head) packet).1, pool', (p'.run (.ofHead head) packet).2.2) ∧
      Serving stages pool' (p'.run (.ofHead head) packet).2.2 := by
  obtain ⟨head, pool', p', htake, hlinked, hserving, hgrows⟩ := h.take hcopied
  refine ⟨head, p', { pool' with idle := head :: pool'.idle }, hlinked, hgrows, hserving.staged, ?_, ?_⟩
  · rw [TubePool.process, htake]
    simp only [recycle, isClosed, hserving.unclosed]
    rfl
  · refine ⟨hserving.unclosed, hserving.template, ?_, hserving.staged⟩
    intro head' hhead'
    rcases List.mem_cons.mp hhead' with rfl | hhead'
    · exact hlinked
    · exact hserving.idle head' hhead'

end TubePool

end SoapNode
