import SoapNode.Proofs.Tube.Shadows

/-!
# Templates of pools

A template is a line of uniform stages whose first tube starts every exchange. Whatever a plant has
become since the template was built, a fork is an image of the template with fresh cells. An exchange of a
pool runs on such an image, so it has the result of the exchange on the template as it was built.
-/

namespace SoapNode

variable {Cell World : Type} [Inhabited Cell]

/-- A line of uniform stages. A tube either starts, or has no cells that the tube in front of it does not have. -/
inductive Orderly (L : Likeness Cell World) (tubes : List (Tube Cell World)) (room : Nat) : TubeId → Prop where
  | last {id t} (tube : tubes[id]? = some t) (successors : t.successors = []) (cells : t.cells = [])
      (uniform : t.stage.Uniform L 0 true) (copied : ∀ w s, t.stage.copied w s = s) : Orderly L tubes room id
  | link {id t next t'} (tube : tubes[id]? = some t) (own : t.stage.shareable = false)
    (successors : t.successors = [next])
      (uniform : t.stage.Uniform L t.cells.length false) (copied : ∀ w s, t.stage.copied w s = s)
      (roomy : ∀ c ∈ t.cells, c < room) (earlier : next < id) (tube' : tubes[next]? = some t')
      (started : t'.stage.Uniform L t'.cells.length true ∨ t'.cells ⊆ t.cells)
        (behind : Orderly L tubes room next) :
      Orderly L tubes room id

namespace Orderly

variable {L : Likeness Cell World} {tubes tubes' : List (Tube Cell World)} {room room' : Nat} {head id : TubeId}
  {t : Tube Cell World}

theorem mono (h : Orderly L tubes room id) (htubes : tubes <+: tubes') (hroom : room ≤ room') :
    Orderly L tubes' room' id := by
  have hkept := @getElem?_mono _ _ _ htubes
  induction h with
  | last tube successors cells uniform copied => exact .last (hkept tube) successors cells uniform copied
  | link tube own successors uniform copied roomy earlier tube' started behind ih =>
    exact .link (hkept tube) own successors uniform copied (fun c hc => Nat.lt_of_lt_of_le (roomy c hc) hroom) earlier
      (hkept tube') started ih

theorem lt_length (h : Orderly L tubes room id) : id < tubes.length := by
  cases h with
  | last tube | link tube => exact (List.getElem?_eq_some_iff.mp tube).1

theorem linked (h : Orderly L tubes room id) :
    ∃ stages, Linked tubes id stages ∧ ∀ st ∈ stages, ∀ w s, st.copied w s = s := by
  induction h with
  | @last id t tube successors cells uniform copied =>
    exact ⟨_, .last tube successors, List.forall_mem_singleton.mpr copied⟩
  | link tube own successors uniform copied roomy earlier tube' started behind ih =>
    obtain ⟨stages, hlinked, hstages⟩ := ih
    exact ⟨_, .link tube successors earlier hlinked, List.forall_mem_cons.mpr ⟨copied, hstages⟩⟩

/-- A tube put in front of a line of tubes. -/
theorem add {next : TubeId} {t' : Tube Cell World} (h : Orderly L tubes room next) (own : t.stage.shareable = false)
    (successors : t.successors = [next]) (uniform : t.stage.Uniform L t.cells.length false)
    (copied : ∀ w s, t.stage.copied w s = s) (roomy : ∀ c ∈ t.cells, c < room) (tube' : tubes[next]? = some t')
    (started : t'.stage.Uniform L t'.cells.length true ∨ t'.cells ⊆ t.cells) :
    Orderly L (tubes ++ [t]) room tubes.length :=
  .link List.getElem?_concat_length own successors uniform copied roomy h.lt_length
    (getElem?_mono (List.prefix_append tubes [t]) tube') started
      (h.mono (List.prefix_append tubes [t]) (Nat.le_refl room))

theorem succeeds (h : Orderly L tubes room id) {n : TubeId} (hn : Succeeds tubes id n) :
    Orderly L tubes room n ∧ n < id := by
  obtain ⟨t, ht, -, hmem⟩ := hn
  cases h with
  | last tube successors cells uniform copied =>
    obtain rfl := Option.some.inj (tube.symm.trans ht)
    rw [successors] at hmem
    cases hmem
  | link tube own successors uniform copied roomy earlier tube' started behind =>
    obtain rfl := Option.some.inj (tube.symm.trans ht)
    rw [successors] at hmem
    obtain rfl := List.mem_singleton.mp hmem
    exact ⟨behind, earlier⟩

theorem reached (h : Orderly L tubes room head) (hid : Reaches tubes head id) : Orderly L tubes room id := by
  induction hid with
  | head => exact h
  | next reached successor ih => exact (ih.succeeds successor).1

theorem acyclic (h : Orderly L tubes room head) : Acyclic tubes head :=
  .of_earlier h.lt_length fun _ hid _ hn => ((h.reached hid).succeeds hn).2

theorem copied_eq (h : Orderly L tubes room id) (ht : tubes[id]? = some t) (w : Wiring) (s : Store Cell World) :
    t.stage.copied w s = s := by
  cases h with
  | last tube _ _ _ copied | link tube _ _ _ copied =>
    obtain rfl := Option.some.inj (tube.symm.trans ht)
    exact copied w s

theorem lt_room (h : Orderly L tubes room id) (ht : tubes[id]? = some t) : ∀ c ∈ t.cells, c < room := by
  cases h with
  | last tube successors cells =>
    obtain rfl := Option.some.inj (tube.symm.trans ht)
    rw [cells]
    exact nofun
  | link tube own successors uniform copied roomy =>
    obtain rfl := Option.some.inj (tube.symm.trans ht)
    exact roomy

end Orderly

/-- A template on the plant that it was built on. -/
structure Template (L : Likeness Cell World) (p : Plant Cell World) (head : TubeId) : Prop where
  orderly : Orderly L p.tubes p.store.cells.length head
  starts : Starts L p.tubes head

/-- A chain of a plant with the tubes of a template, renamed. -/
structure Fork (p₀ : Plant Cell World) (head₀ : TubeId) (p : Plant Cell World) (head : TubeId)
    (ρ : Renaming) : Prop where
  head_eq : ρ.tube head₀ = head
  image : Image p₀.tubes head₀ p.tubes ρ
  room : ∀ c, Holds p₀.tubes head₀ c → ρ.cell c < p.store.cells.length

/-- A plant to which nothing but tubes and cells was added since it was another one. -/
structure Plant.Extends (p₀ p : Plant Cell World) : Prop where
  tubes : p₀.tubes <+: p.tubes
  cells : p₀.store.cells.length ≤ p.store.cells.length

namespace Template

variable {L : Likeness Cell World} {p₀ p : Plant Cell World} {head₀ : TubeId}

theorem regular (h : Template L p₀ head₀) : Regular L p₀.tubes head₀ where
  exist id hid := (h.orderly.reached hid).lt_length
  uniform id t hid ht := by
    cases h.orderly.reached hid with
    | last tube successors cells uniform =>
      obtain rfl := Option.some.inj (tube.symm.trans ht)
      rw [cells]
      exact uniform.weaken
    | link tube own successors uniform =>
      obtain rfl := Option.some.inj (tube.symm.trans ht)
      exact uniform
  started id t n t' hid ht hn ht' := by
    cases h.orderly.reached hid with
    | last tube successors =>
      obtain rfl := Option.some.inj (tube.symm.trans ht)
      rw [successors] at hn
      cases hn
    | link tube own successors uniform copied roomy earlier tube' started =>
      obtain rfl := Option.some.inj (tube.symm.trans ht)
      rw [successors] at hn
      obtain rfl := List.mem_singleton.mp hn
      obtain rfl := Option.some.inj (tube'.symm.trans ht')
      refine started.imp (fun hstarts t'' ht'' => ?_) (fun hsub => hsub)
      obtain rfl := Option.some.inj (tube'.symm.trans ht'')
      exact hstarts
  starts := h.starts
  shared id t hid ht hshared := by
    cases h.orderly.reached hid with
    | last tube successors cells =>
      obtain rfl := Option.some.inj (tube.symm.trans ht)
      exact ⟨successors, cells⟩
    | link tube own =>
      obtain rfl := Option.some.inj (tube.symm.trans ht)
      rw [own] at hshared
      cases hshared

theorem room (h : Template L p₀ head₀) : ∀ c, Holds p₀.tubes head₀ c → c < p₀.store.cells.length := by
  rintro c ⟨id, t, hid, ht, hc⟩
  exact (h.orderly.reached hid).lt_room ht c hc

theorem mono (h : Template L p₀ head₀) (hext : p₀.Extends p) : Template L p head₀ := by
  refine ⟨h.orderly.mono hext.tubes hext.cells, fun t ht => ?_⟩
  obtain ⟨t', ht'⟩ : ∃ t', p₀.tubes[head₀]? = some t' := ⟨_, List.getElem?_eq_getElem h.orderly.lt_length⟩
  obtain rfl := Option.some.inj ((getElem?_mono hext.tubes ht').symm.trans ht)
  exact h.starts _ ht'

theorem starts_concat {tubes : List (Tube Cell World)} {t : Tube Cell World}
    (h : t.stage.Uniform L t.cells.length true) : Starts L (tubes ++ [t]) tubes.length := by
  intro t' ht'
  obtain rfl := Option.some.inj (List.getElem?_concat_length.symm.trans ht')
  exact h

omit [Inhabited Cell] in
theorem reaches_mono {tubes tubes' : List (Tube Cell World)} (htubes : tubes <+: tubes') {head id : TubeId}
    (hid : Reaches tubes head id) : Reaches tubes' head id := by
  induction hid with
  | head => exact .head
  | next reached successor ih =>
    obtain ⟨t, ht, hown, hn⟩ := successor
    exact .next ih ⟨t, getElem?_mono htubes ht, hown, hn⟩

/-- A fork of a template, made on a plant that has grown since, has fresh cells. -/
theorem fork (h : Template L p₀ head₀) (hext : p₀.Extends p) :
    ∃ ρ, Fork p₀ head₀ (p.copyChain head₀).2 (p.copyChain head₀).1 ρ ∧
      p.Extends (p.copyChain head₀).2 ∧
      (p.copyChain head₀).2.store.world = p.store.world ∧
      (∀ c, Holds p₀.tubes head₀ c → p.store.cells.length ≤ ρ.cell c) ∧
      p.store.cells <+: (p.copyChain head₀).2.store.cells := by
  have hgrown := h.mono hext
  have htube := @getElem?_mono _ _ _ hext.tubes
  obtain ⟨ρ, hcopied⟩ := Plant.copied_copyChain hgrown.orderly.acyclic
    (fun id t howns w s => by rw [(hgrown.orderly.reached howns.reached).copied_eq howns.tube])
  have himage := hgrown.regular.image hcopied
  have hholds : ∀ c, Holds p₀.tubes head₀ c → ∃ id t, Owns p.tubes head₀ id t ∧ c ∈ t.cells := by
    rintro c ⟨id, t, hid, ht, hc⟩
    refine ⟨id, t, ⟨reaches_mono hext.tubes hid, htube ht, ?_⟩, hc⟩
    refine Bool.eq_false_iff.mpr fun hshared => ?_
    rw [(h.regular.shared id t hid ht hshared).2] at hc
    cases hc
  obtain ⟨stages, hlinked, hstages⟩ := hgrown.orderly.linked
  have hworld := (Plant.linked_copyChain hstages hlinked).2.world
  refine ⟨ρ, ⟨hcopied.head_eq.symm, ⟨fun id hid => ?_, ?_⟩, fun c hc => ?_⟩,
    ⟨hcopied.tubes, hcopied.cells.length_le⟩, hworld, fun c hc => ?_, hcopied.cells⟩
  · obtain ⟨t, ht, hcopy⟩ := himage.tube id (reaches_mono hext.tubes hid)
    refine ⟨t, ?_, hcopy⟩
    obtain ⟨t', ht'⟩ : ∃ t', p₀.tubes[id]? = some t' :=
      ⟨_, List.getElem?_eq_getElem (h.regular.exist id hid)⟩
    rw [ht', ← htube ht', ht]
  · intro id t id' t' hid ht hid' ht'
    exact himage.sharing id t id' t' (reaches_mono hext.tubes hid) (htube ht) (reaches_mono hext.tubes hid') (htube ht')
  · obtain ⟨id, t, howns, hmem⟩ := hholds c hc
    exact (List.getElem?_eq_some_iff.mp (hcopied.fresh id t howns c hmem).2).1
  · obtain ⟨id, t, howns, hmem⟩ := hholds c hc
    exact (hcopied.fresh id t howns c hmem).1

end Template

omit [Inhabited Cell] in
theorem Plant.Extends.refl (p : Plant Cell World) : p.Extends p := ⟨List.prefix_rfl, Nat.le_refl _⟩

omit [Inhabited Cell] in
theorem Plant.Extends.trans {p q r : Plant Cell World} (h : p.Extends q) (h' : q.Extends r) : p.Extends r :=
  ⟨h.tubes.trans h'.tubes, Nat.le_trans h.cells h'.cells⟩

section

variable {L : Likeness Cell World} {p₀ p p' : Plant Cell World} {head₀ head : TubeId}
  {ρ : Renaming} {pool : TubePool}

omit [Inhabited Cell] in
theorem Fork.mono (h : Fork p₀ head₀ p head ρ) (hext : p.Extends p') : Fork p₀ head₀ p' head ρ :=
  ⟨h.head_eq, h.image.mono hext.tubes, fun c hc => Nat.lt_of_lt_of_le (h.room c hc) hext.cells⟩

omit [Inhabited Cell] in
theorem Fork.holds_iff (h : Fork p₀ head₀ p head ρ) {c : CellId} :
    Holds p.tubes head c ↔ ∃ c₀, Holds p₀.tubes head₀ c₀ ∧ ρ.cell c₀ = c := by
  rw [← h.head_eq]
  constructor
  · intro hc
    obtain ⟨id, t, c₀, hid, ht, hc₀, rfl⟩ := h.image.held hc
    exact ⟨c₀, ⟨id, t, hid, ht, hc₀⟩, rfl⟩
  · rintro ⟨c₀, ⟨id, t, hid, ht, hc₀⟩, rfl⟩
    exact h.image.holds hid ht hc₀

/-- A run on a fork has the result of the run on the template. -/
theorem Fork.run (h : Fork p₀ head₀ p head ρ) (htemplate : Template L p₀ head₀)
    (halike : L.world p₀.world p.world) (packet : Packet) :
    (p.run (.ofHead head) packet).1 = (p₀.run (.ofHead head₀) packet).1 ∧
      L.world (p₀.run (.ofHead head₀) packet).2.2.world (p.run (.ofHead head) packet).2.2.world ∧
      p.Extends (p.run (.ofHead head) packet).2.2 := by
  obtain ⟨rfl, himage, hroom⟩ := h
  obtain ⟨hresult, halike, hwithin⟩ := run_image htemplate.regular himage htemplate.room hroom halike packet
  exact ⟨hresult.symm, halike, List.prefix_rfl, Nat.le_of_eq hwithin.length.symm⟩

/-- An open pool of forks of a template. -/
structure Stocked (p₀ : Plant Cell World) (head₀ : TubeId) (pool : TubePool) (p : Plant Cell World) : Prop where
  unclosed : pool.pipeline.closed = false
  head_eq : pool.pipeline.head = head₀
  grown : p₀.Extends p
  idle : ∀ head ∈ pool.idle, ∃ ρ, Fork p₀ head₀ p head ρ

namespace Stocked

omit [Inhabited Cell] in
theorem ofHead (hext : p₀.Extends p) : Stocked p₀ head₀ (.ofHead head₀) p := ⟨rfl, rfl, hext, nofun⟩

omit [Inhabited Cell] in
theorem mono (h : Stocked p₀ head₀ pool p) (hext : p.Extends p') : Stocked p₀ head₀ pool p' := by
  refine ⟨h.unclosed, h.head_eq, h.grown.trans hext, fun head hhead => ?_⟩
  obtain ⟨ρ, hfork⟩ := h.idle head hhead
  exact ⟨ρ, hfork.mono hext⟩

omit [Inhabited Cell] in
/-- What the cells and the world of the template hold does not matter. -/
theorem ofTubes {p₀' : Plant Cell World} (h : Stocked p₀ head₀ pool p) (htubes : p₀'.tubes = p₀.tubes)
    (hlength : p₀'.store.cells.length = p₀.store.cells.length) : Stocked p₀' head₀ pool p := by
  refine ⟨h.unclosed, h.head_eq, ⟨htubes ▸ h.grown.tubes, hlength ▸ h.grown.cells⟩, fun head hhead => ?_⟩
  obtain ⟨ρ, hfork⟩ := h.idle head hhead
  exact ⟨ρ, hfork.head_eq, htubes ▸ hfork.image, htubes ▸ hfork.room⟩

theorem take (h : Stocked p₀ head₀ pool p) (htemplate : Template L p₀ head₀) :
    ∃ head pool' p' ρ, pool.take p = (.ok head, pool', p') ∧ Fork p₀ head₀ p' head ρ ∧
      Stocked p₀ head₀ pool' p' ∧
      p'.world = p.world := by
  rw [TubePool.take, TubePool.isClosed, h.unclosed]
  simp only [Bool.false_eq_true, if_false]
  split
  · rename_i head idle hidle
    have hstocked := h.idle
    rw [hidle] at hstocked
    obtain ⟨⟨ρ, hfork⟩, hrest⟩ := List.forall_mem_cons.mp hstocked
    exact ⟨head, _, p, ρ, rfl, hfork, ⟨h.unclosed, h.head_eq, h.grown, hrest⟩, rfl⟩
  · obtain ⟨ρ, hfork, hext, hworld, -⟩ := htemplate.fork h.grown
    rw [Pipeline.fork, h.unclosed, h.head_eq]
    exact ⟨_, pool, _, ρ, rfl, hfork, h.mono hext, hworld⟩

/-- An exchange of the pool has the result of the exchange on the template. -/
theorem process (h : Stocked p₀ head₀ pool p) (htemplate : Template L p₀ head₀)
    (halike : L.world p₀.world p.world) (packet : Packet) :
    (pool.process packet p).1 = (p₀.run (.ofHead head₀) packet).1 ∧
      Stocked p₀ head₀ (pool.process packet p).2.1 (pool.process packet p).2.2 ∧
      L.world (p₀.run (.ofHead head₀) packet).2.2.world (pool.process packet p).2.2.world := by
  obtain ⟨head, pool', p', ρ, htake, hfork, hstocked, hworld⟩ := h.take htemplate
  obtain ⟨hresult, halike', hext⟩ := hfork.run htemplate (by rwa [hworld]) packet
  have hidle := (hstocked.mono hext).idle
  rw [TubePool.process, htake]
  simp only [TubePool.recycle, TubePool.isClosed, hstocked.unclosed, Bool.false_eq_true, if_false]
  refine ⟨hresult, ⟨hstocked.unclosed, hstocked.head_eq, (hstocked.mono hext).grown, ?_⟩, halike'⟩
  exact List.forall_mem_cons.mpr ⟨⟨ρ, hfork.mono hext⟩, hidle⟩

end Stocked

end

end SoapNode
