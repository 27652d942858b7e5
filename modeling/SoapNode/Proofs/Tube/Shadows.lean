import SoapNode.Proofs.Tube.Copies
import SoapNode.Proofs.Tube.Recursion

/-!
# Exchanges on copies

A copy of a chain does what its template does. A stage is uniform if, in worlds that it cannot tell
apart, it makes the same move at every place whose cells hold the same and writes the same there; it
starts an exchange if its request does not even read what an earlier exchange has left in its cells. In a
chain of uniform stages, whose cells are started before they are read, the steps of a fiber on a copy
shadow the steps on the template.
-/

namespace SoapNode

variable {Cell World : Type}

/-- What a stage does, apart from its place. -/
inductive Move where
  | pass (p : Packet)
  | ret (p : Packet)
  | throw (e : RuntimeError)

def Move.action (w : Wiring) : Move → NextAction
  | pass p => w.invokeNext p
  | ret p => .ret p
  | throw e => .throw e

def Stage.call (st : Stage Cell World) (w : Wiring) : Handed → Store Cell World → NextAction × Store Cell World
  | .request p => st.request w p
  | .response p => st.response w p
  | .exception e => st.exception w e

namespace Store

/-- From one store to another only these cells may change. -/
structure Within (changed : CellId → Prop) (s t : Store Cell World) : Prop where
  length : t.cells.length = s.cells.length
  rest : ∀ c, ¬ changed c → t.cells[c]? = s.cells[c]?

namespace Within

variable {changed changed' : CellId → Prop} {s t u : Store Cell World}

theorem refl (changed : CellId → Prop) (s : Store Cell World) : Within changed s s := ⟨rfl, fun _ _ => rfl⟩

theorem trans (h : Within changed s t) (h' : Within changed t u) : Within changed s u :=
  ⟨h'.length.trans h.length, fun c hc => (h'.rest c hc).trans (h.rest c hc)⟩

theorem mono (h : Within changed s t) (hsub : ∀ c, changed c → changed' c) : Within changed' s t :=
  ⟨h.length, fun c hc => h.rest c (fun hc' => hc (hsub c hc'))⟩

theorem cell_eq [Inhabited Cell] (h : Within changed s t) {c : CellId} (hc : ¬ changed c) : t.cell c = s.cell c := by
  rw [cell, cell, List.getD_eq_getElem?_getD, List.getD_eq_getElem?_getD, h.rest c hc]

end Within

end Store

/-- A renamed chain among other tubes. -/
structure Image (tubes : List (Tube Cell World)) (head : TubeId) (tubes' : List (Tube Cell World))
    (ρ : Renaming) : Prop where
  tube : ∀ id, Reaches tubes head id → ∃ t, tubes[id]? = some t ∧ tubes'[ρ.tube id]? = some (t.rename ρ)
  sharing : ∀ id t id' t', Reaches tubes head id → tubes[id]? = some t → Reaches tubes head id' →
    tubes[id']? = some t' →
    ∀ c ∈ t.cells, ∀ c' ∈ t'.cells, ρ.cell c = ρ.cell c' → c = c'

/-- A cell of a tube of the chain. -/
def Holds (tubes : List (Tube Cell World)) (head : TubeId) (c : CellId) : Prop :=
  ∃ id t, Reaches tubes head id ∧ tubes[id]? = some t ∧ c ∈ t.cells

namespace Image

variable {tubes tubes' tubes'' : List (Tube Cell World)} {head : TubeId} {ρ : Renaming}

theorem mono (h : Image tubes head tubes' ρ) (htubes : tubes' <+: tubes'') : Image tubes head tubes'' ρ := by
  refine ⟨fun id hid => ?_, h.sharing⟩
  obtain ⟨t, ht, hcopy⟩ := h.tube id hid
  exact ⟨t, ht, getElem?_mono htubes hcopy⟩

theorem reaches (h : Image tubes head tubes' ρ) {id : TubeId} (hid : Reaches tubes head id) :
    Reaches tubes' (ρ.tube head) (ρ.tube id) := by
  induction hid with
  | head => exact .head
  | @next id n reached successor ih =>
    obtain ⟨t, tube, own, hn⟩ := successor
    obtain ⟨t', ht', hcopy⟩ := h.tube id reached
    obtain rfl := Option.some.inj (tube.symm.trans ht')
    exact .next ih ⟨_, hcopy, own, List.mem_map_of_mem hn⟩

theorem reached (h : Image tubes head tubes' ρ) {id' : TubeId} (hid' : Reaches tubes' (ρ.tube head) id') :
    ∃ id, Reaches tubes head id ∧ ρ.tube id = id' := by
  induction hid' with
  | head => exact ⟨head, .head, rfl⟩
  | @next id' n' reached successor ih =>
    obtain ⟨id, hid, rfl⟩ := ih
    obtain ⟨t', tube, own, hn'⟩ := successor
    obtain ⟨t, ht, hcopy⟩ := h.tube id hid
    obtain rfl := Option.some.inj (hcopy.symm.trans tube)
    obtain ⟨n, hn, rfl⟩ := List.mem_map.mp hn'
    exact ⟨n, .next hid ⟨t, ht, own, hn⟩, rfl⟩

theorem holds (h : Image tubes head tubes' ρ) {id : TubeId} {t : Tube Cell World} (hid : Reaches tubes head id)
    (ht : tubes[id]? = some t) {c : CellId} (hc : c ∈ t.cells) : Holds tubes' (ρ.tube head) (ρ.cell c) := by
  obtain ⟨t', ht', hcopy⟩ := h.tube id hid
  obtain rfl := Option.some.inj (ht.symm.trans ht')
  exact ⟨ρ.tube id, _, h.reaches hid, hcopy, List.mem_map_of_mem hc⟩

theorem held (h : Image tubes head tubes' ρ) {c' : CellId} (hc' : Holds tubes' (ρ.tube head) c') :
    ∃ id t c, Reaches tubes head id ∧ tubes[id]? = some t ∧ c ∈ t.cells ∧ ρ.cell c = c' := by
  obtain ⟨id', t', hid', ht', hmem⟩ := hc'
  obtain ⟨id, hid, rfl⟩ := h.reached hid'
  obtain ⟨t, ht, hcopy⟩ := h.tube id hid
  obtain rfl := Option.some.inj (hcopy.symm.trans ht')
  obtain ⟨c, hc, rfl⟩ := List.mem_map.mp hmem
  exact ⟨id, t, c, hid, ht, hc, rfl⟩

end Image

variable [Inhabited Cell]

/-- Which worlds, and which contents of cells, are taken for the same. -/
structure Likeness (Cell World : Type) where
  world : World → World → Prop
  cell : Cell → Cell → Prop

/-- Cells of one store, one by one, hold what cells of another one do. -/
def Likeness.Cells (L : Likeness Cell World) (s s' : Store Cell World) : List CellId → List CellId → Prop :=
  List.Forall₂ (fun c c' => L.cell (s.cell c) (s'.cell c'))

/-- What has become of two stores, in step with one another, at places with these wirings. -/
structure Abreast (L : Likeness Cell World) (w w' : Wiring) (s s' t t' : Store Cell World) : Prop where
  alike : L.world t.world t'.world
  within : s.Within (· ∈ w.cells) t
  within' : s'.Within (· ∈ w'.cells) t'
  cells : L.Cells t t' w.cells w'.cells

/-- Two callbacks of a stage at different places that have done the same. -/
structure Twins (L : Likeness Cell World) (w w' : Wiring) (s s' : Store Cell World)
    (r r' : NextAction × Store Cell World) :
    Prop extends Abreast L w w' s s' r.2 r'.2 where
  move : ∃ m : Move, r.1 = m.action w ∧ r'.1 = m.action w'

/-- A stage with `n` cells does the same wherever they hold the same. A stage that starts does so for every
request, whatever its cells hold. -/
structure Stage.Uniform (L : Likeness Cell World) (n : Nat) (starts : Bool) (st : Stage Cell World) : Prop where
  call : ∀ (w w' : Wiring) (handed : Handed) (s s' : Store Cell World), w.cells.length = n → w'.cells.length = n →
    (∀ c ∈ w.cells, c < s.cells.length) → (∀ c ∈ w'.cells, c < s'.cells.length) →
      L.world s.world s'.world →
    (L.Cells s s' w.cells w'.cells ∨ starts = true ∧ ∃ p, handed = .request p) →
    Twins L w w' s s' (st.call w handed s) (st.call w' handed s')

/-- A stage whose callbacks touch no cells. -/
theorem Stage.uniform_of_cells {L : Likeness Cell World} {st : Stage Cell World}
    (call : ∀ w w' handed s s', L.world s.world s'.world → ∃ (m : Move) (t t' : World), L.world t t' ∧
      st.call w handed s = (m.action w, { s with world := t }) ∧
      st.call w' handed s' = (m.action w', { s' with world := t' })) :
    st.Uniform L 0 true := by
  constructor
  intro w w' handed s s' hw hw' hroom hroom' hL hcells
  obtain ⟨m, t, t', halike, hcall, hcall'⟩ := call w w' handed s s' hL
  rw [hcall, hcall']
  refine ⟨⟨halike, ⟨rfl, fun _ _ => rfl⟩, ⟨rfl, fun _ _ => rfl⟩, ?_⟩, m, rfl, rfl⟩
  rw [List.eq_nil_of_length_eq_zero hw, List.eq_nil_of_length_eq_zero hw']
  exact .nil

theorem Stage.Uniform.weaken {L : Likeness Cell World} {n : Nat} {st : Stage Cell World} (h : st.Uniform L n true) :
    st.Uniform L n false := by
  constructor
  intro w w' handed s s' hw hw' hroom hroom' hA hcells
  refine h.call w w' handed s s' hw hw' hroom hroom' hA (.inl ?_)
  rcases hcells with hcells | ⟨hstarts, -⟩
  · exact hcells
  · cases hstarts

/-- A tube that may be the first of a chain to see an exchange. -/
def Starts (L : Likeness Cell World) (tubes : List (Tube Cell World)) (id : TubeId) : Prop :=
  ∀ t, tubes[id]? = some t → t.stage.Uniform L t.cells.length true

/-- A chain of uniform stages. A tube that does not start has no cells that the tube in front of it does not have. -/
structure Regular (L : Likeness Cell World) (tubes : List (Tube Cell World)) (head : TubeId) : Prop where
  exist : ∀ id, Reaches tubes head id → id < tubes.length
  uniform : ∀ id t, Reaches tubes head id → tubes[id]? = some t → t.stage.Uniform L t.cells.length false
  started : ∀ id t n t', Reaches tubes head id → tubes[id]? = some t → n ∈ t.successors →
    tubes[n]? = some t' →
    Starts L tubes n ∨ t'.cells ⊆ t.cells
  starts : Starts L tubes head
  /-- Tubes that copies share are last tubes and hold nothing. -/
  shared : ∀ id t, Reaches tubes head id → tubes[id]? = some t → t.stage.shareable = true →
    t.successors = [] ∧ t.cells = []

/-- A copy of a regular chain is an image of it. -/
theorem Regular.image {L : Likeness Cell World} {p p' : Plant Cell World} {head head' : TubeId} {ρ : Renaming}
    (h : Regular L p.tubes head) (hcopied : p.Copied p' head head' ρ) : Image p.tubes head p'.tubes ρ := by
  have hown : ∀ {id t c}, Reaches p.tubes head id → p.tubes[id]? = some t → c ∈ t.cells →
      Owns p.tubes head id t := by
    intro id t c hid ht hc
    refine ⟨hid, ht, Bool.eq_false_iff.mpr fun hshared => ?_⟩
    rw [(h.shared id t hid ht hshared).2] at hc
    cases hc
  constructor
  case tube =>
    intro id hid
    obtain ⟨t, ht⟩ : ∃ t, p.tubes[id]? = some t := ⟨_, List.getElem?_eq_getElem (h.exist id hid)⟩
    refine ⟨t, ht, ?_⟩
    cases hshared : t.stage.shareable with
    | false => exact (hcopied.copy id t ⟨hid, ht, hshared⟩).2
    | true =>
      obtain ⟨hsuccessors, hcells⟩ := h.shared id t hid ht hshared
      have hkept : t.rename ρ = t := by
        rcases t with ⟨st, successors, cells⟩
        obtain rfl : successors = [] := hsuccessors
        obtain rfl : cells = [] := hcells
        rfl
      rw [hcopied.shareable id t hid ht hshared, hkept]
      exact getElem?_mono hcopied.tubes ht
  case sharing =>
    intro id t id' t' hid ht hid' ht' c hc c' hc' heq
    exact (hcopied.sharing id t id' t' (hown hid ht hc) (hown hid' ht' hc') c hc c' hc').mp heq

def Pending.rename (ρ : Renaming) : Pending → Pending
  | request tube p => request (ρ.tube tube) p
  | response p => response p
  | exception e => exception e

/-- The cells of a tube hold the same on a template and on its copy. -/
def Live (L : Likeness Cell World) (tubes : List (Tube Cell World)) (ρ : Renaming) (s s' : Store Cell World)
    (id : TubeId) : Prop :=
  ∀ t, tubes[id]? = some t → ∀ c ∈ t.cells, L.cell (s.cell c) (s'.cell (ρ.cell c))

/-- The tubes that wait in a fiber on the template and in one on the copy. -/
structure Waiting (L : Likeness Cell World) (tubes : List (Tube Cell World)) (head : TubeId) (ρ : Renaming)
    (f f' : Fiber) (s s' : Store Cell World) :
    Prop where
  stack : f'.stack = f.stack.map ρ.tube
  live : ∀ id ∈ f.stack, Reaches tubes head id ∧ Live L tubes ρ s s' id
  room : ∀ c, Holds tubes head c → c < s.cells.length
  room' : ∀ c, Holds tubes head c → ρ.cell c < s'.cells.length

/-- A fiber on a copy, with what it is about to hand over, beside the fiber on the template. -/
structure Shadow (L : Likeness Cell World) (tubes : List (Tube Cell World)) (head : TubeId)
    (ρ : Renaming) (f f' : Fiber) (pending pending' : Pending) (s s' : Store Cell World) :
    Prop extends Waiting L tubes head ρ f f' s s' where
  handed : pending' = pending.rename ρ
  next : ∀ id p, pending = .request id p → Reaches tubes head id ∧ (Starts L tubes id ∨ Live L tubes ρ s s' id)

/-- A step of a fiber on a copy beside the step on the template. -/
inductive Shadow.Beside (L : Likeness Cell World) (tubes : List (Tube Cell World)) (head : TubeId) (ρ : Renaming) :
    Fiber.Step (Store Cell World) → Fiber.Step (Store Cell World) → Prop where
  | going {f f' pending pending' s s'} (shadow : Shadow L tubes head ρ f f' pending pending' s s')
    (alike : L.world s.world s'.world) :
      Beside L tubes head ρ (.going f pending s) (.going f' pending' s')
  | ended {r f f' s s'} (alike : L.world s.world s'.world) : Beside L tubes head ρ (.ended r f s) (.ended r f' s')

section

variable {L : Likeness Cell World} {tubes tubes' : List (Tube Cell World)} {head id : TubeId}
  {t : Tube Cell World} {ρ : Renaming}
  {f f' : Fiber} {pending pending' : Pending} {s s' u u' : Store Cell World}

theorem live_iff (ht : tubes[id]? = some t) :
    Live L tubes ρ s s' id ↔ L.Cells s s' t.cells (t.rename ρ).cells := by
  rw [Likeness.Cells, Tube.rename, List.forall₂_map_right_iff, List.forall₂_same, Live, ht]
  exact ⟨fun h => h t rfl, fun h t' ht' => Option.some.inj ht' ▸ h⟩

/-- A callback of a tube of the chain leaves its own cells equal, and those equal that were so. -/
theorem live_of_twins (himage : Image tubes head tubes' ρ) (hid : Reaches tubes head id) (ht : tubes[id]? = some t)
    {w w' : Wiring} (hw : w.cells = t.cells) (hw' : w'.cells = (t.rename ρ).cells)
    {r r' : NextAction × Store Cell World} (h : Twins L w w' s s' r r') {i : TubeId} (hi : Reaches tubes head i)
    (hlive : i = id ∨ Live L tubes ρ s s' i) : Live L tubes ρ r.2 r'.2 i := by
  have hself : Live L tubes ρ r.2 r'.2 id := (live_iff ht).mpr (by rw [← hw, ← hw']; exact h.cells)
  rcases hlive with rfl | hlive
  · exact hself
  intro t' ht' c hc
  by_cases hown : c ∈ t.cells
  · exact hself t ht c hown
  · have hown' : ρ.cell c ∉ w'.cells := by
      rw [hw', Tube.rename]
      intro hmem
      obtain ⟨d, hd, heq⟩ := List.mem_map.mp hmem
      obtain rfl := himage.sharing id t i t' hid ht hi ht' d hd c hc heq
      exact hown hd
    rw [h.within.cell_eq (by rwa [hw]), h.within'.cell_eq hown']
    exact hlive t' ht' c hc

omit [Inhabited Cell] in
theorem Plant.call_eq (ht : tubes[id]? = some t) (handed : Handed) (s : Store Cell World) :
    (Plant.callbacks tubes).call id handed s = t.stage.call ⟨id, t.successors, t.cells⟩ handed s := by
  cases handed <;> simp only [Callbacks.call, Plant.callbacks, ht] <;> rfl

/-- A callback of a tube on the template and on the copy. -/
theorem twins_call (hregular : Regular L tubes head) (himage : Image tubes head tubes' ρ) (hid : Reaches tubes head id)
    (ht : tubes[id]? = some t) {handed : Handed}
    (hlive : Live L tubes ρ s s' id ∨ Starts L tubes id ∧ ∃ p, handed = .request p)
    (hroom : ∀ c, Holds tubes head c → c < s.cells.length)
    (hroom' : ∀ c, Holds tubes head c → ρ.cell c < s'.cells.length) (hA : L.world s.world s'.world) :
    Twins L ⟨id, t.successors, t.cells⟩ ⟨ρ.tube id, (t.rename ρ).successors, (t.rename ρ).cells⟩ s s'
      ((Plant.callbacks tubes).call id handed s) ((Plant.callbacks tubes').call (ρ.tube id) handed s') := by
  obtain ⟨t', ht', hcopy⟩ := himage.tube id hid
  obtain rfl := Option.some.inj (ht.symm.trans ht')
  have hlength : (t.rename ρ).cells.length = t.cells.length := List.length_map _
  have hcells : ∀ c ∈ t.cells, c < s.cells.length := fun c hc => hroom c ⟨id, t, hid, ht, hc⟩
  have hcells' : ∀ c ∈ (t.rename ρ).cells, c < s'.cells.length := by
    intro c hc
    obtain ⟨d, hd, rfl⟩ := List.mem_map.mp hc
    exact hroom' d ⟨id, t, hid, ht, hd⟩
  rw [Plant.call_eq ht, Plant.call_eq hcopy]
  rcases hlive with hlive | ⟨hstarts, hrequest⟩
  · exact (hregular.uniform id t hid ht).call ⟨id, t.successors, t.cells⟩ ⟨ρ.tube id,
      (t.rename ρ).successors, (t.rename ρ).cells⟩
      handed s s' rfl hlength hcells hcells' hA (.inl ((live_iff ht).mp hlive))
  · exact (hstarts t ht).call ⟨id, t.successors, t.cells⟩ ⟨ρ.tube id,
      (t.rename ρ).successors, (t.rename ρ).cells⟩
      handed s s' rfl hlength hcells hcells' hA (.inr ⟨rfl, hrequest⟩)

theorem Waiting.result (h : Waiting L tubes head ρ f f' s s') (r : Except RuntimeError Packet) :
    Shadow L tubes head ρ f f' (.ofResult r) (.ofResult r) s s' := by
  refine ⟨h, ?_, fun i p hp => ?_⟩
  · cases r <;> rfl
  · cases r <;> cases hp

theorem Waiting.push (h : Waiting L tubes head ρ f f' s s') (hregular : Regular L tubes head)
    (hid : Reaches tubes head id) (ht : tubes[id]? = some t) (hlive : Live L tubes ρ s s' id) {n : TubeId}
    (hn : n ∈ t.successors) (p : Packet) :
    Shadow L tubes head ρ { f with stack := id :: f.stack } { f' with stack := ρ.tube id :: f'.stack } (.request n p)
      (.request (ρ.tube n) p) s s' := by
  have hown : t.stage.shareable = false := by
    refine Bool.eq_false_iff.mpr fun hshared => ?_
    rw [(hregular.shared id t hid ht hshared).1] at hn
    cases hn
  have hreached : Reaches tubes head n := .next hid ⟨t, ht, hown, hn⟩
  refine ⟨⟨congrArg (ρ.tube id :: ·) h.stack, ?_, h.room, h.room'⟩, rfl, fun i q hq => ?_⟩
  · exact List.forall_mem_cons.mpr ⟨⟨hid, hlive⟩, h.live⟩
  · cases hq
    refine ⟨hreached, ?_⟩
    obtain ⟨t', ht'⟩ : ∃ t', tubes[n]? = some t' := ⟨_, List.getElem?_eq_getElem (hregular.exist n hreached)⟩
    rcases hregular.started id t n t' hid ht hn ht' with hstarts | hsub
    · exact .inl hstarts
    · refine .inr fun t'' ht'' c hc => ?_
      obtain rfl := Option.some.inj (ht'.symm.trans ht'')
      exact hlive t ht c (hsub hc)

theorem Waiting.follow (h : Waiting L tubes head ρ f f' s s') (hregular : Regular L tubes head)
    (hid : Reaches tubes head id) (ht : tubes[id]? = some t) (hlive : Live L tubes ρ s s' id)
    (m : Move) {a a' : NextAction} (ha : a = m.action ⟨id, t.successors, t.cells⟩)
    (ha' : a' = m.action ⟨ρ.tube id, (t.rename ρ).successors, (t.rename ρ).cells⟩) :
    Shadow L tubes head ρ (f.follow id a).1 (f'.follow (ρ.tube id) a').1 (f.follow id a).2
      (f'.follow (ρ.tube id) a').2 s s' := by
  subst ha ha'
  cases m with
  | ret p => exact h.result (.ok p)
  | throw e => exact h.result (.error e)
  | pass p =>
    cases hsuccessors : t.successors with
    | nil =>
      rw [show (t.rename ρ).successors = [] from congrArg (List.map ρ.tube) hsuccessors]
      exact h.result (.ok p)
    | cons n rest =>
      rw [show (t.rename ρ).successors = ρ.tube n :: rest.map ρ.tube from congrArg (List.map ρ.tube) hsuccessors]
      exact h.push hregular hid ht hlive (hsuccessors ▸ List.mem_cons_self) p

/-- After a callback of a tube the fibers go on side by side. -/
theorem Waiting.after (h : Waiting L tubes head ρ f f' s s') (hregular : Regular L tubes head)
    (himage : Image tubes head tubes' ρ) (hid : Reaches tubes head id) {handed : Handed}
    (hlive : Live L tubes ρ s s' id ∨ Starts L tubes id ∧ ∃ p, handed = .request p)
    (hA : L.world s.world s'.world) :
    Shadow.Beside L tubes head ρ (Fiber.after f id ((Plant.callbacks tubes).call id handed s))
        (Fiber.after f' (ρ.tube id) ((Plant.callbacks tubes').call (ρ.tube id) handed s')) ∧
      s'.Within (Holds tubes' (ρ.tube head)) ((Plant.callbacks tubes').call (ρ.tube id) handed s').2 := by
  obtain ⟨t, ht⟩ : ∃ t, tubes[id]? = some t := ⟨_, List.getElem?_eq_getElem (hregular.exist id hid)⟩
  have htwins := twins_call hregular himage hid ht hlive h.room h.room' hA
  obtain ⟨m, hm, hm'⟩ := htwins.move
  have hstill : ∀ {i}, Reaches tubes head i → i = id ∨ Live L tubes ρ s s' i → Live L tubes ρ _ _ i :=
    fun hi => live_of_twins himage hid ht rfl rfl htwins hi
  have hwaiting : Waiting L tubes head ρ f f' ((Plant.callbacks tubes).call id handed s).2
      ((Plant.callbacks tubes').call (ρ.tube id) handed s').2 := by
    refine ⟨h.stack, fun i hi => ?_, fun c hc => ?_, fun c hc => ?_⟩
    · obtain ⟨hreached, hlive⟩ := h.live i hi
      exact ⟨hreached, hstill hreached (.inr hlive)⟩
    · rw [htwins.within.length]
      exact h.room c hc
    · rw [htwins.within'.length]
      exact h.room' c hc
  refine ⟨?_, htwins.within'.mono fun c hc => ?_⟩
  · exact .going (hwaiting.follow hregular hid ht (hstill hid (.inl rfl)) m hm hm') htwins.alike
  · obtain ⟨t', ht', hcopy⟩ := himage.tube id hid
    obtain rfl := Option.some.inj (ht.symm.trans ht')
    exact ⟨ρ.tube id, _, himage.reaches hid, hcopy, hc⟩

omit [Inhabited Cell] in
theorem eq_ofResult_or (pending : Pending) : (∃ i p, pending = .request i p) ∨ ∃ r, pending = .ofResult r := by
  cases pending with
  | request i p => exact .inl ⟨i, p, rfl⟩
  | response p => exact .inr ⟨.ok p, rfl⟩
  | exception e => exact .inr ⟨.error e, rfl⟩

/-- The fiber on the copy makes the step that the fiber on the template makes, and touches only cells of the copy. -/
theorem Shadow.step (h : Shadow L tubes head ρ f f' pending pending' s s') (hregular : Regular L tubes head)
    (himage : Image tubes head tubes' ρ) (hA : L.world s.world s'.world) :
    Beside L tubes head ρ (Fiber.step (Plant.callbacks tubes) f pending s)
        (Fiber.step (Plant.callbacks tubes') f' pending' s') ∧
      s'.Within (Holds tubes' (ρ.tube head)) (Fiber.step (Plant.callbacks tubes') f' pending' s').state := by
  obtain rfl := h.handed
  rcases eq_ofResult_or pending with ⟨i, p, rfl⟩ | ⟨r, rfl⟩
  · obtain ⟨hid, hlive⟩ := h.next i p rfl
    have hwaiting : Waiting L tubes head ρ
        { f with state := .processingRequest } { f' with state := .processingRequest } s s' :=
      ⟨h.stack, h.live, h.room, h.room'⟩
    have hready : Live L tubes ρ s s' i ∨ Starts L tubes i ∧ ∃ q, Handed.request p = .request q :=
      hlive.symm.imp (fun h => h) (fun hstarts => ⟨hstarts, p, rfl⟩)
    exact hwaiting.after hregular himage hid hready hA
  · have hrename : (Pending.ofResult r).rename ρ = .ofResult r := by cases r <;> rfl
    rw [hrename]
    rcases f with ⟨fhead, state, stack⟩
    rcases f' with ⟨fhead', state', stack'⟩
    obtain rfl : stack' = stack.map ρ.tube := h.stack
    cases stack with
    | nil =>
      have hend := @Fiber.step_ofResult_nil _ (Plant.callbacks tubes) ⟨fhead, state, []⟩ r s
      have hend' := @Fiber.step_ofResult_nil _ (Plant.callbacks tubes') ⟨fhead', state', []⟩ r s'
      rw [hend, List.map_nil, hend']
      exact ⟨.ended hA, .refl _ _⟩
    | cons i stack =>
      have hback := @Fiber.step_ofResult _ (Plant.callbacks tubes) ⟨fhead, state, []⟩ i stack r s
      have hback' := @Fiber.step_ofResult _ (Plant.callbacks tubes') ⟨fhead', state', []⟩ (ρ.tube i)
        (stack.map ρ.tube) r s'
      rw [hback, List.map_cons, hback']
      obtain ⟨⟨hid, hlive⟩, hbelow⟩ := List.forall_mem_cons.mp h.live
      have hwaiting : Waiting L tubes head ρ ⟨fhead, .processingResponse, stack⟩ ⟨fhead',
        .processingResponse, stack.map ρ.tube⟩
        s s' := ⟨rfl, hbelow, h.room, h.room'⟩
      have hafter (handed : Handed) :=
        hwaiting.after hregular himage hid (.inl hlive : _ ∨ _ ∧ ∃ p, handed = .request p) hA
      cases r with
      | ok p => exact hafter (.response p)
      | error e => exact hafter (.exception e)

/-- The result of an exchange on the copy is that of the exchange on the template. -/
theorem Shadow.advance (h : Shadow L tubes head ρ f f' pending pending' s s') (hregular : Regular L tubes head)
    (himage : Image tubes head tubes' ρ) (hA : L.world s.world s'.world) (n : Nat) :
    Option.Rel (fun q r => q.1 = r.1 ∧ L.world q.2.2.world r.2.2.world ∧
      s'.Within (Holds tubes' (ρ.tube head)) r.2.2)
      (Fiber.advance (Plant.callbacks tubes) n f pending s)
        (Fiber.advance (Plant.callbacks tubes') n f' pending' s') := by
  induction n generalizing f f' pending pending' s s' with
  | zero => exact .none
  | succ n ih =>
    obtain ⟨hbeside, hwithin⟩ := h.step hregular himage hA
    rw [Fiber.advance, Fiber.advance]
    generalize Fiber.step (Plant.callbacks tubes) f pending s = x at hbeside
    generalize Fiber.step (Plant.callbacks tubes') f' pending' s' = x' at hbeside hwithin
    cases hbeside with
    | ended alike => exact .some ⟨rfl, alike, hwithin⟩
    | going shadow alike =>
      have hrel := ih shadow alike
      simp only
      generalize Fiber.advance (Plant.callbacks tubes) n _ _ _ = q at hrel
      generalize Fiber.advance (Plant.callbacks tubes') n _ _ _ = r at hrel
      cases hrel with
      | none => exact .none
      | some hrest => exact .some ⟨hrest.1, hrest.2.1, hwithin.trans hrest.2.2⟩

/-- The beginning of an exchange. The cells of the copy may hold anything. -/
theorem Shadow.begin (hregular : Regular L tubes head) (hroom : ∀ c, Holds tubes head c → c < s.cells.length)
    (hroom' : ∀ c, Holds tubes head c → ρ.cell c < s'.cells.length) (p : Packet) :
    Shadow L tubes head ρ (.ofHead head) (.ofHead (ρ.tube head)) (.request head p)
      (.request (ρ.tube head) p) s s' where
  stack := rfl
  live := nofun
  room := hroom
  room' := hroom'
  handed := rfl
  next i q hi := by
    cases hi
    exact ⟨.head, .inl hregular.starts⟩

/-- What has happened outside the cells of the copy does not matter. -/
theorem Shadow.keep (h : Shadow L tubes head ρ f f' pending pending' s s') (hcells : u.cells = s.cells)
    (hkept : ∀ c, Holds tubes head c → u'.cells[ρ.cell c]? = s'.cells[ρ.cell c]?) :
    Shadow L tubes head ρ f f' pending pending' u u' := by
  have hlive : ∀ {i}, Reaches tubes head i → Live L tubes ρ s s' i → Live L tubes ρ u u' i := by
    intro i hi hlive t ht c hc
    have hsame := hlive t ht c hc
    rw [Store.cell, Store.cell, List.getD_eq_getElem?_getD, List.getD_eq_getElem?_getD] at hsame ⊢
    rwa [hcells, hkept c ⟨i, t, hi, ht, hc⟩]
  have hwaiting : Waiting L tubes head ρ f f' u u' := by
    refine ⟨h.stack, fun i hi => ?_, fun c hc => hcells ▸ h.room c hc, fun c hc => ?_⟩
    · obtain ⟨hid, hsame⟩ := h.live i hi
      exact ⟨hid, hlive hid hsame⟩
    · have hroom := List.getElem?_eq_getElem (h.room' c hc)
      rw [← hkept c hc] at hroom
      exact (List.getElem?_eq_some_iff.mp hroom).1
  exact ⟨hwaiting, h.handed, fun i p hp => (h.next i p hp).imp_right (Or.imp_right (hlive (h.next i p hp).1))⟩

omit [Inhabited Cell] in
theorem rel_getD {α β : Type} {R : α → β → Prop} {a : Option α} {b : Option β}
    (h : Option.Rel R a b) {x : α} {y : β} (hxy : R x y) : R (a.getD x) (b.getD y) := by
  cases h with
  | none => exact hxy
  | some hab => exact hab

/-- An exchange on a copy has the result of the exchange on the template. -/
theorem run_image (hregular : Regular L tubes head) (himage : Image tubes head tubes' ρ)
    (hroom : ∀ c, Holds tubes head c → c < s.cells.length)
    (hroom' : ∀ c, Holds tubes head c → ρ.cell c < s'.cells.length) (hA : L.world s.world s'.world) (p : Packet) :
    let q := Fiber.run (Plant.callbacks tubes) (.ofHead head) p s
    let r := Fiber.run (Plant.callbacks tubes') (.ofHead (ρ.tube head)) p s'
    q.1 = r.1 ∧ L.world q.2.2.world r.2.2.world ∧ s'.Within (Holds tubes' (ρ.tube head)) r.2.2 := by
  have hbegin : Shadow L tubes head ρ (.ofHead head) (.ofHead (ρ.tube head)) (.request head p)
      (.request (ρ.tube head) p) s s' :=
    .begin hregular hroom hroom' p
  have hopen : ∀ h, (Fiber.ofHead h).state ≠ .closed := nofun
  rw [Fiber.run, Fiber.run, if_neg (hopen _), if_neg (hopen _)]
  have hsteps := hbegin.advance hregular himage hA
  exact rel_getD (Fiber.rel_drive fun n => ⟨n, Nat.le_refl n, hsteps n⟩) ⟨rfl, hA, .refl _ _⟩

end

end SoapNode
