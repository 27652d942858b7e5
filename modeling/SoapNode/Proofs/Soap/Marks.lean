import Mathlib.Data.List.InsertIdx
import Mathlib.Tactic.Common
import SoapNode.Soap.Header

/-!
# Marks and their blocks

Blocks come into a list, are replaced, taken out and marked. Beside the list stands what became of each of its
blocks: whether it was marked itself, and whether it was put in the place of one that was understood. A mark
stays with its block when others are taken out, but it stays behind when its block is replaced, so that the new
block is understood as the old one was.
-/

namespace SoapNode

/-- A change to a list of blocks. -/
inductive HeaderStep where
  | add (h : Header)
  | addOrReplace (h : Header)
  | remove (name : QName)
  | mark (i : Nat)

/-- A block in a list, with what became of it there. -/
structure Place where
  block : Header
  /-- The block itself was marked. -/
  marked : Bool
  /-- The block was put in the place of one that was understood. -/
  inherited : Bool
  deriving DecidableEq

namespace Place

def fresh (h : Header) : Place := ⟨h, false, false⟩

def understood (p : Place) : Bool := p.marked || p.inherited

def setMarked (p : Place) : Place := { p with marked := true }

def replace (h : Header) : List Place → List Place
  | [] => [fresh h]
  | p :: ps => if p.block.name = h.name then ⟨h, false, p.understood⟩ :: ps else p :: replace h ps

def after (ps : List Place) : HeaderStep → List Place
  | .add h => ps ++ [fresh h]
  | .addOrReplace h => replace h ps
  | .remove name => ps.eraseP (·.block.name = name)
  | .mark i => ps.modify i setMarked

theorem map_block_replace (h : Header) (ps : List Place) :
    (replace h ps).map block = HeaderList.addOrReplace.go h (ps.map block) := by
  induction ps with
  | nil => rfl
  | cons p ps ih =>
    rw [replace, List.map_cons, HeaderList.addOrReplace.go]
    split
    · rfl
    · rw [List.map_cons, ih]

theorem map_block_modify (i : Nat) (ps : List Place) : (ps.modify i setMarked).map block = ps.map block := by
  apply List.ext_getElem?
  intro j
  rw [List.getElem?_map, List.getElem?_map, List.getElem?_modify]
  cases ps[j]? with
  | none => split <;> rfl
  | some p => split <;> rfl

theorem any_getElem?_append_fresh (ps : List Place) (h : Header) (j : Nat) :
    (ps ++ [fresh h])[j]?.any understood = ps[j]?.any understood := by
  rw [List.getElem?_append]
  split
  · rfl
  · rename_i hlast
    rw [List.getElem?_eq_none (Nat.le_of_not_lt hlast), List.getElem?_singleton]
    split <;> rfl

/-- The new block is understood where the old one was. -/
theorem any_getElem?_replace (h : Header) (ps : List Place) (j : Nat) :
    (replace h ps)[j]?.any understood = ps[j]?.any understood := by
  induction ps generalizing j with
  | nil => exact any_getElem?_append_fresh [] h j
  | cons p ps ih =>
    rw [replace]
    split
    · cases j with
      | zero => simp [understood]
      | succ j => rfl
    · cases j with
      | zero => rfl
      | succ j => exact ih j

theorem any_getElem?_modify (ps : List Place) {i : Nat} (hi : i < ps.length) (j : Nat) :
    (ps.modify i setMarked)[j]?.any understood = (ps[j]?.any understood || j == i) := by
  rw [List.getElem?_modify]
  split
  · rename_i hij
    subst hij
    simp [List.getElem?_eq_getElem hi, understood, setMarked]
  · rename_i hij
    simp [Ne.symm hij]

end Place

namespace HeaderList

def step (l : HeaderList) : HeaderStep → HeaderList
  | .add h => l.add h
  | .addOrReplace h => l.addOrReplace h
  | .remove name => ((l.remove name).map (·.2)).getD l
  | .mark i => l.mark i

/-- A step marks none but a block of the list. -/
def Admits (l : HeaderList) : HeaderStep → Prop
  | .mark i => i < l.size
  | _ => True

instance (l : HeaderList) : (s : HeaderStep) → Decidable (l.Admits s)
  | .mark i => inferInstanceAs (Decidable (i < l.size))
  | .add _ | .addOrReplace _ | .remove _ => .isTrue trivial

/-- A list that came about step by step, with what became of its blocks. -/
inductive Kept : HeaderList → List Place → Prop where
  | empty : Kept .empty []
  | step {l : HeaderList} {ps : List Place} (kept : Kept l ps) (s : HeaderStep) (admitted : l.Admits s) :
      Kept (l.step s) (Place.after ps s)

/-- The list has these blocks, and marks where they are understood. -/
structure Shows (l : HeaderList) (ps : List Place) : Prop where
  blocks : l.blocks = ps.map Place.block
  understood : ∀ j, l.isUnderstood j = ps[j]?.any Place.understood

variable {l : HeaderList} {ps : List Place}

theorem mem_marks_mark {i j : Nat} : i ∈ (l.mark j).marks ↔ i ∈ l.marks ∨ i = j := by
  rw [mark]
  split
  · rename_i hmarked
    rw [List.contains_iff_mem] at hmarked
    grind
  · simp

theorem blocks_mark (l : HeaderList) (i : Nat) : (l.mark i).blocks = l.blocks := by
  rw [mark]
  split <;> rfl

theorem isUnderstood_iff_mem {i : Nat} : l.isUnderstood i = true ↔ i ∈ l.marks := List.contains_iff_mem

theorem isUnderstood_mark (i j : Nat) : (l.mark i).isUnderstood j = (l.isUnderstood j || j == i) := by
  rw [Bool.eq_iff_iff, isUnderstood_iff_mem, mem_marks_mark, Bool.or_eq_true, isUnderstood_iff_mem, beq_iff_eq]

/-- Behind the block that is taken out, marks move with their blocks. -/
theorem isUnderstood_eraseIdx (l : HeaderList) (blocks : List Header) (i j : Nat) :
    isUnderstood ⟨blocks, (l.marks.filter (· ≠ i)).map (fun m => if i < m then m - 1 else m)⟩ j =
      l.isUnderstood (if j < i then j else j + 1) := by
  rw [Bool.eq_iff_iff, isUnderstood_iff_mem, isUnderstood_iff_mem]
  simp only [List.mem_map, List.mem_filter, decide_eq_true_eq]
  constructor
  · rintro ⟨m, ⟨hm, hne⟩, rfl⟩
    convert hm using 1
    split_ifs <;> omega
  · intro hm
    refine ⟨_, ⟨hm, ?_⟩, ?_⟩
    · split_ifs <;> omega
    · split_ifs <;> omega

theorem remove_eq (l : HeaderList) (name : QName) : ((l.remove name).map (·.2)).getD l =
    match l.blocks.findIdx? (·.name = name) with
    | none => l
    | some i => ⟨l.blocks.eraseIdx i, (l.marks.filter (· ≠ i)).map (fun m => if i < m then m - 1 else m)⟩ := by
  rw [remove]
  cases hfound : l.blocks.findIdx? (·.name = name) with
  | none => rfl
  | some i =>
    obtain ⟨hi, -⟩ := List.findIdx?_eq_some_iff_getElem.mp hfound
    simp [List.getElem?_eq_getElem hi]

namespace Shows

theorem size_eq (h : Shows l ps) : l.size = ps.length := by
  rw [size, h.blocks, List.length_map]

theorem mem_marks (h : Shows l ps) {j : Nat} : j ∈ l.marks ↔ ∃ p, ps[j]? = some p ∧ p.understood = true := by
  rw [← isUnderstood_iff_mem, h.understood, Option.any_eq_true]

theorem lt_size (h : Shows l ps) {j : Nat} (hj : j ∈ l.marks) : j < l.size := by
  obtain ⟨p, hp, -⟩ := h.mem_marks.mp hj
  obtain ⟨hlt, -⟩ := List.getElem?_eq_some_iff.mp hp
  exact h.size_eq ▸ hlt

theorem remove (h : Shows l ps) (name : QName) :
    Shows (l.step (.remove name)) (Place.after ps (.remove name)) := by
  rw [step, remove_eq, Place.after, List.eraseP_eq_eraseIdx, h.blocks, List.findIdx?_map]
  show Shows (match ps.findIdx? (·.block.name = name) with | none => _ | some i => _) _
  cases ps.findIdx? (·.block.name = name) with
  | none => exact h
  | some i =>
    constructor
    · exact List.eraseIdx_map Place.block ps i
    · intro j
      show isUnderstood ⟨_, (l.marks.filter (· ≠ i)).map (fun m => if i < m then m - 1 else m)⟩ j =
        (ps.eraseIdx i)[j]?.any _
      rw [isUnderstood_eraseIdx, h.understood, List.getElem?_eraseIdx]
      split <;> rfl

/-- What a single step keeps. -/
theorem after (h : Shows l ps) (s : HeaderStep) (hs : l.Admits s) : Shows (l.step s) (Place.after ps s) := by
  cases s with
  | add block =>
    refine ⟨?_, fun j => (h.understood j).trans (Place.any_getElem?_append_fresh ps block j).symm⟩
    simp [step, add, Place.after, h.blocks, Place.fresh]
  | addOrReplace block =>
    refine ⟨?_, fun j => (h.understood j).trans (Place.any_getElem?_replace block ps j).symm⟩
    rw [Place.after, Place.map_block_replace, ← h.blocks]
    rfl
  | remove name => exact h.remove name
  | mark i =>
    constructor
    · rw [Place.after, Place.map_block_modify, ← h.blocks]
      exact l.blocks_mark i
    · intro j
      rw [Place.after, Place.any_getElem?_modify ps (h.size_eq ▸ hs), ← h.understood]
      exact isUnderstood_mark i j

end Shows

theorem Kept.shows (h : Kept l ps) : Shows l ps := by
  induction h with
  | empty => exact ⟨rfl, fun _ => rfl⟩
  | step _ s admitted ih => exact ih.after s admitted

/-- Exactly the blocks that were marked, or put in the place of an understood one, are understood. The marks are on
blocks of the list, and say which ones were marked themselves just if every heir of a mark was marked itself, too. -/
theorem Kept.understood_iff (h : Kept l ps) :
    l.blocks = ps.map Place.block ∧ (∀ i ∈ l.marks, i < l.size) ∧
    (∀ j, l.isUnderstood j = true ↔ ∃ p, ps[j]? = some p ∧ (p.marked = true ∨ p.inherited = true)) ∧
    ((∀ j, l.isUnderstood j = true ↔ ∃ p, ps[j]? = some p ∧ p.marked = true) ↔
      ∀ p ∈ ps, p.inherited = true → p.marked = true) := by
  have hshows := h.shows
  have hall : ∀ j, l.isUnderstood j = true ↔ ∃ p, ps[j]? = some p ∧
      (p.marked = true ∨ p.inherited = true) := by
    intro j
    simp only [hshows.understood, Option.any_eq_true, Place.understood, Bool.or_eq_true]
  refine ⟨hshows.blocks, fun i => hshows.lt_size, hall, ?_⟩
  constructor
  · intro hmarked p hp hinherited
    obtain ⟨j, hj⟩ := List.mem_iff_getElem?.mp hp
    obtain ⟨p', hj', hp'⟩ := (hmarked j).mp ((hall j).mpr ⟨p, hj, .inr hinherited⟩)
    obtain rfl := Option.some_inj.mp (hj.symm.trans hj')
    exact hp'
  · intro hheirs j
    rw [hall]
    constructor
    · rintro ⟨p, hp, hmarked | hinherited⟩
      · exact ⟨p, hp, hmarked⟩
      · exact ⟨p, hp, hheirs p (List.mem_of_getElem? hp) hinherited⟩
    · rintro ⟨p, hp, hmarked⟩
      exact ⟨p, hp, .inl hmarked⟩

/-- A mark has moved with its block, and stays where the block is then replaced and its heir marked again. -/
theorem Kept.understood_iff_moved :
    let a := Header.ofText (.unqualified "a") "1"
    let b := Header.ofText (.unqualified "b") "2"
    let c := Header.ofText (.unqualified "b") "3"
    let l := [HeaderStep.add a, .add b, .mark 1, .remove a.name, .addOrReplace c, .mark 0].foldl HeaderList.step .empty
    Kept l [⟨c, true, true⟩] ∧ l.blocks = [c] ∧
      ∀ j, l.isUnderstood j = true ↔ ∃ p, [(⟨c, true, true⟩ : Place)][j]? = some p ∧ p.marked = true := by
  intro a b c l
  have hkept : Kept l [⟨c, true, true⟩] :=
    (((((Kept.empty.step (.add a) trivial).step (.add b) trivial).step (.mark 1) (by decide)).step (.remove a.name)
      trivial).step (.addOrReplace c) trivial).step (.mark 0) (by decide)
  exact ⟨hkept, hkept.understood_iff.1, hkept.understood_iff.2.2.2.mpr (by decide)⟩

/-- A block that has just been put in the place of an understood one is understood, and was never marked. -/
theorem understood_replacement :
    let a := Header.ofText (.unqualified "a") "1"
    let b := Header.ofText (.unqualified "a") "2"
    let l := [HeaderStep.add a, .mark 0, .addOrReplace b].foldl HeaderList.step .empty
    Kept l [⟨b, false, true⟩] ∧ l.isUnderstood 0 = true := by
  intro a b l
  exact ⟨((Kept.empty.step (.add a) trivial).step (.mark 0) (by decide)).step (.addOrReplace b) trivial, by decide⟩

end HeaderList

end SoapNode
