import SoapNode.Tube.Pool

/-!
# Sequences of exchanges on a plant

Exchanges and the end of a chain change what tubes can change and leave the tubes as they are. What
every exchange keeps holds after any number of them, and what every tube keeps when it is destroyed
holds after the walk along a chain.
-/

namespace SoapNode.Plant

variable {Cell World : Type}

def runs (exchanges : List (Fiber × Packet)) (p : Plant Cell World) : Plant Cell World :=
  exchanges.foldl (fun p x => (p.run x.1 x.2).2.2) p

theorem run_eq (p : Plant Cell World) (f : Fiber) (packet : Packet) :
    (p.run f packet).2.2 = { p with store := (f.run (callbacks p.tubes) packet p.store).2.2 } := rfl

theorem runs_cons (x : Fiber × Packet) (exchanges : List (Fiber × Packet)) (p : Plant Cell World) :
    p.runs (x :: exchanges) = (p.run x.1 x.2).2.2.runs exchanges := rfl

theorem tubes_runs (exchanges : List (Fiber × Packet)) (p : Plant Cell World) :
    (p.runs exchanges).tubes = p.tubes := by
  induction exchanges generalizing p with
  | nil => rfl
  | cons x exchanges ih =>
    rw [runs_cons, ih, run_eq]

theorem store_runs {I : Store Cell World → Prop} {exchanges : List (Fiber × Packet)} {p : Plant Cell World}
    (hrun : ∀ x ∈ exchanges, ∀ s, I s → I (x.1.run (callbacks p.tubes) x.2 s).2.2) (h : I p.store) :
    I (p.runs exchanges).store := by
  induction exchanges generalizing p with
  | nil => exact h
  | cons x exchanges ih =>
    rw [runs_cons]
    apply ih
    · intro x' hx'
      exact hrun x' (List.mem_cons_of_mem x hx')
    · exact hrun x List.mem_cons_self _ h

theorem store_destroyFrom {I : Store Cell World → Prop} {limit : Nat} {visited : List TubeId} {id : TubeId}
    {p : Plant Cell World} (hdestroy : ∀ id t s, id ∉ visited → p.tubes[id]? = some t → I s →
      I (t.stage.destroy ⟨id, t.successors, t.cells⟩ s))
    (h : I p.store) : I (destroyFrom limit visited id p).2.store := by
  induction limit generalizing visited id p with
  | zero => exact h
  | succ limit ih =>
    rw [destroyFrom]
    split
    · exact h
    · rename_i hvisited
      have hvisited : id ∉ visited := by simpa using hvisited
      split
      · exact h
      · rename_i t ht
        have hkept := hdestroy id t p.store hvisited ht h
        split
        · apply ih _ hkept
          intro id' t' s hid' ht' hs
          exact hdestroy id' t' s (List.not_mem_of_not_mem_cons hid') ht' hs
        · exact hkept

theorem store_destroyChains {I : Store Cell World → Prop} {head : TubeId} {t : Tube Cell World} {p : Plant Cell World}
    (ht : p.tubes[head]? = some t) (hhead : I (t.stage.destroy ⟨head, t.successors, t.cells⟩ p.store))
    (hdestroy : ∀ id t s, id ≠ head → p.tubes[id]? = some t → I s →
      I (t.stage.destroy ⟨id, t.successors, t.cells⟩ s)) : I (p.destroyChains [head]).store := by
  obtain ⟨limit, hlimit⟩ := Nat.exists_eq_add_of_lt (List.getElem?_eq_some_iff.mp ht).1
  show I (destroyFrom p.tubes.length [] head p).2.store
  rw [hlimit, destroyFrom, if_neg (by simp), ht]
  simp only
  split
  · apply store_destroyFrom _ hhead
    intro id t s hid ht' hs
    exact hdestroy id t s (List.ne_of_not_mem_cons hid) ht' hs
  · exact hhead

end SoapNode.Plant
