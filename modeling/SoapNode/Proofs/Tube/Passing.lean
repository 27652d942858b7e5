import SoapNode.Proofs.Tube.Chains
import SoapNode.Proofs.Tube.Fiber

/-!
# Exchanges that pass all stages

Two readings of a run. Whatever happens in it, it keeps what each callback of each tube keeps. And when
every stage of a chain passes the request on and the response back, or answers at once, the run has the
result of the stage that answers, as it comes through the stages in front.
-/

namespace SoapNode

variable {Cell World : Type}

/-- A condition on the store that no callback of the stage breaks. -/
structure Stage.Keeps (st : Stage Cell World) (I : Store Cell World → Prop) : Prop where
  request : ∀ w p s, I s → I (st.request w p s).2
  response : ∀ w p s, I s → I (st.response w p s).2
  exception : ∀ w e s, I s → I (st.exception w e s).2

namespace Fiber

variable {tubes : List (Tube Cell World)} {I : Store Cell World → Prop}

theorem step_keeps (hkeeps : ∀ t ∈ tubes, t.stage.Keeps I) (f : Fiber)
    (pending : Pending) {s : Store Cell World} (h : I s) :
    I (step (Plant.callbacks tubes) f pending s).state := by
  cases pending with
  | request tube p =>
    rw [step, state_after, Plant.callbacks]
    simp only
    split
    · rename_i t ht
      exact (hkeeps t (List.mem_of_getElem? ht)).request _ p s h
    · exact h
  | response p =>
    rw [step]
    split
    · exact h
    · rw [state_after, Plant.callbacks]
      simp only
      split
      · rename_i t ht
        exact (hkeeps t (List.mem_of_getElem? ht)).response _ p s h
      · exact h
  | exception e =>
    rw [step]
    split
    · exact h
    · rw [state_after, Plant.callbacks]
      simp only
      split
      · rename_i t ht
        exact (hkeeps t (List.mem_of_getElem? ht)).exception _ e s h
      · exact h

theorem advance_keeps (hkeeps : ∀ t ∈ tubes, t.stage.Keeps I) (n : Nat) (f : Fiber) (pending : Pending)
    {s : Store Cell World} (h : I s) : ∀ r ∈ advance (Plant.callbacks tubes) n f pending s, I r.2.2 := by
  induction n generalizing f pending s with
  | zero => rintro r ⟨⟩
  | succ n ih =>
    have hstep := step_keeps hkeeps f pending h
    intro r hr
    rw [advance] at hr
    split at hr
    · rename_i f' pending' s' hgoing
      rw [hgoing] at hstep
      exact ih f' pending' hstep r hr
    · rename_i result f' s' hended
      rw [hended] at hstep
      cases hr
      exact hstep

/-- A run keeps what every callback keeps. -/
theorem run_keeps (hkeeps : ∀ t ∈ tubes, t.stage.Keeps I) (f : Fiber)
    (p : Packet) {s : Store Cell World} (h : I s) : I (run (Plant.callbacks tubes) f p s).2.2 := by
  rw [run]
  split
  · exact h
  · cases hdriven : drive (Plant.callbacks tubes) { f with stack := [] } (.request f.head p) s with
    | none => exact h
    | some r =>
      obtain ⟨n, hn⟩ := drive_eq_some_iff.mp hdriven
      exact advance_keeps hkeeps n { f with stack := [] } (.request f.head p) h r hn

end Fiber

def Stage.back (st : Stage Cell World) (w : Wiring) :
    Except RuntimeError Packet → Store Cell World → NextAction × Store Cell World
  | .ok p, s => st.response w p s
  | .error e, s => st.exception w e s

/-- What holds in front of a stage and behind it, of a request on the way there and of a result on the way back. -/
structure Stage.Passes (st : Stage Cell World) (before behind : Packet → Store Cell World → Prop)
    (back answered : Except RuntimeError Packet → Store Cell World → Prop) : Prop where
  request : ∀ w p s, before p s → ∃ p' s', st.request w p s = (w.invokeNext p', s') ∧ behind p' s'
  result : ∀ w r s, back r s → ∃ action r' s', st.back w r s = (action, s') ∧
    action.result? = some r' ∧ answered r' s'

/-- As `Stage.Passes`, of a stage that may also answer a request at once. -/
structure Stage.Screens (st : Stage Cell World) (before behind : Packet → Store Cell World → Prop)
    (back answered : Except RuntimeError Packet → Store Cell World → Prop) : Prop where
  request : ∀ w p s, before p s → (∃ p' s', st.request w p s = (w.invokeNext p', s') ∧ behind p' s') ∨
    ∃ action r s', st.request w p s = (action, s') ∧ action.result? = some r ∧ answered r s'
  result : ∀ w r s, back r s → ∃ action r' s', st.back w r s = (action, s') ∧
    action.result? = some r' ∧ answered r' s'

theorem Stage.Passes.screens {st : Stage Cell World} {before behind : Packet → Store Cell World → Prop}
    {back answered : Except RuntimeError Packet → Store Cell World → Prop}
    (h : st.Passes before behind back answered) : st.Screens before behind back answered :=
  ⟨fun w p s hp => .inl (h.request w p s hp), h.result⟩

/-- A line of stages takes what is asked in front of it to the result that is told there. -/
inductive Stage.Line : List (Stage Cell World) → (asked : Packet → Store Cell World → Prop) →
    (answered : Except RuntimeError Packet → Store Cell World → Prop) → Prop where
  | last {st asked answered} (answers : ∀ w p s, asked p s → ∃ action r s', st.request w p s = (action, s') ∧
      action.result? = some r ∧ answered r s') : Stage.Line [st] asked answered
  | screen {st stages before behind back answered} (screens : st.Screens before behind back answered)
      (line : Stage.Line stages behind back) : Stage.Line (st :: stages) before answered

namespace Stage.Line

variable {tubes : List (Tube Cell World)} {stages : List (Stage Cell World)}
  {asked : Packet → Store Cell World → Prop}
  {answered : Except RuntimeError Packet → Store Cell World → Prop}

theorem mono {asked' : Packet → Store Cell World → Prop} (h : Stage.Line stages asked answered)
    (hasked : ∀ p s, asked' p s → asked p s) : Stage.Line stages asked' answered := by
  cases h with
  | last answers => exact .last (fun w p s hp => answers w p s (hasked p s hp))
  | screen screens line =>
    exact .screen ⟨fun w p s hp => screens.request w p s (hasked p s hp), screens.result⟩ line

theorem pass {st : Stage Cell World} {before : Packet → Store Cell World → Prop}
    {back : Except RuntimeError Packet → Store Cell World → Prop} (passes : st.Passes before asked back answered)
    (line : Stage.Line stages asked back) : Stage.Line (st :: stages) before answered :=
  .screen passes.screens line

theorem optional {st : Stage Cell World} {b : Bool} (screens : st.Screens asked asked answered answered)
    (line : Stage.Line stages asked answered) : Stage.Line ((if b then [st] else []) ++ stages) asked answered := by
  cases b with
  | false => exact line
  | true => exact .screen screens line

theorem settles (h : Stage.Line stages asked answered) {head : TubeId} (hlinked : Linked tubes head stages) {p : Packet}
    {s : Store Cell World} (hasked : asked p s) :
    ∃ r s', Fiber.Settles (Plant.callbacks tubes) head p s r s' ∧ answered r s' := by
  induction h generalizing head p s with
  | last answers =>
    cases hlinked with
    | last tube successors =>
      obtain ⟨action, r, s', hrequest, hresult, hanswered⟩ := answers _ p s hasked
      exact ⟨r, s', .answers ((Plant.request_eq tube p s).trans hrequest) hresult, hanswered⟩
    | link tube successors earlier behind => cases behind
  | @screen st stages before behind back answered screens line ih =>
    cases hlinked with
    | last tube successors => cases line
    | @link _ t next _ tube successors earlier linked =>
      obtain ⟨p₁, s₁, hrequest, hbehind⟩ | ⟨action, r, s₁, hrequest, hresult, hanswered⟩ :=
        screens.request ⟨head, t.successors, t.cells⟩ p s hasked
      · obtain ⟨r, s₂, hsettles, hback⟩ := ih linked hbehind
        obtain ⟨action, r', s₃, haction, hresult, hanswered⟩ :=
          screens.result ⟨head, t.successors, t.cells⟩ r s₂ hback
        have hinvoke : (⟨head, t.successors, t.cells⟩ : Wiring).invokeNext p₁ = .invoke next p₁ := by
          rw [Wiring.invokeNext, Wiring.next?, successors]
          rfl
        rw [hinvoke] at hrequest
        have htold : (Plant.callbacks tubes).back head r s₂ = (action, s₃) := by
          rw [Plant.back_eq tube]
          cases r <;> exact haction
        exact ⟨r', s₃, .invokes ((Plant.request_eq tube p s).trans hrequest) hsettles htold hresult, hanswered⟩
      · exact ⟨r, s₁, .answers ((Plant.request_eq tube p s).trans hrequest) hresult, hanswered⟩

/-- The run of an exchange on a chain with these stages. -/
theorem run (h : Stage.Line stages asked answered) {head : TubeId} (hlinked : Linked tubes head stages) {p : Packet}
    {s : Store Cell World} (hasked : asked p s) :
    ∃ r s', Fiber.run (Plant.callbacks tubes) (.ofHead head) p s = (r, .ofHead head, s') ∧ answered r s' := by
  obtain ⟨r, s', hsettles, hanswered⟩ := h.settles hlinked hasked
  exact ⟨r, s', Fiber.run_of_settles (f := .ofHead head) hsettles nofun, hanswered⟩

end Stage.Line

end SoapNode
