import Mathlib.Logic.ExistsUnique
import SoapNode.Proofs.Tube.Recursion

/-!
# Invocations and their answers

A tube that invokes another waits until the result is handed back to it. Read from left to right, the
visits of an exchange keep a stack of the tubes that wait. The visits of a whole exchange leave no tube
waiting, and then invocations and callbacks with a result come in pairs, one properly inside another.
-/

namespace SoapNode

def NextAction.invokes : NextAction → Bool
  | .invoke _ _ => true
  | _ => false

/-- Whether a tube is called with the result that it has been waiting for. -/
def Handed.isResult : Handed → Bool
  | .request _ => false
  | .response _ | .exception _ => true

theorem Handed.isResult_ofResult (r : Except RuntimeError Packet) : (ofResult r).isResult = true := by
  cases r <;> rfl

namespace Visit

/-- Takes the tube off the stack if it is called with a result. No other than the last one can be. -/
def pop (v : Visit) (stack : List TubeId) : Option (List TubeId) :=
  if v.handed.isResult then
    match stack with
    | [] => none
    | tube :: below => if tube = v.tube then some below else none
  else some stack

def push (v : Visit) (stack : List TubeId) : List TubeId := if v.answer.invokes then v.tube :: stack else stack

/-- The tubes that wait after visits, the last one first, unless a result goes to another tube than the last. -/
def waiting (stack : List TubeId) (visits : List Visit) : Option (List TubeId) :=
  visits.foldlM (fun stack v => (v.pop stack).map v.push) stack

/-- Between two visits, one that invokes and one with the result of that, all invocations have got their results. -/
structure Answers (back : Visit) (between : List Visit) (v : Visit) : Prop where
  invokes : v.answer.invokes = true
  result : back.handed.isResult = true
  tube : back.tube = v.tube
  closed : waiting [] between = some []

variable {v : Visit} {visits : List Visit} {stack top below out : List TubeId}

theorem pop_eq_some : v.pop stack = some out ↔
    (v.handed.isResult = false ∧ stack = out) ∨ (v.handed.isResult = true ∧ stack = v.tube :: out) := by
  unfold pop
  cases v.handed.isResult with
  | false => simp
  | true =>
    cases stack with
    | nil => simp
    | cons tube stack => simp

theorem pop_append (h : v.pop top = some out) (below : List TubeId) : v.pop (top ++ below) = some (out ++ below) := by
  rcases pop_eq_some.mp h with ⟨hv, rfl⟩ | ⟨hv, rfl⟩
  · exact pop_eq_some.mpr (.inl ⟨hv, rfl⟩)
  · exact pop_eq_some.mpr (.inr ⟨hv, rfl⟩)

theorem push_append (v : Visit) (top below : List TubeId) : v.push (top ++ below) = v.push top ++ below := by
  rw [push, push]
  split <;> rfl

theorem waiting_cons (stack : List TubeId) (v : Visit) (visits : List Visit) :
    waiting stack (v :: visits) = (v.pop stack).bind (fun below => waiting (v.push below) visits) := by
  rw [waiting, List.foldlM_cons]
  cases v.pop stack <;> rfl

theorem waiting_request (stack : List TubeId) (tube : TubeId) (p : Packet) (a : NextAction) (visits : List Visit) :
    waiting stack (⟨tube, .request p, a⟩ :: visits) =
      waiting (if a.invokes then tube :: stack else stack) visits := by
  rw [waiting_cons, pop_eq_some.mpr (.inl ⟨rfl, rfl⟩)]
  rfl

theorem waiting_ofResult (stack : List TubeId) (tube : TubeId) (r : Except RuntimeError Packet) (a : NextAction)
    (visits : List Visit) : waiting (tube :: stack) (⟨tube, .ofResult r, a⟩ :: visits) =
      waiting (if a.invokes then tube :: stack else stack) visits := by
  rw [waiting_cons, pop_eq_some.mpr (.inr ⟨Handed.isResult_ofResult r, rfl⟩)]
  rfl

theorem waiting_append (stack : List TubeId) (first rest : List Visit) :
    waiting stack (first ++ rest) = (waiting stack first).bind (waiting · rest) := List.foldlM_append

theorem exists_pop (h : waiting stack (v :: visits) = some out) :
    ∃ below, v.pop stack = some below ∧ waiting (v.push below) visits = some out :=
  Option.bind_eq_some_iff.mp ((waiting_cons stack v visits).symm.trans h)

/-- Visits do not look below the tubes that wait for them. -/
theorem waiting_below (h : waiting top visits = some out) (below : List TubeId) :
    waiting (top ++ below) visits = some (out ++ below) := by
  induction visits generalizing top with
  | nil =>
    cases h
    rfl
  | cons v visits ih =>
    obtain ⟨rest, hpop, hrest⟩ := exists_pop h
    rw [waiting_cons, pop_append hpop, Option.bind_some, push_append]
    exact ih hrest

/-- A tube that waits at first and does not at the end has got its result in between. -/
theorem exists_result (h : waiting (top ++ stack) visits = some out) (hlength : out.length < stack.length) :
    ∃ inner v rest below, visits = inner ++ v :: rest ∧ waiting top inner = some [] ∧ v.handed.isResult = true ∧
      stack = v.tube :: below := by
  induction visits generalizing top with
  | nil =>
    cases h
    rw [List.length_append] at hlength
    omega
  | cons v visits ih =>
    obtain ⟨rest, hpop, hrest⟩ := exists_pop h
    have hinside : ∀ top', v.pop top = some top' → rest = top' ++ stack → ∃ inner v' rest' below,
        v :: visits = inner ++ v' :: rest' ∧ waiting top inner = some [] ∧ v'.handed.isResult = true ∧
          stack = v'.tube :: below := by
      rintro top' htop rfl
      rw [push_append] at hrest
      obtain ⟨inner, v', rest', below, rfl, hinner, hresult, hstack⟩ := ih hrest
      refine ⟨v :: inner, v', rest', below, rfl, ?_, hresult, hstack⟩
      rw [waiting_cons, htop]
      exact hinner
    rcases pop_eq_some.mp hpop with ⟨hv, heq⟩ | ⟨hv, heq⟩
    · exact hinside top (pop_eq_some.mpr (.inl ⟨hv, rfl⟩)) heq.symm
    · cases top with
      | nil => exact ⟨[], v, visits, rest, rfl, rfl, hv, heq⟩
      | cons tube top' =>
        obtain ⟨rfl, rfl⟩ := List.cons_eq_cons.mp heq
        exact hinside top' (pop_eq_some.mpr (.inr ⟨hv, rfl⟩)) rfl

/-- A tube that waits at the end has invoked another on the way, unless it has waited from the beginning. -/
theorem exists_invocation {tube : TubeId} (h : waiting stack visits = some (tube :: below)) :
    (∃ earlier v inner, visits = earlier ++ v :: inner ∧ v.answer.invokes = true ∧ v.tube = tube ∧
      waiting [] inner = some []) ∨ ∃ top, stack = top ++ tube :: below ∧ waiting top visits = some [] := by
  induction visits generalizing stack with
  | nil =>
    cases h
    exact .inr ⟨[], rfl, rfl⟩
  | cons v visits ih =>
    obtain ⟨rest, hpop, hrest⟩ := exists_pop h
    rcases ih hrest with ⟨earlier, v', inner, rfl, hinvokes, htube, hinner⟩ | ⟨top, htop, hinner⟩
    · exact .inl ⟨v :: earlier, v', inner, rfl, hinvokes, htube, hinner⟩
    · -- The tubes above it after this visit are those above it before, with what the visit has changed.
      have hbefore : ∀ top', v.push top' = top → rest = top' ++ tube :: below →
          ∃ top, stack = top ++ tube :: below ∧ waiting top (v :: visits) = some [] := by
        rintro top' rfl rfl
        rcases pop_eq_some.mp hpop with ⟨hv, rfl⟩ | ⟨hv, rfl⟩
        · refine ⟨top', rfl, ?_⟩
          rw [waiting_cons, pop_eq_some.mpr (.inl ⟨hv, rfl⟩)]
          exact hinner
        · refine ⟨v.tube :: top', rfl, ?_⟩
          rw [waiting_cons, pop_eq_some.mpr (.inr ⟨hv, rfl⟩)]
          exact hinner
      rw [push] at htop
      split at htop
      · rename_i hinvokes
        cases top with
        | nil =>
          obtain ⟨htube, -⟩ := List.cons_eq_cons.mp htop
          exact .inl ⟨[], v, visits, rfl, hinvokes, htube, hinner⟩
        | cons tube' top' =>
          obtain ⟨htube, hrest⟩ := List.cons_eq_cons.mp htop
          refine .inr (hbefore top' ?_ hrest)
          rw [push, if_pos hinvokes, htube]
      · rename_i hinvokes
        refine .inr (hbefore top ?_ htop)
        rw [push, if_neg hinvokes]

/-- A result cannot be handed out where no tube waits. -/
theorem not_closed_of_result (h : v.handed.isResult = true) (rest : List Visit) :
    waiting [] (v :: rest) ≠ some [] := by
  intro hclosed
  obtain ⟨below, hpop, -⟩ := exists_pop hclosed
  rcases pop_eq_some.mp hpop with ⟨hv, -⟩ | ⟨-, heq⟩
  · rw [h] at hv
    cases hv
  · cases heq

/-- A tube that has invoked another still waits after closed visits. -/
theorem not_closed_of_invocation (h : v.answer.invokes = true) (earlier : List Visit) {inner : List Visit}
    (hinner : waiting [] inner = some []) : waiting [] (earlier ++ v :: inner) ≠ some [] := by
  intro hclosed
  rw [waiting_append] at hclosed
  obtain ⟨stack, -, hstack⟩ := Option.bind_eq_some_iff.mp hclosed
  obtain ⟨below, -, hrest⟩ := exists_pop hstack
  rw [push, if_pos h, show v.tube :: below = [] ++ (v.tube :: below) from rfl, waiting_below hinner] at hrest
  cases hrest

theorem closed_prefix_unique {between between' rest rest' : List Visit} {back back' : Visit}
    (h : waiting [] between = some []) (h' : waiting [] between' = some []) (hback : back.handed.isResult = true)
    (hback' : back'.handed.isResult = true) (heq : between ++ back :: rest = between' ++ back' :: rest') :
    between = between' := by
  rcases List.append_eq_append_iff.mp heq with ⟨_ | ⟨w, more⟩, rfl, hmore⟩ | ⟨_ | ⟨w, more⟩, rfl, hmore⟩
  · exact (List.append_nil _).symm
  · obtain ⟨rfl, -⟩ := List.cons_eq_cons.mp hmore
    rw [waiting_append, h] at h'
    exact absurd h' (not_closed_of_result hback more)
  · exact List.append_nil _
  · obtain ⟨rfl, -⟩ := List.cons_eq_cons.mp hmore
    rw [waiting_append, h'] at h
    exact absurd h (not_closed_of_result hback' more)

theorem closed_suffix_unique {between between' earlier earlier' : List Visit} {v v' : Visit}
    (h : waiting [] between = some []) (h' : waiting [] between' = some []) (hv : v.answer.invokes = true)
    (hv' : v'.answer.invokes = true) (heq : earlier ++ v :: between = earlier' ++ v' :: between') :
    between = between' := by
  rcases List.append_eq_append_iff.mp heq with ⟨_ | ⟨w, more⟩, rfl, hmore⟩ | ⟨_ | ⟨w, more⟩, rfl, hmore⟩
  · exact (List.cons_eq_cons.mp hmore).2
  · obtain ⟨-, rfl⟩ := List.cons_eq_cons.mp hmore
    exact absurd h (not_closed_of_invocation hv' more h')
  · exact (List.cons_eq_cons.mp hmore).2.symm
  · obtain ⟨-, rfl⟩ := List.cons_eq_cons.mp hmore
    exact absurd h' (not_closed_of_invocation hv more h)

/-- No tube is left waiting; each invocation is answered by exactly one later callback, which hands its
result to the same tube, and each callback with a result answers exactly one earlier invocation. -/
structure Nested (visits : List Visit) : Prop where
  closed : waiting [] visits = some []
  answered : ∀ before v after, visits = before ++ v :: after → v.answer.invokes = true →
    ∃! between, ∃ back rest, after = between ++ back :: rest ∧ Answers back between v
  answering : ∀ before back after, visits = before ++ back :: after → back.handed.isResult = true →
    ∃! between, ∃ earlier v, before = earlier ++ v :: between ∧ Answers back between v

theorem nested_of_closed (h : waiting [] visits = some []) : Nested visits := by
  refine ⟨h, ?_, ?_⟩
  · rintro before v after rfl hinvokes
    rw [waiting_append] at h
    obtain ⟨stack, -, hstack⟩ := Option.bind_eq_some_iff.mp h
    obtain ⟨below, -, hafter⟩ := exists_pop hstack
    rw [push, if_pos hinvokes] at hafter
    obtain ⟨between, back, rest, _, rfl, hclosed, hresult, htubes⟩ :=
      exists_result (show waiting ([] ++ v.tube :: below) after = some [] from hafter) (Nat.succ_pos _)
    refine ⟨between, ⟨back, rest, rfl, hinvokes, hresult, (List.cons_eq_cons.mp htubes).1.symm, hclosed⟩, ?_⟩
    rintro between' ⟨back', rest', heq, hback'⟩
    exact (closed_prefix_unique hclosed hback'.closed hresult hback'.result heq).symm
  · rintro before back after rfl hresult
    rw [waiting_append] at h
    obtain ⟨stack, hbefore, hstack⟩ := Option.bind_eq_some_iff.mp h
    obtain ⟨below, hpop, -⟩ := exists_pop hstack
    rcases pop_eq_some.mp hpop with ⟨hback, -⟩ | ⟨-, rfl⟩
    · rw [hresult] at hback
      cases hback
    · rcases exists_invocation hbefore with ⟨earlier, v, between, rfl, hinvokes, htube,
        hclosed⟩ | ⟨top, htop, -⟩
      · refine ⟨between, ⟨earlier, v, rfl, hinvokes, hresult, htube.symm, hclosed⟩, ?_⟩
        rintro between' ⟨earlier', v', heq, hv'⟩
        exact (closed_suffix_unique hclosed hv'.closed hinvokes hv'.invokes heq).symm
      · cases top <;> cases htop

end Visit

namespace Fiber

variable {σ : Type} {cb : Callbacks σ}

theorem Evaluates.waiting_eq {tube : TubeId} {a : NextAction} {s s' : σ} {r : Except RuntimeError Packet}
    {visits : List Visit} (h : Evaluates cb tube a s r s' visits) (stack : List TubeId) :
    Visit.waiting (if a.invokes then tube :: stack else stack) visits = some stack := by
  induction h generalizing stack with
  | ret => rfl
  | throw => rfl
  | forget request inner ih => exact (Visit.waiting_request _ _ _ _ _).trans (ih stack)
  | @invoke tube next p s a s₁ r s₂ visits b s₃ r' s₄ visits' request inner back rest ih ih' =>
    show Visit.waiting (tube :: stack)
      (⟨next, .request p, a⟩ :: visits ++ ⟨tube, .ofResult r, b⟩ :: visits') = some stack
    rw [Visit.waiting_append, Visit.waiting_request, ih (tube :: stack), Option.bind_some, Visit.waiting_ofResult]
    exact ih' stack

theorem Handles.nested {tube : TubeId} {p : Packet} {s s' : σ} {r : Except RuntimeError Packet} {visits : List Visit}
    (h : Handles cb tube p s r s' visits) : Visit.Nested visits := by
  obtain ⟨a, s₁, rest, hrequest, hrest, rfl⟩ := h
  apply Visit.nested_of_closed
  exact (Visit.waiting_request _ _ _ _ _).trans (hrest.waiting_eq [])

theorem advance_recording {f : Fiber} {p : Packet} {s s' : σ} {r : Except RuntimeError Packet}
    {visits : List Visit} {n : Nat} (h : Handles cb f.head p s r s' visits) (hn : visits.length < n)
    (earlier : List Visit) :
    advance cb.recording n { f with stack := [] } (.request f.head p) (s, earlier) =
      some (r, { f with state := .idle, stack := [] }, s', earlier ++ visits) := by
  obtain ⟨k, rfl⟩ := Nat.exists_eq_add_of_lt hn
  rw [Nat.add_right_comm]
  exact advance_of_handles (h.recording earlier) k

theorem Handles.unique {f : Fiber} {p : Packet} {s s₁ s₂ : σ} {r₁ r₂ : Except RuntimeError Packet}
    {visits₁ visits₂ : List Visit} (h₁ : Handles cb f.head p s r₁ s₁ visits₁)
    (h₂ : Handles cb f.head p s r₂ s₂ visits₂) :
    r₁ = r₂ ∧ s₁ = s₂ ∧ visits₁ = visits₂ := by
  have hend₁ := advance_recording h₁ (Nat.lt_succ_of_le (Nat.le_max_left _ visits₂.length)) []
  have hend₂ := advance_recording h₂ (Nat.lt_succ_of_le (Nat.le_max_right visits₁.length _)) []
  rw [hend₁] at hend₂
  cases hend₂
  exact ⟨rfl, rfl, rfl⟩

/-- A fiber that comes to an end, after any number of steps, ends idle and with an empty stack. Its result, and the
callbacks it makes, are those of the recursion and of no other, and they are properly nested. -/
theorem ends_with_recursion (cb : Callbacks σ) {f : Fiber} {p : Packet} {s s' : σ}
    {r : Except RuntimeError Packet} {g : Fiber} {n : Nat}
    (hends : advance cb n { f with stack := [] } (.request f.head p) s = some (r, g, s')) :
    g = { f with state := .idle, stack := [] } ∧
    (f.state ≠ .closed → run cb f p s = (r, g, s')) ∧
    ∃ visits, (∀ r' t visits', Handles cb f.head p s r' t visits' ↔ r' = r ∧ t = s' ∧ visits' = visits) ∧
      (∀ earlier, advance cb.recording n { f with stack := [] } (.request f.head p) (s, earlier) =
        some (r, g, s', earlier ++ visits)) ∧
      Visit.Nested visits := by
  obtain ⟨r, s', visits, hhandles, hn, hout⟩ := handles_of_advance hends
  cases hout
  refine ⟨rfl, run_of_handles hhandles, visits, ?_, advance_recording hhandles hn, hhandles.nested⟩
  intro r' t visits'
  constructor
  · exact fun h => h.unique hhandles
  · rintro ⟨rfl, rfl, rfl⟩
    exact hhandles

/-- A tube that invokes another again after its error; the other one leaves it to a third, which fails at first. -/
def retrying : Callbacks Nat where
  request tube p s :=
    match tube with
    | 0 => (.invoke 1 p, s)
    | 1 => (.invokeAndForget 2 p, s)
    | _ => (if s = 0 then .throw .pipelineClosed else .ret p, s)
  response _ p s := (.ret p, s)
  exception _ _ s := (.invoke 1 .empty, s + 1)

theorem ends_with_recursion_retrying :
    ∃ visits,
      (∀ r t visits', Handles retrying 0 .empty 0 r t visits' ↔ r = .ok .empty ∧ t = 1 ∧ visits' = visits) ∧
      Visit.Nested visits ∧ visits.map (fun v => (v.tube, v.handed.isResult, v.answer.invokes)) =
        [(0, false, true), (1, false, false), (2, false, false), (0, true, true), (1, false, false), (2, false, false),
          (0, true, false)] := by
  have hends : advance retrying 8 (.ofHead 0) (.request 0 .empty) 0 = some (.ok .empty, .ofHead 0, 1) := rfl
  obtain ⟨-, -, visits, hhandles, hrecorded, hnested⟩ := ends_with_recursion retrying (f := .ofHead 0) hends
  have hvisits : ((advance retrying.recording 8 (.ofHead 0) (.request 0 .empty) (0, [])).map (·.2.2.2)) =
      some visits :=
    congrArg (Option.map (·.2.2.2)) (hrecorded [])
  refine ⟨visits, hhandles, hnested, ?_⟩
  rw [← Option.some.inj hvisits]
  rfl

end Fiber

end SoapNode
