import SoapNode.Tube.Pool

/-!
# Fibers and direct recursion

`Evaluates` reads the answer of a tube by recursion, without a stack: an invoked tube is run to its result,
which goes back to the tube that waits for it, and what that one answers is read in turn. A fiber that
comes to an end has the result of this recursion and makes the same visits in the same order.
-/

namespace SoapNode

def Callbacks.back {σ : Type} (cb : Callbacks σ) (tube : TubeId) :
    Except RuntimeError Packet → σ → NextAction × σ
  | .ok p => cb.response tube p
  | .error e => cb.exception tube e

def Pending.ofResult : Except RuntimeError Packet → Pending
  | .ok p => .response p
  | .error e => .exception e

/-- What a tube is called with. -/
inductive Handed where
  | request (p : Packet)
  | response (p : Packet)
  | exception (e : RuntimeError)

def Handed.ofResult : Except RuntimeError Packet → Handed
  | .ok p => .response p
  | .error e => .exception e

/-- One callback of a tube and what it answered. -/
structure Visit where
  tube : TubeId
  handed : Handed
  answer : NextAction

namespace Callbacks

variable {σ : Type}

def call (cb : Callbacks σ) (tube : TubeId) : Handed → σ → NextAction × σ
  | .request p => cb.request tube p
  | .response p => cb.response tube p
  | .exception e => cb.exception tube e

def write (cb : Callbacks σ) (tube : TubeId) (handed : Handed) (s : σ × List Visit) :
    NextAction × σ × List Visit :=
  let (answer, s') := cb.call tube handed s.1
  (answer, s', s.2 ++ [⟨tube, handed, answer⟩])

/-- The callbacks, which write every visit down beside their state. -/
def recording (cb : Callbacks σ) : Callbacks (σ × List Visit) where
  request tube p := cb.write tube (.request p)
  response tube p := cb.write tube (.response p)
  exception tube e := cb.write tube (.exception e)

theorem recording_request {cb : Callbacks σ} {tube : TubeId} {p : Packet} {s s' : σ} {a : NextAction}
    (h : cb.request tube p s = (a, s')) (visits : List Visit) :
    cb.recording.request tube p (s, visits) = (a, s', visits ++ [⟨tube, .request p, a⟩]) := by
  show cb.write tube (.request p) (s, visits) = _
  rw [write, call, h]

theorem recording_back {cb : Callbacks σ} {tube : TubeId} {r : Except RuntimeError Packet} {s s' : σ} {a : NextAction}
    (h : cb.back tube r s = (a, s')) (visits : List Visit) :
    cb.recording.back tube r (s, visits) = (a, s', visits ++ [⟨tube, .ofResult r, a⟩]) := by
  cases r with
  | ok p =>
    show cb.write tube (.response p) (s, visits) = _
    rw [write, call, show cb.response tube p s = (a, s') from h]
    rfl
  | error e =>
    show cb.write tube (.exception e) (s, visits) = _
    rw [write, call, show cb.exception tube e s = (a, s') from h]
    rfl

end Callbacks

namespace Fiber

variable {σ : Type} {cb : Callbacks σ}

def Step.state : Step σ → σ
  | .going _ _ s | .ended _ _ s => s

theorem state_after (f : Fiber) (tube : TubeId) (answer : NextAction × σ) :
    (after f tube answer).state = answer.2 := rfl

theorem step_request (f : Fiber) {tube : TubeId} {p : Packet} {s s' : σ} {action : NextAction}
    (h : cb.request tube p s = (action, s')) :
    step cb f (.request tube p) s = after { f with state := .processingRequest } tube (action, s') := by
  rw [step, h]

theorem step_ofResult (f : Fiber) (tube : TubeId) (stack : List TubeId) (r : Except RuntimeError Packet) (s : σ) :
    step cb { f with stack := tube :: stack } (.ofResult r) s =
      after { f with state := .processingResponse, stack } tube (cb.back tube r s) := by
  cases r <;> rfl

theorem step_ofResult_nil (f : Fiber) (r : Except RuntimeError Packet) (s : σ) :
    step cb { f with stack := [] } (.ofResult r) s = .ended r { f with state := .idle, stack := [] } s := by
  cases r <;> rfl

/-! ### Steps and their end -/

section Drive

variable {τ : Type} {cb' : Callbacks τ} {f f' : Fiber} {pending pending' : Pending} {s : σ} {s' : τ}
  {out : Except RuntimeError Packet × Fiber × σ}

/-- An exchange that is over in some steps is over in more, with the same end. -/
theorem advance_mono {n n' : Nat} (h : n ≤ n') (hout : advance cb n f pending s = some out) :
    advance cb n' f pending s = some out := by
  induction n generalizing n' f pending s with
  | zero => cases hout
  | succ n ih =>
    obtain ⟨n', rfl⟩ : ∃ k, n' = k + 1 := ⟨n' - 1, by omega⟩
    rw [advance] at hout ⊢
    split at hout
    · exact ih (Nat.le_of_succ_le_succ h) hout
    · exact hout

/-- A fiber that is driven to an end is there after some number of steps. -/
theorem drive_eq_some_iff : drive cb f pending s = some out ↔ ∃ n, advance cb n f pending s = some out := by
  constructor
  · intro h
    refine drive.partial_correctness cb (motive := fun f pending s out => ∃ n, advance cb n f pending s = some out)
      ?_ f pending s out h
    intro drive ih f pending s out h
    cases hstep : step cb f pending s with
    | going f' pending' s' =>
      rw [hstep] at h
      obtain ⟨n, hn⟩ := ih f' pending' s' out h
      refine ⟨n + 1, ?_⟩
      rw [advance, hstep]
      exact hn
    | ended result f' s' =>
      rw [hstep] at h
      refine ⟨1, ?_⟩
      rw [advance, hstep]
      exact h
  · rintro ⟨n, h⟩
    induction n generalizing f pending s with
    | zero => cases h
    | succ n ih =>
      rw [advance] at h
      rw [drive]
      cases hstep : step cb f pending s with
      | going f' pending' s' =>
        rw [hstep] at h
        exact ih h
      | ended result f' s' =>
        rw [hstep] at h
        exact h

theorem run_of_advance {p : Packet} {n : Nat} (h : advance cb n { f with stack := [] } (.request f.head p) s = some out)
    (hopen : f.state ≠ .closed) : run cb f p s = out := by
  rw [run, if_neg hopen, drive_eq_some_iff.mpr ⟨n, h⟩]
  rfl

/-- An exchange that is over in some steps has come to the end that its run gives. -/
theorem advance_eq_run {p : Packet} {n : Nat}
    (h : (advance cb n { f with stack := [] } (.request f.head p) s).isSome = true) (hopen : f.state ≠ .closed) :
    advance cb n { f with stack := [] } (.request f.head p) s = some (run cb f p s) := by
  obtain ⟨out, hout⟩ := Option.isSome_iff_exists.mp h
  rw [hout, run_of_advance hout hopen]

/-- Where each number of steps of one fiber is matched by as many of another, or more, both are driven to
ends that match, or both go on forever. -/
theorem rel_drive {R : Except RuntimeError Packet × Fiber × σ → Except RuntimeError Packet × Fiber × τ → Prop}
    (h : ∀ n, ∃ n', n ≤ n' ∧ Option.Rel R (advance cb n f pending s) (advance cb' n' f' pending' s')) :
    Option.Rel R (drive cb f pending s) (drive cb' f' pending' s') := by
  cases hdriven : drive cb f pending s with
  | some out =>
    obtain ⟨n, hn⟩ := drive_eq_some_iff.mp hdriven
    obtain ⟨n', -, hrel⟩ := h n
    rw [hn] at hrel
    generalize hn' : advance cb' n' f' pending' s' = reached at hrel
    cases hrel with
    | some hR =>
      rw [drive_eq_some_iff.mpr ⟨n', hn'⟩]
      exact .some hR
  | none =>
    cases hdriven' : drive cb' f' pending' s' with
    | none => exact .none
    | some out' =>
      obtain ⟨n, hn'⟩ := drive_eq_some_iff.mp hdriven'
      obtain ⟨n', hle, hrel⟩ := h n
      rw [advance_mono hle hn'] at hrel
      generalize hn : advance cb n f pending s = reached at hrel
      cases hrel with
      | some hR =>
        rw [drive_eq_some_iff.mpr ⟨n, hn⟩] at hdriven
        cases hdriven

end Drive

/-- What becomes of the answer of a tube, by recursion, and the visits that this takes. -/
inductive Evaluates (cb : Callbacks σ) :
    TubeId → NextAction → σ → Except RuntimeError Packet → σ → List Visit → Prop where
  | ret {tube p s} : Evaluates cb tube (.ret p) s (.ok p) s []
  | throw {tube e s} : Evaluates cb tube (.throw e) s (.error e) s []
  | forget {tube next p s a s₁ r s₂ visits} (request : cb.request next p s = (a, s₁))
      (inner : Evaluates cb next a s₁ r s₂ visits) :
      Evaluates cb tube (.invokeAndForget next p) s r s₂ (⟨next, .request p, a⟩ :: visits)
  | invoke {tube next p s a s₁ r s₂ visits b s₃ r' s₄ visits'} (request : cb.request next p s = (a, s₁))
      (inner : Evaluates cb next a s₁ r s₂ visits) (back : cb.back tube r s₂ = (b, s₃))
      (rest : Evaluates cb tube b s₃ r' s₄ visits') :
      Evaluates cb tube (.invoke next p) s r' s₄
        (⟨next, .request p, a⟩ :: visits ++ ⟨tube, .ofResult r, b⟩ :: visits')

/-- What a tube makes of a packet, by recursion, and the visits that this takes. -/
def Handles (cb : Callbacks σ) (tube : TubeId) (p : Packet) (s : σ) (r : Except RuntimeError Packet) (s' : σ)
    (visits : List Visit) : Prop :=
  ∃ a s₁ rest, cb.request tube p s = (a, s₁) ∧ Evaluates cb tube a s₁ r s' rest ∧
    visits = ⟨tube, .request p, a⟩ :: rest

theorem Evaluates.recording {tube : TubeId} {a : NextAction} {s s' : σ} {r : Except RuntimeError Packet}
    {visits : List Visit} (h : Evaluates cb tube a s r s' visits) (earlier : List Visit) :
    Evaluates cb.recording tube a (s, earlier) r (s', earlier ++ visits) visits := by
  induction h generalizing earlier with
  | ret =>
    rw [List.append_nil]
    exact .ret
  | throw =>
    rw [List.append_nil]
    exact .throw
  | @forget tube next p s a s₁ r s₂ visits request inner ih =>
    have hinner := ih (earlier ++ [⟨next, .request p, a⟩])
    rw [List.append_assoc] at hinner
    exact .forget (Callbacks.recording_request request earlier) hinner
  | @invoke tube next p s a s₁ r s₂ visits b s₃ r' s₄ visits' request inner back rest ih ih' =>
    have hinner := ih (earlier ++ [⟨next, .request p, a⟩])
    have hrest := ih' (earlier ++ [⟨next, .request p, a⟩] ++ visits ++ [⟨tube, .ofResult r, b⟩])
    rw [show earlier ++ (⟨next, .request p, a⟩ :: visits ++ ⟨tube, .ofResult r, b⟩ :: visits') =
      earlier ++ [⟨next, .request p, a⟩] ++ visits ++ [⟨tube, .ofResult r, b⟩] ++ visits' by simp]
    exact .invoke (Callbacks.recording_request request earlier) hinner (Callbacks.recording_back back _) hrest

theorem Handles.recording {tube : TubeId} {p : Packet} {s s' : σ} {r : Except RuntimeError Packet}
    {visits : List Visit} (h : Handles cb tube p s r s' visits) (earlier : List Visit) :
    Handles cb.recording tube p (s, earlier) r (s', earlier ++ visits) visits := by
  obtain ⟨a, s₁, rest, hrequest, hrest, rfl⟩ := h
  have hrecorded := hrest.recording (earlier ++ [⟨tube, .request p, a⟩])
  rw [List.append_assoc] at hrecorded
  exact ⟨a, _, rest, Callbacks.recording_request hrequest earlier, hrecorded, rfl⟩

theorem advance_after (cb : Callbacks σ) (n : Nat) {f : Fiber} {pending : Pending} {s : σ}
    {f' : Fiber} {tube : TubeId} {answer : NextAction × σ} (h : step cb f pending s = after f' tube answer) :
    advance cb (n + 1) f pending s = advance cb n (f'.follow tube answer.1).1 (f'.follow tube answer.1).2 answer.2 := by
  rw [advance, h]
  rfl

theorem advance_request (n : Nat) (f : Fiber) {tube : TubeId} {p : Packet} {s s' : σ} {a : NextAction}
    (h : cb.request tube p s = (a, s')) :
    advance cb (n + 1) f (.request tube p) s =
      advance cb n (follow { f with state := .processingRequest } tube a).1
        (follow { f with state := .processingRequest } tube a).2 s' :=
  advance_after cb n (step_request f h)

theorem advance_back (n : Nat) (f : Fiber) {tube : TubeId} {r : Except RuntimeError Packet} {s s' : σ} {a : NextAction}
    (h : cb.back tube r s = (a, s')) :
    advance cb (n + 1) { f with stack := tube :: f.stack } (.ofResult r) s =
      advance cb n (follow { f with state := .processingResponse } tube a).1
        (follow { f with state := .processingResponse } tube a).2 s' := by
  have hstep := @step_ofResult _ cb f tube f.stack r s
  rw [h] at hstep
  exact advance_after cb n hstep

/-- A fiber follows the recursion, a visit a step, and comes out of it with the stack it went in with. -/
theorem advance_of_evaluates {tube : TubeId} {a : NextAction} {s s' : σ} {r : Except RuntimeError Packet}
    {visits : List Visit} (h : Evaluates cb tube a s r s' visits) (f : Fiber) :
    ∃ state, ∀ k, advance cb (visits.length + k) (f.follow tube a).1 (f.follow tube a).2 s =
      advance cb k { f with state } (.ofResult r) s' := by
  induction h generalizing f with
  | ret => exact ⟨f.state, fun k => by rw [List.length_nil, Nat.zero_add]; rfl⟩
  | throw => exact ⟨f.state, fun k => by rw [List.length_nil, Nat.zero_add]; rfl⟩
  | @forget tube next p s a s₁ r s₂ visits request inner ih =>
    obtain ⟨state, hinner⟩ := ih { f with state := .processingRequest }
    refine ⟨state, fun k => ?_⟩
    rw [List.length_cons, Nat.add_right_comm]
    exact (advance_request _ f request).trans (hinner k)
  | @invoke tube next p s a s₁ r s₂ visits b s₃ r' s₄ visits' request inner back rest ih ih' =>
    obtain ⟨state, hinner⟩ := ih { f with state := .processingRequest, stack := tube :: f.stack }
    obtain ⟨state', hrest⟩ := ih' { f with state := .processingResponse }
    refine ⟨state', fun k => ?_⟩
    rw [show (⟨next, .request p, a⟩ :: visits ++ ⟨tube, .ofResult r, b⟩ :: visits').length + k =
      visits.length + (visits'.length + k + 1) + 1 by simp; omega]
    calc advance cb (visits.length + (visits'.length + k + 1) + 1)
          (f.follow tube (.invoke next p)).1 (.request next p) s
      _ = _ := advance_request _ _ request
      _ = _ := hinner (visits'.length + k + 1)
      _ = _ := advance_back _ { f with state } back
      _ = _ := hrest k

/-- The steps of a fiber from the answer of a tube on, cut where the recursion is back at that tube's result. -/
theorem evaluates_of_advance {n : Nat} {f : Fiber} {tube : TubeId} {a : NextAction} {s : σ}
    {out : Except RuntimeError Packet × Fiber × σ}
    (h : advance cb n (f.follow tube a).1 (f.follow tube a).2 s = some out) :
    ∃ r s' visits state k, Evaluates cb tube a s r s' visits ∧ n = visits.length + k ∧
      advance cb k { f with state } (.ofResult r) s' = some out := by
  induction n using Nat.strongRecOn generalizing f tube a s with
  | ind n ih =>
    cases a with
    | ret p => exact ⟨.ok p, s, [], f.state, n, .ret, (Nat.zero_add n).symm, h⟩
    | throw e => exact ⟨.error e, s, [], f.state, n, .throw, (Nat.zero_add n).symm, h⟩
    | invokeAndForget next p =>
      cases n with
      | zero => cases h
      | succ n =>
        have hfirst := advance_request n f (Prod.eta (cb.request next p s)).symm
        obtain ⟨r, s', visits, state, k, heval, hn, hend⟩ := ih n (Nat.lt_succ_self n) (hfirst.symm.trans h)
        refine ⟨r, s', _, state, k, .forget (Prod.eta _).symm heval, ?_, hend⟩
        rw [hn, List.length_cons, Nat.add_right_comm]
    | invoke next p =>
      cases n with
      | zero => cases h
      | succ n =>
        have hfirst := advance_request n { f with stack := tube :: f.stack } (Prod.eta (cb.request next p s)).symm
        obtain ⟨r, s₂, visits, state, k, heval, hn, hmiddle⟩ := ih n (Nat.lt_succ_self n) (hfirst.symm.trans h)
        cases k with
        | zero => cases hmiddle
        | succ k =>
          have hback := advance_back k { f with state } (Prod.eta (cb.back tube r s₂)).symm
          obtain ⟨r', s', visits', state', k', heval', hk, hend⟩ := ih k (by omega) (hback.symm.trans hmiddle)
          refine ⟨r', s', _, state', k', .invoke (Prod.eta _).symm heval (Prod.eta _).symm heval', ?_, hend⟩
          simp only [List.length_append, List.length_cons]
          omega

theorem advance_ofResult_nil {n : Nat} {f : Fiber} {r : Except RuntimeError Packet} {s : σ}
    {out : Except RuntimeError Packet × Fiber × σ}
    (h : advance cb n { f with stack := [] } (.ofResult r) s = some out) :
    out = (r, { f with state := .idle, stack := [] }, s) := by
  cases n with
  | zero => cases h
  | succ n =>
    rw [advance, step_ofResult_nil] at h
    exact (Option.some.inj h).symm

theorem advance_of_handles {f : Fiber} {p : Packet} {s s' : σ} {r : Except RuntimeError Packet} {visits : List Visit}
    (h : Handles cb f.head p s r s' visits) (k : Nat) :
    advance cb (visits.length + 1 + k) { f with stack := [] } (.request f.head p) s =
      some (r, { f with state := .idle, stack := [] }, s') := by
  obtain ⟨a, s₁, rest, hrequest, hrest, rfl⟩ := h
  obtain ⟨state, hadvance⟩ := advance_of_evaluates hrest { f with state := .processingRequest, stack := [] }
  have hend := @step_ofResult_nil _ cb { f with state } r s'
  rw [List.length_cons, show rest.length + 1 + 1 + k = rest.length + (k + 1) + 1 by omega]
  refine (advance_request _ _ hrequest).trans ((hadvance (k + 1)).trans ?_)
  rw [advance, hend]

theorem run_of_handles {f : Fiber} {p : Packet} {s s' : σ} {r : Except RuntimeError Packet} {visits : List Visit}
    (h : Handles cb f.head p s r s' visits) (hopen : f.state ≠ .closed) :
    run cb f p s = (r, { f with state := .idle, stack := [] }, s') :=
  run_of_advance (advance_of_handles h 0) hopen

theorem handles_of_advance {n : Nat} {f : Fiber} {p : Packet} {s : σ} {out : Except RuntimeError Packet × Fiber × σ}
    (h : advance cb n { f with stack := [] } (.request f.head p) s = some out) :
    ∃ r s' visits, Handles cb f.head p s r s' visits ∧ visits.length < n ∧
      out = (r, { f with state := .idle, stack := [] }, s') := by
  cases n with
  | zero => cases h
  | succ n =>
    have hfirst := advance_request n { f with stack := [] } (Prod.eta (cb.request f.head p s)).symm
    obtain ⟨r, s', visits, state, k, heval, hn, hend⟩ := evaluates_of_advance (hfirst.symm.trans h)
    refine ⟨r, s', _, ⟨_, _, visits, (Prod.eta _).symm, heval, rfl⟩, ?_,
      advance_ofResult_nil (f := { f with state }) hend⟩
    cases k with
    | zero => cases hend
    | succ k =>
      rw [List.length_cons]
      omega

end Fiber

end SoapNode
