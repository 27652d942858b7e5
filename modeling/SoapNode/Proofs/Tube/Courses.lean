import SoapNode.Proofs.Tube.Recursion

/-!
# The course of an exchange

The callbacks that the steps of a fiber make, in their order, whether or not the exchange comes to an end. A
step either makes one callback and goes on as its answer says, or it ends the exchange.
-/

namespace SoapNode

def NextAction.ofResult : Except RuntimeError Packet → NextAction
  | .ok p => .ret p
  | .error e => .throw e

def Handed.packet? : Handed → Option Packet
  | .request p | .response p => some p
  | .exception _ => none

def NextAction.packet? : NextAction → Option Packet
  | .invoke _ p | .invokeAndForget _ p | .ret p => some p
  | .throw _ => none

def Pending.packet? : Pending → Option Packet
  | .request _ p | .response p => some p
  | .exception _ => none

namespace Fiber

variable {σ : Type}

/-- The callback of the next step, unless that ends the exchange. -/
def visit? (cb : Callbacks σ) (f : Fiber) (pending : Pending) (s : σ) : Option Visit :=
  match pending with
  | .request tube p => some ⟨tube, .request p, (cb.request tube p s).1⟩
  | .response p => f.stack.head?.map fun tube => ⟨tube, .response p, (cb.response tube p s).1⟩
  | .exception e => f.stack.head?.map fun tube => ⟨tube, .exception e, (cb.exception tube e s).1⟩

/-- The callbacks of the first steps. -/
def course (cb : Callbacks σ) : Nat → Fiber → Pending → σ → List Visit
  | 0, _, _, _ => []
  | n + 1, f, pending, s =>
    (visit? cb f pending s).toList ++ match step cb f pending s with
      | .going f pending s => course cb n f pending s
      | .ended _ _ _ => []

variable {cb : Callbacks σ} {f f₁ : Fiber} {pending : Pending} {s : σ} {tube : TubeId} {handed : Handed}

theorem follow_ofResult (f : Fiber) (tube : TubeId) (r : Except RuntimeError Packet) :
    f.follow tube (.ofResult r) = (f, .ofResult r) := by
  cases r <;> rfl

theorem packet?_follow (f : Fiber) (tube : TubeId) (a : NextAction) : (f.follow tube a).2.packet? = a.packet? := by
  cases a <;> rfl

/-- The next step calls a tube, and the fiber then follows its answer. -/
structure Calls (cb : Callbacks σ) (f : Fiber) (pending : Pending) (s : σ) (f₁ : Fiber) (tube : TubeId)
    (handed : Handed) : Prop where
  step : step cb f pending s = after f₁ tube (cb.call tube handed s)
  visit : visit? cb f pending s = some ⟨tube, handed, (cb.call tube handed s).1⟩
  packet : handed.packet? = pending.packet?

theorem calls_request (cb : Callbacks σ) (f : Fiber) (tube : TubeId) (p : Packet) (s : σ) :
    Calls cb f (.request tube p) s { f with state := .processingRequest } tube (.request p) := ⟨rfl, rfl, rfl⟩

theorem calls_ofResult (cb : Callbacks σ) {f : Fiber} {stack : List TubeId} (hstack : f.stack = tube :: stack)
    (r : Except RuntimeError Packet) (s : σ) :
    Calls cb f (.ofResult r) s { f with state := .processingResponse, stack } tube (.ofResult r) := by
  obtain ⟨head, state, waiting⟩ := f
  obtain rfl : waiting = tube :: stack := hstack
  cases r <;> exact ⟨rfl, rfl, rfl⟩

theorem Calls.advance (h : Calls cb f pending s f₁ tube handed) (n : Nat) :
    advance cb (n + 1) f pending s =
      advance cb n (f₁.follow tube (cb.call tube handed s).1).1 (f₁.follow tube (cb.call tube handed s).1).2
        (cb.call tube handed s).2 :=
  advance_after cb n h.step

theorem Calls.course (h : Calls cb f pending s f₁ tube handed) (n : Nat) :
    course cb (n + 1) f pending s = ⟨tube, handed, (cb.call tube handed s).1⟩ ::
      course cb n (f₁.follow tube (cb.call tube handed s).1).1 (f₁.follow tube (cb.call tube handed s).1).2
        (cb.call tube handed s).2 := by
  rw [Fiber.course, h.visit, h.step]
  rfl

theorem course_of_ended (hstack : f.stack = []) (r : Except RuntimeError Packet) (n : Nat) :
    course cb n f (.ofResult r) s = [] := by
  obtain ⟨head, state, waiting⟩ := f
  obtain rfl : waiting = [] := hstack
  cases n with
  | zero => rfl
  | succ n => cases r <;> rfl

theorem advance_of_ended (hstack : f.stack = []) (r : Except RuntimeError Packet) (n : Nat) :
    advance cb (n + 1) f (.ofResult r) s = some (r, { f with state := .idle, stack := [] }, s) := by
  obtain ⟨head, state, waiting⟩ := f
  obtain rfl : waiting = [] := hstack
  cases r <;> rfl

end Fiber

end SoapNode
