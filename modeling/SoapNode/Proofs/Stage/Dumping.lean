import Mathlib.Data.Nat.Pairing
import SoapNode.Proofs.Message.Payloads
import SoapNode.Proofs.Stage.Quiet
import SoapNode.Proofs.Tube.Courses
import SoapNode.Proofs.Tube.Shadows

/-!
# Tubes among dumps

Dumps are put in front of any tubes of a chain. They take steps of their own, in between the steps of the
others, and pass on what they are called with as long as it has no source for a payload. So a fiber among
dumps makes the same callbacks of the other tubes as one without, and comes to the same end if it comes to
an end at all.
-/

namespace SoapNode

variable {World : Type}

/-- The message of the packet, if it has one, has no source for a payload. -/
def Packet.Streamless (p : Packet) : Prop := ∀ m ∈ p.message, m.payload.Kept

def Payload.isStream : Payload → Bool
  | .stream _ _ => true
  | .empty | .tree _ | .buffered _ | .consumed => false

theorem Payload.isStream_eq_false_iff {p : Payload} : p.isStream = false ↔ p.Kept := by
  cases p <;> simp [isStream, Kept]

instance (p : Payload) : Decidable p.Kept := decidable_of_iff _ Payload.isStream_eq_false_iff

instance (p : Packet) : Decidable p.Streamless := inferInstanceAs (Decidable (∀ m ∈ p.message, m.payload.Kept))

structure Visit.Streamless (v : Visit) : Prop where
  handed : ∀ p ∈ v.handed.packet?, p.Streamless
  answer : ∀ p ∈ v.answer.packet?, p.Streamless

/-- Where no tube answers with a source unless it was called with one, an exchange that starts without meets none. -/
theorem Fiber.streamless_course {σ : Type} {cb : Callbacks σ}
    (hcb : ∀ tube handed s, (∀ p ∈ handed.packet?, p.Streamless) →
    ∀ p ∈ (cb.call tube handed s).1.packet?, p.Streamless) (n : Nat) {f : Fiber} {pending : Pending} {s : σ}
    (hpending : ∀ p ∈ pending.packet?, p.Streamless) : ∀ v ∈ course cb n f pending s, v.Streamless := by
  induction n generalizing f pending s with
  | zero => exact List.forall_mem_nil _
  | succ n ih =>
    have hcalls : ∀ {f₁ tube handed}, Calls cb f pending s f₁ tube handed →
        ∀ v ∈ course cb (n + 1) f pending s, v.Streamless := by
      intro f₁ tube handed h
      have hhanded : ∀ p ∈ handed.packet?, p.Streamless := by rwa [h.packet]
      have hanswer := hcb tube handed s hhanded
      rw [h.course]
      exact List.forall_mem_cons.mpr ⟨⟨hhanded, hanswer⟩, ih (by rwa [packet?_follow])⟩
    rcases eq_ofResult_or pending with ⟨tube, p, rfl⟩ | ⟨r, rfl⟩
    · exact hcalls (calls_request cb f tube p s)
    · cases hstack : f.stack with
      | nil =>
        rw [course_of_ended hstack]
        exact List.forall_mem_nil _
      | cons tube stack => exact hcalls (calls_ofResult cb hstack r s)

/-- The answer of a tube that knows its successors by other names. -/
def NextAction.redirect (f : TubeId → TubeId) : NextAction → NextAction
  | .invoke next p => .invoke (f next) p
  | .invokeAndForget next p => .invokeAndForget (f next) p
  | .ret p => .ret p
  | .throw e => .throw e

namespace Dump

/-! ### Dumps in front of tubes

`places` has the sides of the dumps in front of each tube, the innermost one first. The tube `n` is
`Nat.pair n 0` among the dumps, and the dumps in front of it are `Nat.pair n 1` and so on. -/

section Among

variable (cb : Callbacks World) (places : TubeId → List Side)

/-- Where packets for a tube come in. -/
def entry (n : TubeId) : TubeId := Nat.pair n (places n).length

def call (id : TubeId) (handed : Handed) (s : SiteStore World) : NextAction × SiteStore World :=
  match id.unpair with
  | (n, 0) =>
    let (a, world) := cb.call n handed s.world.world
    (a.redirect (entry places), s.modifyWorld (·.modifyWorld fun _ => world))
  | (n, k + 1) =>
    match (places n)[k]? with
    | some side => (stage side).call ⟨id, [Nat.pair n k], []⟩ handed s
    | none => (.throw .pipelineClosed, s)

/-- The tubes with their dumps. A tube goes on as it does without them, but for the dumps in front of the
tubes that it invokes. -/
def among : Callbacks (SiteStore World) where
  request id p := call cb places id (.request p)
  response id p := call cb places id (.response p)
  exception id e := call cb places id (.exception e)

end Among

/-- A callback as it is without dumps, if it is not one of a dump. -/
def original? (v : Visit) : Option Visit :=
  match v.tube.unpair with
  | (n, 0) => some ⟨n, v.handed, v.answer.redirect (·.unpair.1)⟩
  | (_, _ + 1) => none

variable {cb : Callbacks World} {places : TubeId → List Side} {n k : TubeId} {s : SiteStore World} {handed : Handed}

theorem call_among (id : TubeId) (handed : Handed) : (among cb places).call id handed = call cb places id handed := by
  cases handed <;> rfl

theorem call_tube (n : TubeId) (handed : Handed) (s : SiteStore World) :
    (among cb places).call (Nat.pair n 0) handed s =
    ((cb.call n handed s.world.world).1.redirect (entry places),
      s.modifyWorld (·.modifyWorld fun _ => (cb.call n handed s.world.world).2)) := by
  rw [call_among, call, Nat.unpair_pair]

theorem original_tube (n : TubeId) (handed : Handed) (a : NextAction) :
    original? ⟨Nat.pair n 0, handed, a.redirect (entry places)⟩ = some ⟨n, handed, a⟩ := by
  have hback : (a.redirect (entry places)).redirect (·.unpair.1) = a := by
    cases a <;> simp [NextAction.redirect, entry]
  rw [original?, Nat.unpair_pair]
  dsimp only
  rw [hback]

theorem original_dump (n k : TubeId) (handed : Handed) (a : NextAction) :
    original? ⟨Nat.pair n (k + 1), handed, a⟩ = none := by
  rw [original?, Nat.unpair_pair]

theorem packet_dump_of_streamless {p : Packet} (h : p.Streamless) (side : Side) (onResponse : Bool)
    (s : SiteStore World) : (dump side onResponse p s).1 = p :=
  packet_dump side onResponse (fun m hm => Message.copy_of_kept (h m hm)) s

/-- A dump invokes the tube behind it with what it was called with. -/
theorem call_dump_request (cb : Callbacks World) (hk : k < (places n).length) {p : Packet} (hp : p.Streamless)
    (s : SiteStore World) :
    ∃ s', (among cb places).call (Nat.pair n (k + 1)) (.request p) s = (.invoke (Nat.pair n k) p, s') ∧
      s'.world.world = s.world.world := by
  refine ⟨(dump (places n)[k] false p s).2, ?_, rfl⟩
  rw [call_among, call, Nat.unpair_pair]
  dsimp only
  rw [List.getElem?_eq_getElem hk]
  show ((⟨_, [Nat.pair n k], []⟩ : Wiring).invokeNext (dump (places n)[k] false p s).1, _) = _
  rw [packet_dump_of_streamless hp]
  rfl

/-- A dump answers with the result that comes back to it. -/
theorem call_dump_result (cb : Callbacks World) (hk : k < (places n).length) {r : Except RuntimeError Packet}
    (hr : ∀ p ∈ r.toOption, p.Streamless) (s : SiteStore World) :
    ∃ s', (among cb places).call (Nat.pair n (k + 1)) (.ofResult r) s = (.ofResult r, s') ∧
      s'.world.world = s.world.world := by
  have hcall : (among cb places).call (Nat.pair n (k + 1)) (.ofResult r) s =
      (stage (places n)[k]).call ⟨Nat.pair n (k + 1), [Nat.pair n k], []⟩ (.ofResult r) s := by
    rw [call_among, call, Nat.unpair_pair]
    dsimp only
    rw [List.getElem?_eq_getElem hk]
  rw [hcall]
  cases r with
  | error e => exact ⟨s, rfl, rfl⟩
  | ok p =>
    refine ⟨(dump (places n)[k] true p s).2, ?_, rfl⟩
    show (NextAction.ret (dump (places n)[k] true p s).1, _) = _
    rw [packet_dump_of_streamless (hr p rfl)]
    rfl

/-! ### A fiber among dumps -/

/-- The tubes that wait without dumps and among them. -/
inductive Waits (places : TubeId → List Side) : List TubeId → List TubeId → Prop where
  | nil : Waits places [] []
  | tube (n : TubeId) {stack stack'} (below : Waits places stack stack') :
    Waits places (n :: stack) (Nat.pair n 0 :: stack')
  | dump {n k : TubeId} (hk : k < (places n).length) {stack stack'} (below : Waits places stack stack') :
      Waits places stack (Nat.pair n (k + 1) :: stack')

/-- What fibers are about to do without dumps and among them. -/
inductive Awaits (places : TubeId → List Side) : Pending → Pending → Prop where
  | request {n k : TubeId} (hk : k ≤ (places n).length) (p : Packet) :
    Awaits places (.request n p) (.request (Nat.pair n k) p)
  | result (r : Except RuntimeError Packet) : Awaits places (.ofResult r) (.ofResult r)

theorem Waits.follow {f f' : Fiber} (h : Waits places f.stack f'.stack) (n : TubeId) (a : NextAction) :
    Waits places (f.follow n a).1.stack (f'.follow (Nat.pair n 0) (a.redirect (entry places))).1.stack := by
  cases a with
  | invoke next p => exact .tube n h
  | invokeAndForget next p => exact h
  | ret p => exact h
  | throw e => exact h

theorem awaits_follow (f f' : Fiber) (n : TubeId) (a : NextAction) :
    Awaits places (f.follow n a).2 (f'.follow (Nat.pair n 0) (a.redirect (entry places))).2 := by
  cases a with
  | invoke next p => exact .request (Nat.le_refl _) p
  | invokeAndForget next p => exact .request (Nat.le_refl _) p
  | ret p => exact .result (.ok p)
  | throw e => exact .result (.error e)

open SoapNode.Fiber (advance course Calls calls_request calls_ofResult)

/-- So many steps among dumps make the callbacks of the other tubes that so many steps without them make,
and end just if these do. -/
structure Agrees (cb : Callbacks World) (places : TubeId → List Side) (n n' : Nat) (f f' : Fiber)
    (pending pending' : Pending) (s : SiteStore World) : Prop where
  le : n ≤ n'
  ended : (advance (among cb places) n' f' pending' s).map (fun out => (out.1, out.2.2.world.world)) =
    (advance cb n f pending s.world.world).map (fun out => (out.1, out.2.2))
  course : (course (among cb places) n' f' pending' s).filterMap original? = course cb n f pending s.world.world

section Agrees

variable {m m' : Nat} {f f' f₁ f₁' : Fiber} {pending pending' : Pending} {r : Except RuntimeError Packet}

/-- A dump takes a step by itself. -/
theorem Agrees.dump {a : NextAction} {s' : SiteStore World}
    (hcalls : Calls (among cb places) f' pending' s f₁' (Nat.pair n (k + 1)) handed)
    (hcall : (among cb places).call (Nat.pair n (k + 1)) handed s = (a, s')) (hworld : s'.world.world = s.world.world)
    (h : Agrees cb places m m' f (f₁'.follow (Nat.pair n (k + 1)) a).1
      pending (f₁'.follow (Nat.pair n (k + 1)) a).2 s') :
    Agrees cb places m (m' + 1) f f' pending pending' s where
  le := Nat.le_succ_of_le h.le
  ended := by
    rw [hcalls.advance, hcall, h.ended, hworld]
  course := by
    rw [hcalls.course, hcall, List.filterMap_cons, original_dump, ← hworld]
    exact h.course

/-- Both have ended alike, or neither has ended. -/
theorem Agrees.rel (h : Agrees cb places m m' f f' pending pending' s) :
    Option.Rel (fun out out' => out'.1 = out.1 ∧ out'.2.2.world.world = out.2.2)
      (advance cb m f pending s.world.world) (advance (among cb places) m' f' pending' s) := by
  have hended := h.ended
  generalize advance cb m f pending s.world.world = out at hended
  generalize advance (among cb places) m' f' pending' s = out' at hended
  cases out with
  | none =>
    cases out' with
    | none => exact .none
    | some out' => cases hended
  | some out =>
    cases out' with
    | none => cases hended
    | some out' =>
      obtain ⟨hresult, hworld⟩ := Prod.mk.inj (Option.some.inj hended)
      exact .some ⟨hresult, hworld⟩

/-- A tube takes its step without dumps and among them. -/
theorem Agrees.tube (hcalls : Calls cb f pending s.world.world f₁ n handed)
    (hcalls' : Calls (among cb places) f' pending' s f₁' (Nat.pair n 0) handed) {a : NextAction} {world : World}
    (hcall : cb.call n handed s.world.world = (a, world))
    (h : Agrees cb places m m' (f₁.follow n a).1 (f₁'.follow (Nat.pair n 0) (a.redirect (entry places))).1
      (f₁.follow n a).2 (f₁'.follow (Nat.pair n 0) (a.redirect (entry places))).2
      (s.modifyWorld (·.modifyWorld fun _ => world))) :
    Agrees cb places (m + 1) (m' + 1) f f' pending pending' s where
  le := Nat.succ_le_succ h.le
  ended := by
    rw [hcalls.advance, hcalls'.advance, call_tube, hcall]
    exact h.ended
  course := by
    rw [hcalls.course, hcalls'.course, call_tube, hcall, List.filterMap_cons, original_tube]
    exact congrArg _ h.course

theorem agrees_nil (hstack : f.stack = []) (hstack' : f'.stack = []) (r : Except RuntimeError Packet) (m : Nat) :
    Agrees cb places (m + 1) (m + 1) f f' (.ofResult r) (.ofResult r) s where
  le := Nat.le_refl _
  ended := by
    rw [Fiber.advance_of_ended hstack, Fiber.advance_of_ended hstack']
    rfl
  course := by
    rw [Fiber.course_of_ended hstack, Fiber.course_of_ended hstack']
    rfl

/-- By induction on the steps without dumps. Before each of them, the dumps that stand in between take theirs. -/
theorem exists_agrees (hwaits : Waits places f.stack f'.stack) (hawaits : Awaits places pending pending')
    (hpending : ∀ p ∈ pending.packet?, p.Streamless)
    (hcourse : ∀ v ∈ course cb m f pending s.world.world, v.Streamless) :
    ∃ m', Agrees cb places m m' f f' pending pending' s := by
  induction m generalizing f f' pending pending' s with
  | zero => exact ⟨0, Nat.le_refl 0, rfl, rfl⟩
  | succ m ih =>
    have htube : ∀ {n handed f₁ f₁' f' pending'} {s' : SiteStore World}, s'.world.world = s.world.world →
        Calls cb f pending s.world.world f₁ n handed →
          Calls (among cb places) f' pending' s' f₁' (Nat.pair n 0) handed →
        Waits places f₁.stack f₁'.stack → ∃ m', Agrees cb places (m + 1) m' f f' pending pending' s' := by
      intro n handed f₁ f₁' f' pending' s' hworld hcalls hcalls' hwaits
      rw [hcalls.course] at hcourse
      obtain ⟨hvisit, hrest⟩ := List.forall_mem_cons.mp hcourse
      rw [← hworld] at hcalls hvisit hrest
      obtain ⟨m', hagrees⟩ := ih (s := s'.modifyWorld (·.modifyWorld fun _ => (cb.call n handed s'.world.world).2))
        (hwaits.follow n _) (awaits_follow f₁ f₁' n _) (by rw [Fiber.packet?_follow]; exact hvisit.answer) hrest
      exact ⟨m' + 1, .tube hcalls hcalls' rfl hagrees⟩
    cases hawaits with
    | @request n k hk p =>
      suffices ∀ (f' : Fiber) (s' : SiteStore World), s'.world.world = s.world.world →
          Waits places f.stack f'.stack →
            ∃ m', Agrees cb places (m + 1) m' f f' (.request n p) (.request (Nat.pair n k) p) s' from
        this f' s rfl hwaits
      induction k with
      | zero =>
        intro f' s' hworld hwaits
        exact htube hworld (calls_request cb f n p _) (calls_request _ f' _ p s') hwaits
      | succ k ihk =>
        intro f' s' hworld hwaits
        obtain ⟨s₁, hcall, hworld₁⟩ := call_dump_request cb hk (hpending p rfl) s'
        obtain ⟨m', hagrees⟩ := ihk (Nat.le_of_succ_le hk)
          { f' with state := .processingRequest, stack := Nat.pair n (k + 1) :: f'.stack } s₁
            (hworld₁.trans hworld) (.dump hk hwaits)
        exact ⟨m' + 1, .dump (calls_request _ f' _ p s') hcall hworld₁ hagrees⟩
    | result r =>
      have hresult : ∀ p ∈ r.toOption, p.Streamless := by
        intro p hp
        cases r with
        | error e => cases hp
        | ok p => exact hpending _ hp
      suffices ∀ stack stack', Waits places stack stack' →
        ∀ (f' : Fiber) (s' : SiteStore World), s'.world.world = s.world.world →
          f.stack = stack → f'.stack = stack' →
            ∃ m', Agrees cb places (m + 1) m' f f' (.ofResult r) (.ofResult r) s' from
        this _ _ hwaits f' s rfl rfl rfl
      intro stack stack' hwaits
      induction hwaits with
      | nil =>
        intro f' s' _ hstack hstack'
        exact ⟨m + 1, agrees_nil hstack hstack' r m⟩
      | tube n below ihw =>
        intro f' s' hworld hstack hstack'
        exact htube hworld (calls_ofResult cb hstack r _) (calls_ofResult _ hstack' r s') below
      | @dump n k hk stack stack' below ihw =>
        intro f' s' hworld hstack hstack'
        obtain ⟨s₁, hcall, hworld₁⟩ := call_dump_result cb hk hresult s'
        obtain ⟨m', hagrees⟩ := ihw { f' with state := .processingResponse, stack := stack' } s₁
          (hworld₁.trans hworld) hstack rfl
        refine ⟨m' + 1, .dump (calls_ofResult _ hstack' r s') hcall hworld₁ ?_⟩
        rw [Fiber.follow_ofResult]
        exact hagrees

/-- A fiber among dumps beside one without, from the beginning of an exchange in which no message has a source. -/
theorem exists_agrees_begin (places : TubeId → List Side) {head : TubeId} {p : Packet}
    (hcourse : ∀ m, ∀ v ∈ course cb m (.ofHead head) (.request head p) s.world.world, v.Streamless) (m : Nat) :
    ∃ m', Agrees cb places m m' (.ofHead head) (.ofHead (entry places head)) (.request head p)
      (.request (entry places head) p) s := by
  have hfirst := (calls_request cb (.ofHead head) head p s.world.world).course 0
  have hpacket := (hcourse 1 _ (by rw [hfirst]; exact List.mem_cons_self)).handed
  exact exists_agrees .nil (.request (Nat.le_refl _) p) hpacket (hcourse m)

/-- A fiber among dumps is driven to the same end as one without, or both go on forever. -/
theorem drive_among (places : TubeId → List Side) {head : TubeId} {p : Packet}
    (hcourse : ∀ m, ∀ v ∈ course cb m (.ofHead head) (.request head p) s.world.world, v.Streamless) :
    Option.Rel (fun out out' => out'.1 = out.1 ∧ out'.2.2.world.world = out.2.2)
      (Fiber.drive cb (.ofHead head) (.request head p) s.world.world)
      (Fiber.drive (among cb places) (.ofHead (entry places head)) (.request (entry places head) p) s) := by
  refine Fiber.rel_drive fun m => ?_
  obtain ⟨m', hagrees⟩ := exists_agrees_begin places hcourse m
  exact ⟨m', hagrees.le, hagrees.rel⟩

/-- An exchange among dumps has the result of the exchange without. -/
theorem run_among (places : TubeId → List Side) {head : TubeId} {p : Packet}
    (hcourse : ∀ m, ∀ v ∈ course cb m (.ofHead head) (.request head p) s.world.world, v.Streamless) :
    let q := Fiber.run cb (.ofHead head) p s.world.world
    let r := Fiber.run (among cb places) (.ofHead (entry places head)) p s
    r.1 = q.1 ∧ r.2.2.world.world = q.2.2 := by
  have hopen : ∀ h, (Fiber.ofHead h).state ≠ .closed := nofun
  rw [Fiber.run, Fiber.run, if_neg (hopen _), if_neg (hopen _)]
  exact rel_getD (drive_among places hcourse) ⟨rfl, rfl⟩

end Agrees

end Dump

end SoapNode
