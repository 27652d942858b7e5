import SoapNode.Proofs.Endpoint

/-!
# What operations are called with

The invoker calls at most one operation. It is one that declares the payload of the request, unless several
do: then it is the only one with the action of the request, whatever payload that one declares.
-/

namespace SoapNode

variable {World : Type}

/-- The operation, writing what it is called with to a list beside its world. -/
def Operation.noted (o : Operation World) : Operation (World × List (Operation World × Option Element)) where
  name := o.name
  request := o.request
  action := o.action
  oneWay := o.oneWay
  run input w := ((o.run input w.1).1, (o.run input w.1).2, w.2 ++ [(o, input)])

theorem Packet.SameContent.readElement {p p' : Packet} (h : p.SameContent p') :
    (p'.onMessage (.ok none) Message.readElement).1 = (p.onMessage (.ok none) Message.readElement).1 := by
  have hmessage := h.message
  rw [onMessage, onMessage]
  generalize p.message = m at hmessage
  generalize p'.message = m' at hmessage
  cases hmessage with
  | none => rfl
  | some hsame => exact hsame.readElement

namespace Endpoint

def noted (e : Endpoint World) : Endpoint (World × List (Operation World × Option Element)) :=
  ⟨e.kind, e.operations.map Operation.noted, e.dispatcher⟩

theorem build_noted (kind : BindingKind) {operations : List (Operation World)}
    (hnames : (operations.map (·.name)).Nodup) :
    build kind (operations.map Operation.noted) =
      .ok (noted ⟨kind, operations, dispatcherOf kind.faultVersion operations⟩) := by
  have hpayload : payloadEntries (operations.map Operation.noted) = payloadEntries operations := List.map_map
  have haction : actionEntries (operations.map Operation.noted) = actionEntries operations :=
    congrArg (List.filter _) List.filterMap_map
  have hnoted : ((operations.map Operation.noted).map (·.name)).Nodup := by
    rw [List.map_map]
    exact hnames
  rw [build_eq kind hnoted, dispatcherOf, hpayload, haction]
  rfl

/-- Notes make no difference to where a request goes. -/
theorem dispatch_noted (e : Endpoint World) (p : Packet) :
    e.noted.dispatch p = ((e.dispatch p).1.map Operation.noted, (e.dispatch p).2) := by
  simp only [dispatch, noted, operation?]
  cases (e.dispatcher.dispatch p).1 with
  | error cause => rfl
  | ok name =>
    have hfind : (e.operations.map Operation.noted).find? (·.name = name) =
        (e.operations.find? (·.name = name)).map Operation.noted := List.find?_map
    simp only [Except.bind, hfind]
    cases e.operations.find? (·.name = name) <;> rfl

theorem dispatch_ok_iff {kind : BindingKind} {operations : List (Operation World)} {e : Endpoint World}
    (hbuild : build kind operations = .ok e) (p : Packet) (o : Operation World) :
    (e.dispatch p).1 = .ok o ↔
      ∃ k, p.payloadName.1 = .ok k ∧ Ruled operations kind.faultVersion k p.soapAction (.ok o) := by
  obtain ⟨rfl, hnames⟩ := eq_of_build hbuild
  rcases hname : p.payloadName with ⟨name, p'⟩
  cases name with
  | error cause =>
    simp [dispatch, Dispatcher.dispatch, dispatcherOf, Dispatcher.findFirst, Finder.find, hname, Except.bind]
  | ok k =>
    have hruled := ruled_dispatch kind hnames hname
    constructor
    · intro hdispatch
      exact ⟨k, rfl, hdispatch ▸ hruled⟩
    · rintro ⟨_, ⟨⟩, hchosen⟩
      exact (hruled.ok_iff o).mpr ((hchosen.ok_iff o).mp rfl)

end Endpoint

namespace Invoker

open Endpoint

/-- The operation that a request is dispatched to is called once with what is read of the request, if it can be read,
and no other is called. -/
theorem invoke_noted (e : Endpoint World) (p : Packet) (world : World)
    (log : List (Operation World × Option Element)) :
    ∃ call : Option (Operation World × Option Element),
      invoke e.noted p (world, log) = ((invoke e p world).1, (invoke e p world).2, log ++ call.toList) ∧
        ∀ o input, call = some (o, input) ↔
          (p.onMessage (.ok none) Message.readElement).1 = .ok input ∧ (e.dispatch p).1 = .ok o := by
  have hread := (sameContent_dispatch e p).readElement
  rw [← hread, invoke, invoke, dispatch_noted]
  rcases e.dispatch p with ⟨found, p'⟩
  cases found with
  | error cause => exact ⟨none, by simp [Except.map, noted], by simp⟩
  | ok o =>
    have hset : ((p'.setOperation (some o.name)).onMessage (.ok none) Message.readElement).1 =
        (p'.onMessage (.ok none) Message.readElement).1 := by
      rw [Packet.onMessage, Packet.onMessage, Packet.setOperation, Packet.modifyTyped]
      cases p'.message <;> rfl
    have hname : o.noted.name = o.name := rfl
    rw [← hset]
    simp only [Except.map, hname]
    rcases hinput : (p'.setOperation (some o.name)).onMessage (.ok none) Message.readElement with ⟨input, p''⟩
    simp only [hinput]
    cases input with
    | error cause => exact ⟨none, by simp [noted], by simp⟩
    | ok input => exact ⟨some (o, input), rfl, by simp [and_comm]⟩

theorem exists_call {kind : BindingKind} {operations : List (Operation World)} {e : Endpoint World}
    (hbuild : build kind operations = .ok e) (world : World) (p : Packet)
    (log : List (Operation World × Option Element)) :
    ∃ call, invoke e.noted p (world, log) = ((invoke e p world).1, (invoke e p world).2, log ++ call.toList) ∧
      ∀ o input, call = some (o, input) ↔ (p.onMessage (.ok none) Message.readElement).1 = .ok input ∧
        ∃ k, p.payloadName.1 = .ok k ∧ Ruled operations kind.faultVersion k p.soapAction (.ok o) := by
  simpa only [dispatch_ok_iff hbuild] using invoke_noted e p world log

/-- Operations are called only with payloads that they declare, unless an action that is the own one of an operation
comes with a payload that several others declare. -/
theorem declared_payload_iff (kind : BindingKind) (operations : List (Operation World))
    (hnames : (operations.map (·.name)).Nodup) (world : World) :
    ∃ e, build kind operations = .ok e ∧ build kind (operations.map Operation.noted) = .ok e.noted ∧
      (∀ p log, ∃ call,
        invoke e.noted p (world, log) = ((invoke e p world).1, (invoke e p world).2, log ++ call.toList) ∧
        ∀ o input, call = some (o, input) ↔ (p.onMessage (.ok none) Message.readElement).1 = .ok input ∧
          ∃ k, p.payloadName.1 = .ok k ∧ Ruled operations kind.faultVersion k p.soapAction (.ok o)) ∧
      ((∀ p log o input, (invoke e.noted p (world, log)).2.2 = log ++ [(o, input)] →
          p.payloadName.1 = .ok o.key) ↔
        ∀ k a o, Several operations (·.key = k) → a ≠ "" →
          Only operations (·.action = some a) o → o.key = k) := by
  have hbuild := build_eq kind hnames
  have hcall := exists_call hbuild world
  refine ⟨_, hbuild, build_noted kind hnames, hcall, ?_⟩
  constructor
  · intro hdeclared k a o hseveral hne honly
    obtain ⟨call, hinvoke, hcall⟩ :=
      hcall ((Packet.ofMessage (.ofElement none (.named k))).setSoapAction (some a)) []
    obtain rfl := (hcall o (some (.named k))).mpr ⟨rfl, k, rfl, .action hseveral rfl hne honly⟩
    have hkey := hdeclared _ [] o _ (congrArg (·.2.2) hinvoke)
    cases hkey
    rfl
  · intro hown p log o input hlog
    obtain ⟨call, hinvoke, hcall⟩ := hcall p log
    rw [hinvoke] at hlog
    have hsome : call = some (o, input) := by
      have hlist := List.append_cancel_left hlog
      simpa using hlist
    obtain ⟨-, k, hk, hchosen⟩ := (hcall o input).mp hsome
    cases hchosen with
    | payload only => rw [hk, only.2.1]
    | action several _ nonempty only => rw [hk, hown k _ o several nonempty only]

/-- Two operations that take the same payload, each with an action of its own. -/
theorem declared_payload_iff_own_actions :
    let note : QName := ⟨"urn:notes", "note"⟩
    let takes (name : String) : Operation Unit :=
      ⟨name, some note, some name, false, fun _ world => (.ok none, world)⟩
    ∃ e, build .xmlHttp [takes "add", takes "drop"] = .ok e ∧
      ∀ p log o input, (invoke e.noted p ((), log)).2.2 = log ++ [(o, input)] → p.payloadName.1 = .ok o.key := by
  intro note takes
  obtain ⟨e, hbuild, -, -, hiff⟩ := declared_payload_iff .xmlHttp [takes "add", takes "drop"] (by decide) ()
  refine ⟨e, hbuild, hiff.mpr ?_⟩
  rintro k a o ⟨o₁, ho₁, -, -, -, rfl, -⟩ - ⟨ho, -, -⟩
  simp only [List.mem_cons, List.not_mem_nil, or_false] at ho₁ ho
  rcases ho₁ with rfl | rfl <;> rcases ho with rfl | rfl <;> rfl

/-- The action of an operation without a payload comes with the payload of two others. -/
theorem undeclared_payload_by_action :
    let note : QName := ⟨"urn:notes", "note"⟩
    let takes (name : String) (request : Option QName) : Operation Unit :=
      ⟨name, request, some name, false, fun _ world => (.ok none, world)⟩
    let request := (Packet.ofMessage (.ofElement none (.named note))).setSoapAction (some "ping")
    ∃ e, build .xmlHttp [takes "add" note, takes "drop" note, takes "ping" none] = .ok e ∧
      build .xmlHttp ([takes "add" note, takes "drop" note, takes "ping" none].map Operation.noted) = .ok e.noted ∧
      (invoke e.noted request ((), [])).2.2 = [(takes "ping" none, some (.named note))] ∧
      request.payloadName.1 = .ok note ∧ (takes "ping" none).key ≠ note := by
  intro note takes request
  exact ⟨_, rfl, rfl, rfl, rfl, by decide⟩

end Invoker

end SoapNode
