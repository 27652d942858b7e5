import Mathlib.Data.List.Nodup
import SoapNode.Endpoint
import SoapNode.Proofs.Message.Content

/-!
# Dispatch is exact

The operation of a request is the only one that takes its payload, or, where several do, the only one
with its action. Both tables are read off the operations, so the order in which the operations were
registered makes no difference.
-/

namespace SoapNode

variable {World : Type}

/-- The one operation with a property. -/
def Only (operations : List (Operation World)) (P : Operation World → Prop) (o : Operation World) : Prop :=
  o ∈ operations ∧ P o ∧ ∀ o' ∈ operations, P o' → o' = o

/-- At least two operations have a property. -/
def Several (operations : List (Operation World)) (P : Operation World → Prop) : Prop :=
  ∃ o₁ ∈ operations, ∃ o₂ ∈ operations, o₁ ≠ o₂ ∧ P o₁ ∧ P o₂

variable {operations operations' : List (Operation World)} {P : Operation World → Prop} {o o' : Operation World}

theorem Only.unique (h : Only operations P o) (h' : Only operations P o') : o' = o := h.2.2 o' h'.1 h'.2.1

theorem Only.not_several (h : Only operations P o) : ¬Several operations P := by
  rintro ⟨o₁, ho₁, o₂, ho₂, hne, h₁, h₂⟩
  exact hne ((h.2.2 o₁ ho₁ h₁).trans (h.2.2 o₂ ho₂ h₂).symm)

theorem Several.some_has (h : Several operations P) : ∃ o ∈ operations, P o := by
  obtain ⟨o, ho, -, -, -, hP, -⟩ := h
  exact ⟨o, ho, hP⟩

/-- What a table says of the operations with a property. -/
inductive Claimed (operations : List (Operation World)) (P : Operation World → Prop) : Claim → Prop where
  | nobody (none : ∀ o ∈ operations, ¬P o) : Claimed operations P .nobody
  | unique (o : Operation World) (only : Only operations P o) : Claimed operations P (.unique o.name)
  | several (several : Several operations P) : Claimed operations P .several

namespace Claim

variable {κ : Type} [BEq κ]

theorem ofKey_perm {entries entries' : List (κ × String)} (h : entries'.Perm entries) (key : κ) :
    ofKey entries' key = ofKey entries key := by
  have hfilter : (entries'.filter (·.1 == key)).Perm (entries.filter (·.1 == key)) := h.filter _
  rw [ofKey, ofKey]
  generalize entries'.filter (·.1 == key) = found' at hfilter
  generalize entries.filter (·.1 == key) = found at hfilter
  match found with
  | [] => rw [hfilter.eq_nil]
  | [e] => rw [List.perm_singleton.mp hfilter]
  | e₁ :: e₂ :: rest =>
    match found', hfilter.length_eq with
    | _ :: _ :: _, _ => rfl

/-- A table is right about a property when its entries for the key are the operations that have it. -/
theorem claimed_ofKey [DecidablePred P] (hdistinct : operations.Nodup) {entries : List (κ × String)} {key : κ}
    (h : (entries.filter (·.1 == key)).map (·.2) = (operations.filter (decide <| P ·)).map (·.name)) :
    Claimed operations P (ofKey entries key) := by
  have hfound : ∀ o, o ∈ operations.filter (decide <| P ·) ↔ o ∈ operations ∧ P o := by
    intro o
    rw [List.mem_filter, decide_eq_true_iff]
  have hnodup := hdistinct.filter (decide <| P ·)
  rw [ofKey]
  generalize entries.filter (·.1 == key) = claims at h
  generalize operations.filter (decide <| P ·) = found at h hfound hnodup
  rcases found with - | ⟨o, - | ⟨o₂, rest⟩⟩
  · rw [List.map_eq_nil_iff.mp h]
    refine .nobody ?_
    intro o ho hP
    exact List.not_mem_nil ((hfound o).mpr ⟨ho, hP⟩)
  · obtain ⟨c, rfl, hname⟩ := List.map_eq_singleton_iff.mp h
    obtain ⟨ho, hP⟩ := (hfound o).mp List.mem_cons_self
    show Claimed operations P (.unique c.2)
    rw [hname]
    refine .unique o ⟨ho, hP, ?_⟩
    intro o' ho' hP'
    exact List.mem_singleton.mp ((hfound o').mpr ⟨ho', hP'⟩)
  · obtain ⟨c, claims, rfl, -, hrest⟩ := List.map_eq_cons_iff.mp h
    obtain ⟨c₂, claims, rfl, -, -⟩ := List.map_eq_cons_iff.mp hrest
    obtain ⟨ho, hP⟩ := (hfound o).mp List.mem_cons_self
    obtain ⟨ho₂, hP₂⟩ := (hfound o₂).mp (List.mem_cons_of_mem _ List.mem_cons_self)
    refine .several ⟨o, ho, o₂, ho₂, ?_, hP, hP₂⟩
    rintro rfl
    exact (List.nodup_cons.mp hnodup).1 List.mem_cons_self

end Claim

namespace Endpoint

theorem claimed_payload (hdistinct : operations.Nodup) (k : QName) :
    Claimed operations (·.key = k) (Claim.ofKey (payloadEntries operations) k) := by
  refine Claim.claimed_ofKey hdistinct ?_
  rw [payloadEntries, List.filter_map, List.map_map]
  rfl

theorem filter_actionEntries (operations : List (Operation World)) {a : String} (ha : a ≠ "") :
    ((actionEntries operations).filter (·.1 == a)).map (·.2) =
      (operations.filter (decide <| ·.action = some a)).map (·.name) := by
  have hkept : (actionEntries operations).filter (·.1 == a) =
      (operations.filterMap (fun o => o.action.map (·, o.name))).filter (·.1 == a) := by
    rw [actionEntries, List.filter_filter]
    refine List.filter_congr ?_
    rintro ⟨b, name⟩ -
    by_cases hb : b = a
    · simp [hb, ha]
    · simp [hb]
  rw [hkept]
  clear hkept
  induction operations with
  | nil => rfl
  | cons o operations ih =>
    cases haction : o.action with
    | none => simp [haction, ih]
    | some b =>
      by_cases hb : b = a
      · simp [haction, hb, ih]
      · simp [haction, hb, ih]

theorem claimed_action (hdistinct : operations.Nodup) {a : String} (ha : a ≠ "") :
    Claimed operations (·.action = some a) (Claim.ofKey (actionEntries operations) a) :=
  Claim.claimed_ofKey hdistinct (filter_actionEntries operations ha)

variable {kind : BindingKind} {p p' : Packet} {k : QName}

theorem repeated?_eq_none_iff {seen : List String} :
    repeated? seen operations = none ↔ (∀ o ∈ operations, o.name ∉ seen) ∧
      (operations.map (·.name)).Nodup := by
  induction operations generalizing seen with
  | nil => exact ⟨fun _ => ⟨nofun, List.nodup_nil⟩, fun _ => rfl⟩
  | cons o operations ih =>
    rw [repeated?, List.map_cons, List.nodup_cons]
    by_cases ho : o.name ∈ seen
    · rw [if_pos (by simpa using ho)]
      exact ⟨nofun, fun h => absurd ho (h.1 o List.mem_cons_self)⟩
    · rw [if_neg (by simpa using ho), ih]
      constructor
      · rintro ⟨hbehind, hnodup⟩
        refine ⟨?_, ?_, hnodup⟩
        · intro o' ho'
          obtain rfl | ho' := List.mem_cons.mp ho'
          · exact ho
          · exact List.not_mem_of_not_mem_cons (hbehind o' ho')
        · intro hmem
          obtain ⟨o', ho', hname⟩ := List.mem_map.mp hmem
          exact hbehind o' ho' (hname ▸ List.mem_cons_self)
      · rintro ⟨hseen, hnew, hnodup⟩
        refine ⟨?_, hnodup⟩
        intro o' ho' hmem
        obtain hname | hmem := List.mem_cons.mp hmem
        · exact hnew (hname ▸ List.mem_map_of_mem ho')
        · exact hseen o' (List.mem_cons_of_mem o ho') hmem

theorem build_eq (kind : BindingKind) (hnames : (operations.map (·.name)).Nodup) :
    build kind operations = .ok ⟨kind, operations, dispatcherOf kind.faultVersion operations⟩ := by
  rw [build, repeated?_eq_none_iff.mpr ⟨fun _ _ => List.not_mem_nil, hnames⟩]

theorem operation?_eq (hnodup : (operations.map (·.name)).Nodup) {o : Operation World} (ho : o ∈ operations) :
    operations.find? (·.name = o.name) = some o := by
  cases hfind : operations.find? (·.name = o.name) with
  | none => exact absurd (decide_eq_true rfl) (List.find?_eq_none.mp hfind o ho)
  | some o' =>
    have hname : o'.name = o.name := by simpa using List.find?_some hfind
    rw [List.inj_on_of_nodup_map hnodup (List.mem_of_find?_eq_some hfind) ho hname]

/-- The rule by which a request with this key and this action is dispatched. -/
inductive Ruled (operations : List (Operation World)) (v : SoapVersion) (k : QName) (action : Option String) :
    Except RuntimeError (Operation World) → Prop where
  | payload {o : Operation World} (only : Only operations (·.key = k) o) : Ruled operations v k action (.ok o)
  | action {o : Operation World} {a : String} (several : Several operations (·.key = k)) (given : action = some a)
      (nonempty : a ≠ "") (only : Only operations (·.action = some a) o) : Ruled operations v k action (.ok o)
  | unrecognized (nobody : ∀ o ∈ operations, o.key ≠ k) :
      Ruled operations v k action (.error (.dispatch (.unrecognized v k.display)))
  | undecided (several : Several operations (·.key = k))
      (none : ∀ a o, action = some a → a ≠ "" → ¬Only operations (·.action = some a) o) :
      Ruled operations v k action (.error (.dispatch (.noUniqueOperation v k.display)))

section Ruled

variable {v : SoapVersion} {action : Option String} {outcome : Except RuntimeError (Operation World)}

theorem Ruled.ok_iff (h : Ruled operations v k action outcome) (o : Operation World) :
    outcome = .ok o ↔ Only operations (·.key = k) o ∨
      Several operations (·.key = k) ∧ ∃ a, action = some a ∧ a ≠ "" ∧
      Only operations (·.action = some a) o := by
  constructor
  · rintro rfl
    cases h with
    | payload only => exact .inl only
    | action several given nonempty only => exact .inr ⟨several, _, given, nonempty, only⟩
  · rintro (honly | ⟨hseveral, a, rfl, hne, honly⟩)
    · cases h with
      | payload only => rw [honly.unique only]
      | action several => exact absurd several honly.not_several
      | unrecognized nobody => exact absurd honly.2.1 (nobody o honly.1)
      | undecided several => exact absurd several honly.not_several
    · cases h with
      | payload only => exact absurd hseveral only.not_several
      | action _ given _ only =>
        cases given
        rw [honly.unique only]
      | unrecognized nobody =>
        obtain ⟨o', ho', hkey⟩ := hseveral.some_has
        exact absurd hkey (nobody o' ho')
      | undecided _ none => exact absurd honly (none a o rfl hne)

theorem Ruled.unrecognized_iff (h : Ruled operations v k action outcome) :
    outcome = .error (.dispatch (.unrecognized v k.display)) ↔ ∀ o ∈ operations, o.key ≠ k := by
  constructor
  · rintro rfl
    cases h with
    | unrecognized nobody => exact nobody
  · intro hnobody
    cases h with
    | payload only => exact absurd only.2.1 (hnobody _ only.1)
    | unrecognized => rfl
    | action several | undecided several =>
      obtain ⟨o, ho, hkey⟩ := several.some_has
      exact absurd hkey (hnobody o ho)

theorem Ruled.undecided_iff (h : Ruled operations v k action outcome) :
    outcome = .error (.dispatch (.noUniqueOperation v k.display)) ↔ Several operations (·.key = k) ∧
      ¬∃ a o, action = some a ∧ a ≠ "" ∧ Only operations (·.action = some a) o := by
  constructor
  · rintro rfl
    cases h with
    | undecided several none =>
      refine ⟨several, ?_⟩
      rintro ⟨a, o, given, hne, honly⟩
      exact none a o given hne honly
  · rintro ⟨hseveral, hnone⟩
    cases h with
    | payload only => exact absurd hseveral only.not_several
    | action _ given hne only => exact absurd ⟨_, _, given, hne, only⟩ hnone
    | unrecognized nobody =>
      obtain ⟨o, ho, hkey⟩ := hseveral.some_has
      exact absurd hkey (nobody o ho)
    | undecided => rfl

end Ruled

/-- The finder that looks at the action tells the only operation with it, if there is one. -/
theorem find_action (hdistinct : operations.Nodup) (p : Packet) :
    ∃ found, (Finder.action (actionEntries operations)).find p = (.ok found, p) ∧
      ((found = none ∧ ∀ a o, p.soapAction = some a → a ≠ "" → ¬Only operations (·.action = some a) o) ∨
        ∃ a o, found = some o.name ∧ p.soapAction = some a ∧ a ≠ "" ∧
          Only operations (·.action = some a) o) := by
  refine ⟨_, rfl, ?_⟩
  cases hgiven : p.soapAction with
  | none =>
    refine .inl ⟨rfl, ?_⟩
    rintro a o ⟨⟩
  | some a =>
    by_cases ha : a = ""
    · refine .inl ⟨if_pos (by simpa using ha), ?_⟩
      rintro a o ⟨⟩ hne
      exact absurd ha hne
    · have hclaim := claimed_action hdistinct ha
      have hfull : ¬a.isEmpty = true := by simpa using ha
      dsimp only
      rw [if_neg hfull]
      generalize Claim.ofKey (actionEntries operations) a = claim at hclaim ⊢
      cases hclaim with
      | unique o only => exact .inr ⟨a, o, rfl, rfl, ha, only⟩
      | nobody nobody =>
        refine .inl ⟨rfl, ?_⟩
        rintro a o ⟨⟩ - honly
        exact nobody o honly.1 honly.2.1
      | several both =>
        refine .inl ⟨rfl, ?_⟩
        rintro a o ⟨⟩ - honly
        exact honly.not_several both

theorem ruled_dispatch (kind : BindingKind) (hnames : (operations.map (·.name)).Nodup)
    (hname : p.payloadName = (.ok k, p')) :
    Ruled operations kind.faultVersion k p.soapAction
      (dispatch ⟨kind, operations, dispatcherOf kind.faultVersion operations⟩ p).1 := by
  have hdistinct : operations.Nodup := hnames.of_map _
  have haction : p'.soapAction = p.soapAction := by
    have hproperties := p.sameContent_payloadName.properties_eq
    rw [hname] at hproperties
    exact congrArg (·.owner.soapAction) hproperties
  have hpayload := claimed_payload hdistinct k
  generalize hclaim : Claim.ofKey (payloadEntries operations) k = claim at hpayload
  simp only [dispatch, Dispatcher.dispatch, dispatcherOf, Dispatcher.findFirst]
  cases hpayload with
  | nobody nobody =>
    have hfirst : (Finder.payload kind.faultVersion (payloadEntries operations)).find p =
        (.error (.dispatch (.unrecognized kind.faultVersion k.display)), p') := by
      simp only [Finder.find, hname, hclaim]
    simp only [hfirst]
    exact .unrecognized nobody
  | unique o only =>
    have hfirst : (Finder.payload kind.faultVersion (payloadEntries operations)).find p = (.ok (some o.name), p') := by
      simp only [Finder.find, hname, hclaim]
    simp only [hfirst, Except.bind, operation?, operation?_eq hnames only.1]
    exact .payload only
  | several several =>
    have hfirst : (Finder.payload kind.faultVersion (payloadEntries operations)).find p = (.ok none, p') := by
      simp only [Finder.find, hname, hclaim]
    obtain ⟨found, hfind, hfound⟩ := find_action hdistinct p'
    rw [haction] at hfound
    obtain ⟨rfl, hnone⟩ | ⟨a, o, rfl, hgiven, hne, honly⟩ := hfound
    · simp only [hfirst, hfind, Packet.payloadName_again hname]
      exact .undecided several hnone
    · simp only [hfirst, hfind, Except.bind, operation?, operation?_eq hnames honly.1]
      exact .action several hgiven hne honly

theorem sameContent_find (f : Finder) (p : Packet) : p.SameContent (f.find p).2 := by
  cases f with
  | payload => exact p.sameContent_payloadName
  | action => exact .refl p

theorem sameContent_findFirst (finders : List Finder) (p : Packet) :
    p.SameContent (Dispatcher.findFirst finders p).2 := by
  induction finders generalizing p with
  | nil => exact .refl p
  | cons f finders ih =>
    have hfind := sameContent_find f p
    rw [Dispatcher.findFirst]
    split
    · rename_i p' hp'
      rw [hp'] at hfind
      exact hfind.trans (ih p')
    · exact hfind

/-- Dispatch reads no more of a packet than the name of its payload. -/
theorem sameContent_dispatch (e : Endpoint World) (p : Packet) : p.SameContent (e.dispatch p).2 := by
  have hfind := sameContent_findFirst e.dispatcher.finders p
  simp only [dispatch, Dispatcher.dispatch]
  split
  · rename_i hp'
    rw [hp'] at hfind
    exact hfind
  · rename_i hp'
    rw [hp'] at hfind
    exact hfind
  · rename_i hp'
    rw [hp'] at hfind
    exact hfind.trans (Packet.sameContent_payloadName _)

theorem mem_of_dispatch {e : Endpoint World} {o : Operation World} (h : (e.dispatch p).1 = .ok o) :
    o ∈ e.operations := by
  rw [dispatch] at h
  cases hname : (e.dispatcher.dispatch p).1 with
  | error cause =>
    simp only [hname, Except.bind] at h
    cases h
  | ok name =>
    simp only [hname, Except.bind] at h
    split at h
    · rename_i o' hfound
      cases h
      exact List.mem_of_find?_eq_some hfound
    · cases h

theorem operation?_perm (hnames : (operations.map (·.name)).Nodup) (h : operations'.Perm operations) (name : String) :
    operations'.find? (·.name = name) = operations.find? (·.name = name) := by
  have hnames' : (operations'.map (·.name)).Nodup := (h.map _).nodup_iff.mpr hnames
  cases hfind : operations.find? (·.name = name) with
  | none =>
    rw [List.find?_eq_none] at hfind ⊢
    intro o ho
    exact hfind o (h.mem_iff.mp ho)
  | some o =>
    have ho : o.name = name := by simpa using List.find?_some hfind
    rw [← ho]
    exact operation?_eq hnames' (h.mem_iff.mpr (List.mem_of_find?_eq_some hfind))

theorem dispatch_perm (hnames : (operations.map (·.name)).Nodup) (h : operations'.Perm operations) (v : SoapVersion)
    (p : Packet) :
    dispatch ⟨kind, operations', dispatcherOf v operations'⟩ p =
      dispatch ⟨kind, operations, dispatcherOf v operations⟩ p := by
  have hpayload : ∀ k, Claim.ofKey (payloadEntries operations') k = Claim.ofKey (payloadEntries operations) k :=
    Claim.ofKey_perm (h.map _)
  have haction : ∀ a, Claim.ofKey (actionEntries operations') a = Claim.ofKey (actionEntries operations) a :=
    Claim.ofKey_perm ((h.filterMap _).filter _)
  simp only [dispatch, Dispatcher.dispatch, dispatcherOf, Dispatcher.findFirst, Finder.find,
    operation?, hpayload, haction, operation?_perm hnames h]

/-- A request goes to the only operation that takes its payload, or, where several do, to the only one with
its action. Otherwise it is refused, in one of two ways. -/
theorem dispatch_by_claims (kind : BindingKind) (operations : List (Operation World))
    (hnames : (operations.map (·.name)).Nodup) :
    ∃ e, build kind operations = .ok e ∧
      (∀ p k p', p.payloadName = (.ok k, p') →
        (∀ o, (e.dispatch p).1 = .ok o ↔ Only operations (·.key = k) o ∨
          Several operations (·.key = k) ∧ ∃ a, p.soapAction = some a ∧ a ≠ "" ∧
          Only operations (·.action = some a) o) ∧
        (let key := "\x7b" ++ k.namespaceUri ++ "\x7d" ++ k.localPart
        ((e.dispatch p).1 = .error (.dispatch (.unrecognized kind.faultVersion key)) ↔
          ∀ o ∈ operations, o.key ≠ k) ∧
        ((e.dispatch p).1 = .error (.dispatch (.noUniqueOperation kind.faultVersion key)) ↔
          Several operations (·.key = k) ∧
            ¬∃ a o, p.soapAction = some a ∧ a ≠ "" ∧ Only operations (·.action = some a) o))) ∧
      (∀ p : Packet, p.SameContent (e.dispatch p).2) ∧
      ∀ operations', operations'.Perm operations →
        ∃ e', build kind operations' = .ok e' ∧ ∀ p, e'.dispatch p = e.dispatch p := by
  refine ⟨_, build_eq kind hnames, ?_, sameContent_dispatch _, ?_⟩
  · intro p k p' hname
    have hruled := ruled_dispatch kind hnames hname
    exact ⟨hruled.ok_iff, hruled.unrecognized_iff, hruled.undecided_iff⟩
  · intro operations' hperm
    exact ⟨_, build_eq kind ((hperm.map _).nodup_iff.mpr hnames), dispatch_perm hnames hperm _⟩

/-- Two operations take the same payload. The action of one of them is its own, that of the other is not. -/
theorem dispatch_by_claims_colliding :
    let note : QName := ⟨"urn:notes", "note"⟩
    let takes (name : String) (request : Option QName) (action : String) : Operation Unit :=
      ⟨name, request, some action, false, fun _ world => (.ok none, world)⟩
    let request (action : String) := (Packet.ofMessage (.ofElement none (.named note))).setSoapAction (some action)
    ∃ e, build .xmlHttp [takes "add" note "add", takes "drop" note "drop", takes "ping" none "drop"] = .ok e ∧
      (e.dispatch (request "add")).1 = .ok (takes "add" note "add") ∧
      (e.dispatch (request "drop")).1 = .error (.dispatch (.noUniqueOperation .v11 "\x7burn:notes\x7dnote")) := by
  intro note takes request
  obtain ⟨e, hbuild, hrule, -, -⟩ := dispatch_by_claims .xmlHttp
    [takes "add" note "add", takes "drop" note "drop", takes "ping" none "drop"] (by decide)
  have hseveral : Several [takes "add" note "add", takes "drop" note "drop",
      takes "ping" none "drop"] (·.key = note) :=
    ⟨takes "add" note "add", by simp, takes "drop" note "drop", by simp, by simp [takes], rfl, rfl⟩
  refine ⟨e, hbuild, ?_, ?_⟩
  · obtain ⟨hok, -, -⟩ := hrule (request "add") note _ rfl
    refine (hok _).mpr (.inr ⟨hseveral, "add", rfl, by decide, by simp, rfl, ?_⟩)
    simp [takes]
  · obtain ⟨-, -, hundecided⟩ := hrule (request "drop") note _ rfl
    refine hundecided.mpr ⟨hseveral, ?_⟩
    rintro ⟨a, o, ⟨⟩, -, honly⟩
    exact honly.not_several
      ⟨takes "drop" note "drop", by simp, takes "ping" none "drop", by simp, by simp [takes], rfl, rfl⟩

end Endpoint

end SoapNode
