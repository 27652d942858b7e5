import Mathlib.Tactic.Common
import SoapNode.Packet

/-!
# Property sets as maps

A write or a removal is refused and changes nothing, or it tells what its key held before and changes no other key.
This holds wherever the key is kept: in a map, with a type of its own, in a satellite or in the owner behind the
satellites. What decides is the type that the key has where it is kept.
-/

namespace SoapNode

namespace PropertySet

variable {σ : Type} [PropertySet σ]

/-- The sets answer for the same keys, and alike for all of them but one. -/
structure SameBut (key : String) (s s' : σ) : Prop where
  supports : ∀ k, PropertySet.supports s' k = PropertySet.supports s k
  get : ∀ k, k ≠ key → get? s' k = get? s k

/-- A change is refused and leaves the set as it was, or tells what its key held and leaves all other keys alone. The
outcome is what the key holds afterwards. -/
inductive Changes (s : σ) (key : String) :
    Except PropertyError (Option PropertyValue) × σ → Except PropertyError (Option PropertyValue) → Prop where
  | refused (e : PropertyError) : Changes s key (.error e, s) (.error e)
  | held {s' : σ} (same : SameBut key s s') : Changes s key (.ok (get? s key), s') (.ok (get? s' key))

variable {s s' : σ} {key : String} {result : Except PropertyError (Option PropertyValue) × σ}
  {outcome : Except PropertyError (Option PropertyValue)}

theorem Changes.of_get {held : Option PropertyValue} (same : SameBut key s s') (hget : get? s' key = held) :
    Changes s key (.ok (get? s key), s') (.ok held) := hget ▸ .held same

/-- A refusal changes nothing. -/
theorem Changes.error_iff (h : Changes s key result outcome) (e : PropertyError) :
    result = (.error e, s') ↔ s' = s ∧ outcome = .error e := by
  cases h with
  | refused e' => simp [and_comm, eq_comm]
  | held same => simp

theorem Changes.ok_spec (h : Changes s key result outcome) {old : Option PropertyValue}
    (hresult : result = (.ok old, s')) :
    old = get? s key ∧ outcome = .ok (get? s' key) ∧ SameBut key s s' := by
  cases h with
  | refused e => cases hresult
  | held same =>
    cases hresult
    exact ⟨rfl, rfl, same⟩

end PropertySet

open PropertySet

/-! ### Maps -/

namespace PropertyMap

theorem lookup_insert (key : String) (value : PropertyValue) (es : List (String × PropertyValue)) (k : String) :
    (insert key value es).lookup k = if k = key then some value else es.lookup k := by
  induction es with
  | nil =>
    rw [insert, List.lookup_cons, List.lookup_nil]
    grind
  | cons e es ih =>
    rw [insert]
    split_ifs with hsame hbefore
    all_goals grind

theorem lookup_remove (key : String) (es : List (String × PropertyValue)) (k : String) :
    (es.filter (·.1 ≠ key)).lookup k = if k = key then none else es.lookup k := by
  induction es with
  | nil => simp
  | cons e es ih => grind

theorem get?_put (m : PropertyMap) (key : String) (value : PropertyValue) (k : String) :
    (m.put key value).get? k = if k = key then some value else m.get? k := lookup_insert key value m.entries k

theorem get?_remove (m : PropertyMap) (key k : String) :
    (m.remove key).get? k = if k = key then none else m.get? k := lookup_remove key m.entries k

end PropertyMap

/-! ### Keys with a type -/

/-- A type that a key demands of its values. Null is of each type and stands for no value. -/
inductive ValueType where
  | text
  | truth
  deriving DecidableEq, Repr

namespace ValueType

def name : ValueType → String
  | text => "string"
  | truth => "boolean"

def admits : ValueType → PropertyValue → Bool
  | _, .null => true
  | text, .string _ => true
  | truth, .bool _ => true
  | _, _ => false

/-- What a key of the type holds when a value has been written to it. -/
def hold (t : ValueType) (key : String) (value : PropertyValue) : Except PropertyError (Option PropertyValue) :=
  if t.admits value then .ok (if value.isNull then none else some value) else .error (.invalidType key t.name)

theorem hold_error_iff (t : ValueType) (key : String) (value : PropertyValue) (e : PropertyError) :
    t.hold key value = .error e ↔ t.admits value = false ∧ e = .invalidType key t.name := by
  rw [hold]
  split_ifs with hadmits
  · simp [hadmits]
  · simp [hadmits, eq_comm]

theorem eq_of_hold_ok {t : ValueType} {key : String} {value : PropertyValue} {held : Option PropertyValue}
    (h : t.hold key value = .ok held) : held = if value.isNull then none else some value := by
  rw [hold] at h
  split at h
  · exact (Except.ok.inj h).symm
  · cases h

theorem map_textValue (key : String) (value : PropertyValue) :
    (textValue key value).map PropertyValue.ofText? = text.hold key value := by
  cases value <;> rfl

theorem map_boolValue (key : String) (value : PropertyValue) :
    (PacketProperties.boolValue key value).map (·.map .bool) = truth.hold key value := by
  cases value <;> rfl

/-- A key of a type is changed by reading the value and setting what was read. -/
theorem changes_of_read {σ α : Type} [PropertySet σ] {s : σ} {key : String} {value : PropertyValue} {t : ValueType}
    {read : Except PropertyError (Option α)} {box : Option α → Option PropertyValue} {set : Option α → σ}
    (hread : read.map box = t.hold key value) (hget : ∀ a, get? (set a) key = box a)
    (hset : ∀ a, SameBut key s (set a)) :
    Changes s key (storeRead s (get? s key) read set) (t.hold key value) := by
  rw [← hread]
  cases read with
  | error e => exact .refused e
  | ok a => exact .of_get (hset a) (hget a)

end ValueType

namespace TransportProperties

/-- The keys of a satellite. -/
def ownKeys : List String := [contentTypeKey, responseContentTypeKey]

def store (t : TransportProperties) (key : String) (text : Option String) : TransportProperties :=
  if key = contentTypeKey then { t with contentType := text }
  else if key = responseContentTypeKey then { t with responseContentType := text }
  else t

variable (t : TransportProperties) {key : String}

theorem get?_store_self (hkey : key ∈ ownKeys) (text : Option String) :
    (t.store key text).get? key = PropertyValue.ofText? text := by
  have hkeys : key = contentTypeKey ∨ key = responseContentTypeKey := by simpa [ownKeys] using hkey
  rcases hkeys with rfl | rfl <;> rfl

theorem sameBut_store (key : String) (text : Option String) : SameBut key t (t.store key text) where
  supports _ := rfl
  get k hk := by
    show (t.store key text).get? k = t.get? k
    rw [store]
    split_ifs with hcontent hresponse
    · simp [get?, hcontent ▸ hk]
    · simp [get?, hresponse ▸ hk]
    · rfl

theorem supports_iff : supports t key = true ↔ key ∈ ownKeys := by
  show (key == contentTypeKey || key == responseContentTypeKey) = true ↔ _
  simp [ownKeys]

theorem changes_write (hkey : key ∈ ownKeys) (value : PropertyValue) :
    Changes t key (PropertySet.write t key value) (ValueType.text.hold key value) :=
  ValueType.changes_of_read (ValueType.map_textValue key value) (t.get?_store_self hkey) (t.sameBut_store key)

theorem changes_erase (hkey : key ∈ ownKeys) : Changes t key (PropertySet.erase t key) (.ok none) :=
  t.changes_write hkey .null

end TransportProperties

namespace PacketProperties

/-- The type of a key that is kept with a type. -/
def valueType? (key : String) : Option ValueType :=
  if key ∈ [actionKey, addressKey, messageIdKey] then some .text
  else if key = replyKey then some .truth
  else none

/-- What a key holds when a value has been written to it. -/
def hold (key : String) (value : PropertyValue) : Except PropertyError (Option PropertyValue) :=
  if key = operationKey then .error (.readOnly key)
  else match valueType? key with
    | some t => t.hold key value
    | none => .ok (some value)

theorem changes_write (p : PacketProperties) (key : String) (value : PropertyValue) :
    Changes p key (PropertySet.write p key value) (hold key value) := by
  show Changes p key (p.write key value) _
  rw [write]
  split_ifs with haction haddress hreply hid hoperation
  · subst haction
    exact ValueType.changes_of_read (ValueType.map_textValue _ value) (fun _ => rfl)
      (fun _ => ⟨fun _ => rfl, fun k hk => by simp [PropertySet.get?, get?, hk]⟩)
  · subst haddress
    exact ValueType.changes_of_read (ValueType.map_textValue _ value) (fun _ => rfl)
      (fun _ => ⟨fun _ => rfl, fun k hk => by simp [PropertySet.get?, get?, hk]⟩)
  · subst hreply
    exact ValueType.changes_of_read (ValueType.map_boolValue _ value) (fun _ => rfl)
      (fun _ => ⟨fun _ => rfl, fun k hk => by simp [PropertySet.get?, get?, hk]⟩)
  · subst hid
    exact ValueType.changes_of_read (ValueType.map_textValue _ value) (fun _ => rfl)
      (fun _ => ⟨fun _ => rfl, fun k hk => by simp [PropertySet.get?, get?, hk]⟩)
  · rw [hold, if_pos hoperation]
    exact .refused _
  · have htype : valueType? key = none := by simp [valueType?, haction, haddress, hreply, hid]
    rw [hold, if_neg hoperation, htype]
    refine .of_get ⟨fun _ => rfl, fun k hk => ?_⟩ ?_
    · simp [PropertySet.get?, get?, PropertyMap.get?_put, hk]
    · simp [PropertySet.get?, get?, PropertyMap.get?_put, haction, haddress, hreply, hid, hoperation]

theorem changes_erase (p : PacketProperties) (key : String) :
    Changes p key (PropertySet.erase p key) (if key = operationKey then .error (.readOnly key) else .ok none) := by
  show Changes p key (p.erase key) _
  rw [erase]
  split_ifs with howned hoperation hoperation
  · have hchanges := p.changes_write key .null
    rwa [hold, if_pos hoperation] at hchanges
  · have hchanges := p.changes_write key .null
    have htyped : key ∈ typedKeys := howned.resolve_left hoperation
    rw [hold, if_neg hoperation] at hchanges
    have htype : ∃ t, valueType? key = some t := by
      simp only [typedKeys, List.mem_cons, List.not_mem_nil, or_false] at htyped
      rcases htyped with rfl | rfl | rfl | rfl <;> exact ⟨_, rfl⟩
    obtain ⟨t, ht⟩ := htype
    rwa [ht] at hchanges
  · exact absurd (.inl hoperation) howned
  · have hfree : ¬key = actionKey ∧ ¬key = addressKey ∧ ¬key = replyKey ∧ ¬key = messageIdKey := by
      simpa [typedKeys, hoperation] using howned
    refine .of_get ⟨fun _ => rfl, fun k hk => ?_⟩ ?_
    · simp [PropertySet.get?, get?, PropertyMap.get?_remove, hk]
    · simp [PropertySet.get?, get?, PropertyMap.get?_remove, hfree, hoperation]

end PacketProperties

/-! ### Satellites before their owner -/

namespace Distributed

variable {ω σ : Type}

theorem length_modifyFirst (p : σ → Bool) (f : σ → σ) (l : List σ) : (modifyFirst p f l).length = l.length := by
  induction l with
  | nil => rfl
  | cons a l ih =>
    rw [modifyFirst]
    split
    · rfl
    · exact congrArg (· + 1) ih

variable [PropertySet σ] {d : Distributed ω σ} {key : String} {s s' : σ}

/-- A satellite that answers for a key stands behind satellites that do not support it. -/
theorem satelliteFor?_eq_some_iff : d.satelliteFor? key = some s ↔
    PropertySet.supports s key = true ∧
      ∃ front rest, d.satellites = front ++ s :: rest ∧ ∀ t ∈ front, PropertySet.supports t key = false := by
  rw [satelliteFor?, List.find?_eq_some_iff_append]
  simp only [Bool.not_eq_true']

theorem modifyFirst_append {front : List σ} (hfront : ∀ t ∈ front, PropertySet.supports t key = false)
    (hs : PropertySet.supports s key = true) (f : σ → σ) (rest : List σ) :
    modifyFirst (PropertySet.supports · key) f (front ++ s :: rest) = front ++ f s :: rest := by
  induction front with
  | nil => exact if_pos hs
  | cons t front ih =>
    rw [List.cons_append, modifyFirst, if_neg (by simp [hfront t List.mem_cons_self])]
    exact congrArg (t :: ·) (ih (fun u hu => hfront u (List.mem_cons_of_mem t hu)))

theorem satelliteFor?_append (owner : ω) (front rest : List σ) (s : σ) (k : String) :
    satelliteFor? ⟨owner, front ++ s :: rest⟩ k = (front.find? (PropertySet.supports · k)).or
      (if PropertySet.supports s k = true then some s else rest.find? (PropertySet.supports · k)) := by
  rw [satelliteFor?, List.find?_append, List.find?_cons]
  cases PropertySet.supports s k <;> rfl

variable {inSatellite : σ → Except PropertyError (Option PropertyValue) × σ}
  {inOwner : ω → Except PropertyError (Option PropertyValue) × ω}

theorem change_satellite (h : d.satelliteFor? key = some s) : d.change key inSatellite inOwner =
    ((inSatellite s).1,
      { d with satellites :=
          modifyFirst (PropertySet.supports · key) (fun _ => (inSatellite s).2) d.satellites }) := by
  rw [change, h]
  rfl

theorem change_owner (h : d.satelliteFor? key = none) :
    d.change key inSatellite inOwner = ((inOwner d.owner).1, { d with owner := (inOwner d.owner).2 }) := by
  rw [change, h]
  rfl

/-- A change is one of a satellite or one of the owner. -/
theorem owner_change (d : Distributed ω σ) (key : String)
    (inSatellite : σ → Except PropertyError (Option PropertyValue) × σ)
    (inOwner : ω → Except PropertyError (Option PropertyValue) × ω) :
    (d.change key inSatellite inOwner).2.owner = d.owner ∨
      (d.change key inSatellite inOwner).2.owner = (inOwner d.owner).2 := by
  cases h : d.satelliteFor? key with
  | some s => exact .inl (by rw [change_satellite h])
  | none => exact .inr (by rw [change_owner h])

theorem length_change (d : Distributed ω σ) (key : String)
    (inSatellite : σ → Except PropertyError (Option PropertyValue) × σ)
    (inOwner : ω → Except PropertyError (Option PropertyValue) × ω) :
    (d.change key inSatellite inOwner).2.satellites.length = d.satellites.length := by
  cases h : d.satelliteFor? key with
  | some s =>
    rw [change_satellite h]
    exact length_modifyFirst ..
  | none => rw [change_owner h]

variable [PropertySet ω]

theorem get?_of_satellite (h : d.satelliteFor? key = some s) : PropertySet.get? d key = PropertySet.get? s key := by
  show d.get? key = _
  rw [get?, h]

theorem get?_of_owner (h : d.satelliteFor? key = none) : PropertySet.get? d key = PropertySet.get? d.owner key := by
  show d.get? key = _
  rw [get?, h]

/-- Exchanging a satellite for one that differs in a single key changes the whole set in that key alone. -/
theorem sameBut_exchange (owner : ω) (front rest : List σ) (hs : SameBut key s s') :
    SameBut key (⟨owner, front ++ s :: rest⟩ : Distributed ω σ) ⟨owner, front ++ s' :: rest⟩ where
  supports k := by
    show ((satelliteFor? ⟨owner, front ++ s' :: rest⟩ k).isSome || _) =
      ((satelliteFor? ⟨owner, front ++ s :: rest⟩ k).isSome || _)
    rw [satelliteFor?_append, satelliteFor?_append, hs.supports]
    cases front.find? (PropertySet.supports · k) <;> split <;> rfl
  get k hk := by
    show get? ⟨owner, front ++ s' :: rest⟩ k = get? ⟨owner, front ++ s :: rest⟩ k
    rw [get?, get?, satelliteFor?_append, satelliteFor?_append, hs.supports]
    cases front.find? (PropertySet.supports · k) with
    | some t => rfl
    | none =>
      rw [Option.none_or, Option.none_or]
      by_cases hsupports : PropertySet.supports s k = true
      · rw [if_pos hsupports, if_pos hsupports]
        exact hs.get k hk
      · rw [if_neg hsupports, if_neg hsupports]

theorem sameBut_owner {owner owner' : ω} (satellites : List σ) (ho : SameBut key owner owner') :
    SameBut key (⟨owner, satellites⟩ : Distributed ω σ) ⟨owner', satellites⟩ where
  supports k := by
    show (_ || PropertySet.supports owner' k) = (_ || PropertySet.supports owner k)
    rw [ho.supports]
    rfl
  get k hk := by
    show get? ⟨owner', satellites⟩ k = get? ⟨owner, satellites⟩ k
    rw [get?, get?, ho.get k hk]
    rfl

variable {outcome : Except PropertyError (Option PropertyValue)}

theorem changes_of_satellite (h : d.satelliteFor? key = some s) (hs : Changes s key (inSatellite s) outcome) :
    Changes d key (d.change key inSatellite inOwner) outcome := by
  obtain ⟨owner, satellites⟩ := d
  obtain ⟨hsupports, front, rest, rfl, hfront⟩ := satelliteFor?_eq_some_iff.mp h
  rw [change_satellite h, modifyFirst_append hfront hsupports]
  generalize inSatellite s = result at hs ⊢
  cases hs with
  | refused e => exact .refused e
  | @held s' same =>
    have hnew : satelliteFor? ⟨owner, front ++ s' :: rest⟩ key = some s' :=
      satelliteFor?_eq_some_iff.mpr ⟨(same.supports key).trans hsupports, front, rest, rfl, hfront⟩
    rw [← get?_of_satellite h]
    exact .of_get (sameBut_exchange owner front rest same) (get?_of_satellite hnew)

theorem changes_of_owner (h : d.satelliteFor? key = none) (ho : Changes d.owner key (inOwner d.owner) outcome) :
    Changes d key (d.change key inSatellite inOwner) outcome := by
  obtain ⟨owner, satellites⟩ := d
  rw [change_owner h]
  generalize inOwner owner = result at ho ⊢
  cases ho with
  | refused e => exact .refused e
  | @held owner' same =>
    have hnew : satelliteFor? ⟨owner', satellites⟩ key = none := h
    have hold : PropertySet.get? (⟨owner, satellites⟩ : Distributed ω σ) key = PropertySet.get? owner key :=
      get?_of_owner h
    rw [← hold]
    exact .of_get (sameBut_owner satellites same) (get?_of_owner hnew)

end Distributed

end SoapNode
