import SoapNode.Property.Value

/-!
# Property sets

A property set answers for some keys. `PropertyMap` is one that takes every key, in the order of its
keys. `Distributed` asks its satellites first: the first satellite that supports a key answers for it,
and the owner answers for the rest. Writing and erasing work in place: the set comes back with the
answer, and with an error too.
-/

namespace SoapNode

class PropertySet (σ : Type) where
  supports : σ → String → Bool
  get? : σ → String → Option PropertyValue
  /-- Stores a value and answers with the one before it. -/
  write : σ → String → PropertyValue → Except PropertyError (Option PropertyValue) × σ
  erase : σ → String → Except PropertyError (Option PropertyValue) × σ
  keys : σ → List String

namespace PropertySet

variable {σ : Type}

/-- Answers with what was there before and stores what was read of a value, unless reading it failed. -/
def storeRead {α : Type} (s : σ) (previous : Option PropertyValue)
    (read : Except PropertyError α) (set : α → σ) : Except PropertyError (Option PropertyValue) × σ :=
  match read with
  | .ok a => (.ok previous, set a)
  | .error e => (.error e, s)

variable [PropertySet σ]

/-- Writes a value, for a caller that gives the set up where that fails. -/
def put (s : σ) (key : String) (value : PropertyValue) : Except PropertyError (Option PropertyValue × σ) :=
  let (answer, s) := write s key value
  answer.map (·, s)

def remove (s : σ) (key : String) : Except PropertyError (Option PropertyValue × σ) :=
  let (answer, s) := erase s key
  answer.map (·, s)

end PropertySet

instance {σ τ : Type} [PropertySet σ] [PropertySet τ] : PropertySet (σ ⊕ τ) where
  supports
    | .inl s => PropertySet.supports s
    | .inr t => PropertySet.supports t
  get?
    | .inl s => PropertySet.get? s
    | .inr t => PropertySet.get? t
  write
    | .inl s, k, v => (PropertySet.write s k v).map id .inl
    | .inr t, k, v => (PropertySet.write t k v).map id .inr
  erase
    | .inl s, k => (PropertySet.erase s k).map id .inl
    | .inr t, k => (PropertySet.erase t k).map id .inr
  keys
    | .inl s => PropertySet.keys s
    | .inr t => PropertySet.keys t

/-- Keys with their values, in ascending order of the keys. -/
structure PropertyMap where
  entries : List (String × PropertyValue)
  deriving Repr

namespace PropertyMap

def empty : PropertyMap := ⟨[]⟩

def get? (m : PropertyMap) (key : String) : Option PropertyValue := m.entries.lookup key

def insert (key : String) (value : PropertyValue) : List (String × PropertyValue) → List (String × PropertyValue)
  | [] => [(key, value)]
  | e :: es =>
    if key = e.1 then (key, value) :: es
    else if key < e.1 then (key, value) :: e :: es
    else e :: insert key value es

def put (m : PropertyMap) (key : String) (value : PropertyValue) : PropertyMap := ⟨insert key value m.entries⟩

def remove (m : PropertyMap) (key : String) : PropertyMap := ⟨m.entries.filter (·.1 ≠ key)⟩

instance : PropertySet PropertyMap where
  supports _ _ := true
  get? := get?
  write m k v := (.ok (m.get? k), m.put k v)
  erase m k := (.ok (m.get? k), m.remove k)
  keys m := m.entries.map (·.1)

end PropertyMap

/-- A map that answers only for the keys that start with a text. -/
structure ScopedProperties where
  keyStart : String
  values : PropertyMap
  deriving Repr

namespace ScopedProperties

instance : PropertySet ScopedProperties where
  supports s k := s.keyStart.toList.isPrefixOf k.toList
  get? s k := s.values.get? k
  write s k v := (.ok (s.values.get? k), { s with values := s.values.put k v })
  erase s k := (.ok (s.values.get? k), { s with values := s.values.remove k })
  keys s := PropertySet.keys s.values

end ScopedProperties

/-- A single key whose value cannot be changed. -/
structure FixedProperty where
  key : String
  value : PropertyValue
  deriving Repr

namespace FixedProperty

instance : PropertySet FixedProperty where
  supports s k := k == s.key
  get? s k := if k = s.key then some s.value else none
  write s k _ := (.error (.readOnly k), s)
  erase s k := (.error (.readOnly k), s)
  keys s := [s.key]

end FixedProperty

structure Distributed (ω σ : Type) where
  owner : ω
  satellites : List σ
  deriving Repr

namespace Distributed

variable {ω σ : Type} [PropertySet ω] [PropertySet σ]

def ofOwner (owner : ω) : Distributed ω σ := ⟨owner, []⟩

def attach (d : Distributed ω σ) (s : σ) : Distributed ω σ := { d with satellites := d.satellites ++ [s] }

def detach (d : Distributed ω σ) (p : σ → Bool) : Option (σ × Distributed ω σ) :=
  match d.satellites.find? p with
  | none => none
  | some s => some (s, { d with satellites := d.satellites.eraseP p })

def modifyFirst (p : σ → Bool) (f : σ → σ) : List σ → List σ
  | [] => []
  | s :: ss => if p s then f s :: ss else s :: modifyFirst p f ss

def satelliteFor? (d : Distributed ω σ) (key : String) : Option σ := d.satellites.find? (PropertySet.supports · key)

def supports (d : Distributed ω σ) (key : String) : Bool :=
  (d.satelliteFor? key).isSome || PropertySet.supports d.owner key

def get? (d : Distributed ω σ) (key : String) : Option PropertyValue :=
  match d.satelliteFor? key with
  | some s => PropertySet.get? s key
  | none => PropertySet.get? d.owner key

def change (d : Distributed ω σ) (key : String)
    (inSatellite : σ → Except PropertyError (Option PropertyValue) × σ)
    (inOwner : ω → Except PropertyError (Option PropertyValue) × ω) :
    Except PropertyError (Option PropertyValue) × Distributed ω σ :=
  match d.satelliteFor? key with
  | some s => (inSatellite s).map id (fun s =>
    { d with satellites := modifyFirst (PropertySet.supports · key) (fun _ => s) d.satellites })
  | none => (inOwner d.owner).map id (fun owner => { d with owner })

def write (d : Distributed ω σ) (key : String) (value : PropertyValue) :
    Except PropertyError (Option PropertyValue) × Distributed ω σ :=
  d.change key (PropertySet.write · key value) (PropertySet.write · key value)

def erase (d : Distributed ω σ) (key : String) : Except PropertyError (Option PropertyValue) × Distributed ω σ :=
  d.change key (PropertySet.erase · key) (PropertySet.erase · key)

def distinct (keys : List String) : List String :=
  keys.foldl (fun seen k => if seen.contains k then seen else seen ++ [k]) []

/-- The keys of the satellites, in their order, and then the owner's. -/
def keys (d : Distributed ω σ) : List String :=
  distinct (d.satellites.flatMap PropertySet.keys ++ PropertySet.keys d.owner)

instance : PropertySet (Distributed ω σ) where
  supports := supports
  get? := get?
  write := write
  erase := erase
  keys := keys

end Distributed

end SoapNode
