import SoapNode.Proofs.Property.Laws

/-!
# The properties of a packet

The properties of a packet are a map with types: a write that is not refused is what its key holds afterwards, or
nothing where null was written to a key with a type, and nothing else of the packet changes. Refused are writes to
the operation, and values of another type than that of their key. The keys of the transport have a type as soon
as there is a satellite, and the first one answers for them. A write or removal that is refused leaves the packet
as it was.
-/

namespace SoapNode.Packet

open PropertySet

variable {p q : Packet} {key : String} {value : PropertyValue}

/-- The type that a key demands of its values: one of its own, or that of the satellites. -/
def valueType? (p : Packet) (key : String) : Option ValueType :=
  if key ∈ TransportProperties.ownKeys ∧ p.properties.satellites ≠ [] then some .text
  else PacketProperties.valueType? key

/-- What a key holds when a value has been written to it. -/
def hold (p : Packet) (key : String) (value : PropertyValue) : Except PropertyError (Option PropertyValue) :=
  if key = PacketProperties.operationKey then .error (.readOnly key)
  else match p.valueType? key with
    | some t => t.hold key value
    | none => .ok (some value)

/-- Nothing has changed but what a key holds. -/
structure KeptBut (key : String) (p q : Packet) : Prop where
  get : ∀ k, k ≠ key → get? q k = get? p k
  message : q.message = p.message
  satellites : q.properties.satellites.length = p.properties.satellites.length

theorem ne_operationKey (hkey : key ∈ TransportProperties.ownKeys) : key ≠ PacketProperties.operationKey := by
  rintro rfl
  revert hkey
  decide

/-- The first satellite answers for the keys of the transport, and none for other keys. -/
theorem satelliteFor?_eq (d : Distributed PacketProperties TransportProperties) (key : String) :
    d.satelliteFor? key = if key ∈ TransportProperties.ownKeys then d.satellites.head? else none := by
  rw [Distributed.satelliteFor?]
  split_ifs with hkey
  · cases d.satellites with
    | nil => rfl
    | cons t rest => exact List.find?_cons_of_pos (t.supports_iff.mpr hkey)
  · rw [List.find?_eq_none]
    exact fun t _ => mt t.supports_iff.mp hkey

/-- Either the first satellite answers for a key, or the packet itself. -/
theorem answered (p : Packet) (key : String) :
    (∃ t, p.properties.satelliteFor? key = some t ∧ key ∈ TransportProperties.ownKeys ∧
      p.properties.satellites ≠ []) ∨
      p.properties.satelliteFor? key = none ∧
      ¬(key ∈ TransportProperties.ownKeys ∧ p.properties.satellites ≠ []) := by
  rw [satelliteFor?_eq]
  split_ifs with hkey
  · cases hsatellites : p.properties.satellites with
    | nil => exact .inr ⟨rfl, by simp⟩
    | cons t rest => exact .inl ⟨t, rfl, hkey, by simp⟩
  · exact .inr ⟨rfl, fun h => hkey h.1⟩

theorem changes_properties
    {result : Except PropertyError (Option PropertyValue) × Distributed PacketProperties TransportProperties}
    {outcome : Except PropertyError (Option PropertyValue)} (h : Changes p.properties key result outcome) :
    Changes p key (result.map id (fun properties => { p with properties })) outcome := by
  cases h with
  | refused e => exact .refused e
  | held same => exact .held ⟨same.supports, same.get⟩

theorem changes_write (p : Packet) (key : String) (value : PropertyValue) :
    Changes p key (PropertySet.write p key value) (p.hold key value) := by
  apply changes_properties
  show Changes p.properties key
    (p.properties.change key (PropertySet.write · key value) (PropertySet.write · key value)) _
  rw [hold, valueType?]
  rcases p.answered key with ⟨t, hfor, hkey, hsatellites⟩ | ⟨hfor, hnot⟩
  · rw [if_neg (ne_operationKey hkey), if_pos ⟨hkey, hsatellites⟩]
    exact Distributed.changes_of_satellite hfor (t.changes_write hkey value)
  · rw [if_neg hnot]
    exact Distributed.changes_of_owner hfor (p.properties.owner.changes_write key value)

theorem changes_erase (p : Packet) (key : String) :
    Changes p key (PropertySet.erase p key)
      (if key = PacketProperties.operationKey then .error (.readOnly key) else .ok none) := by
  apply changes_properties
  show Changes p.properties key (p.properties.change key (PropertySet.erase · key) (PropertySet.erase · key)) _
  rcases p.answered key with ⟨t, hfor, hkey, -⟩ | ⟨hfor, -⟩
  · rw [if_neg (ne_operationKey hkey)]
    exact Distributed.changes_of_satellite hfor (t.changes_erase hkey)
  · exact Distributed.changes_of_owner hfor (p.properties.owner.changes_erase key)

theorem valueType?_operationKey (p : Packet) : p.valueType? PacketProperties.operationKey = none :=
  if_neg (fun h => ne_operationKey h.1 rfl)

theorem hold_error_iff (p : Packet) (key : String) (value : PropertyValue) (e : PropertyError) :
    p.hold key value = .error e ↔
    (key = PacketProperties.operationKey ∧ e = .readOnly key) ∨
      ∃ t, p.valueType? key = some t ∧ t.admits value = false ∧ e = .invalidType key t.name := by
  rw [hold]
  split_ifs with hoperation
  · subst hoperation
    rw [valueType?_operationKey]
    constructor
    · intro h
      exact .inl ⟨rfl, (Except.error.inj h).symm⟩
    · rintro (⟨-, rfl⟩ | ⟨t, ht, -⟩)
      · rfl
      · cases ht
  · cases htype : p.valueType? key with
    | none => simp [hoperation]
    | some t => simp [hoperation, t.hold_error_iff]

theorem eq_of_hold_ok {held : Option PropertyValue} (h : p.hold key value = .ok held) :
    held = if value.isNull = true ∧ (p.valueType? key).isSome = true then none else some value := by
  rw [hold] at h
  split_ifs at h
  cases htype : p.valueType? key with
  | none =>
    rw [htype] at h
    simpa using (Except.ok.inj h).symm
  | some t =>
    rw [htype] at h
    simpa using ValueType.eq_of_hold_ok h

theorem keptBut_write (hsame : SameBut key p (PropertySet.write p key value).2) :
    KeptBut key p (PropertySet.write p key value).2 :=
  ⟨hsame.get, rfl, p.properties.length_change key (PropertySet.write · key value) (PropertySet.write · key value)⟩

theorem keptBut_erase (hsame : SameBut key p (PropertySet.erase p key).2) : KeptBut key p (PropertySet.erase p key).2 :=
  ⟨hsame.get, rfl, p.properties.length_change key (PropertySet.erase · key) (PropertySet.erase · key)⟩

/-- A write tells what its key held, and the key then holds the value, or nothing where null was written to a key with
a type. Refused are the operation and values of another type. A removal leaves nothing, and only that of the
operation is refused. Neither changes anything else, and nothing at all when it is refused. The first satellite that
supports a key answers for it, or else the packet, and a response answers for all keys as its request. -/
theorem properties_as_map (p : Packet) (key : String) (value : PropertyValue) :
    (∀ old q, PropertySet.write p key value = (.ok old, q) → old = get? p key ∧ KeptBut key p q ∧
      get? q key = if value.isNull = true ∧ (p.valueType? key).isSome = true then none else some value) ∧
    (∀ e q, PropertySet.write p key value = (.error e, q) ↔ q = p ∧
      ((key = PacketProperties.operationKey ∧ e = .readOnly key) ∨
        ∃ t, p.valueType? key = some t ∧ t.admits value = false ∧ e = .invalidType key t.name)) ∧
    (∀ old q, PropertySet.erase p key = (.ok old, q) →
      old = get? p key ∧ KeptBut key p q ∧ get? q key = none) ∧
    (∀ e q, PropertySet.erase p key = (.error e, q) ↔
      q = p ∧ key = PacketProperties.operationKey ∧ e = .readOnly key) ∧
    (∀ front t rest, p.properties.satellites = front ++ t :: rest → PropertySet.supports t key = true →
      (∀ u ∈ front, PropertySet.supports u key = false) → get? p key = get? t key) ∧
    ((∀ t ∈ p.properties.satellites, PropertySet.supports t key = false) → get? p key = get? p.typed key) ∧
    ∀ m, get? (p.respond m) key = get? p key := by
  refine ⟨?_, ?_, ?_, ?_, ?_, ?_, fun _ => rfl⟩
  · intro old q hwrite
    obtain ⟨hold, hheld, hsame⟩ := (p.changes_write key value).ok_spec hwrite
    obtain rfl : (PropertySet.write p key value).2 = q := congrArg Prod.snd hwrite
    exact ⟨hold, keptBut_write hsame, eq_of_hold_ok hheld⟩
  · intro e q
    rw [(p.changes_write key value).error_iff, hold_error_iff]
  · intro old q herase
    obtain ⟨hold, hheld, hsame⟩ := (p.changes_erase key).ok_spec herase
    obtain rfl : (PropertySet.erase p key).2 = q := congrArg Prod.snd herase
    refine ⟨hold, keptBut_erase hsame, ?_⟩
    split_ifs at hheld
    exact (Except.ok.inj hheld).symm
  · intro e q
    rw [(p.changes_erase key).error_iff]
    split_ifs with hoperation <;> simp [hoperation, eq_comm]
  · intro front t rest hsatellites ht hfront
    exact Distributed.get?_of_satellite (Distributed.satelliteFor?_eq_some_iff.mpr ⟨ht, front, rest,
      hsatellites, hfront⟩)
  · intro hnone
    refine Distributed.get?_of_owner (List.find?_eq_none.mpr ?_)
    intro t ht
    rw [hnone t ht]
    decide

/-- A packet with a property of its own and two satellites, of which the first one has this content type. -/
def twiceShipped (contentType : Option String) : Packet :=
  { empty with properties := ⟨{ PacketProperties.empty with others := PropertyMap.empty.put "tries" (.number 2 0) },
    [⟨contentType, none⟩, ⟨some "text/xml", none⟩]⟩ }

theorem properties_as_map_shipped :
    let key := TransportProperties.contentTypeKey
    let p := twiceShipped none
    let q := twiceShipped (some "a/b")
    PropertySet.write p key (.string "a/b") = (.ok none, q) ∧ get? p key = none ∧ KeptBut key p q ∧
      get? q key = some (.string "a/b") ∧ PropertySet.erase q key =
        (.ok (some (.string "a/b")), p) ∧ KeptBut key q p ∧
      get? p "tries" = get? p.typed "tries" := by
  intro key p q
  obtain ⟨hwrite, -, -, -, hfirst, -, -⟩ := properties_as_map p key (.string "a/b")
  obtain ⟨-, hkept, hheld⟩ := hwrite none q rfl
  obtain ⟨-, hrest, -⟩ := (properties_as_map q key .null).2.2.1 (some (.string "a/b")) p rfl
  have hown := (properties_as_map p "tries" .null).2.2.2.2.2.1 (by decide)
  exact ⟨rfl, hfirst [] _ _ rfl rfl nofun, hkept, hheld, rfl, hrest, hown⟩

end SoapNode.Packet
