import SoapNode.Proofs.Security.Validation
import SoapNode.Proofs.Time.Rfc3339
import SoapNode.Proofs.Xml.Shapes

/-!
# Limits of time

A setting counts as a signed number of seconds, and as no span at all where it is too long for one. So it is what it
says up to the longest span. From there on validation has no result, and a request has no block. The
largest settings are negative spans: they refuse what a limit of a few seconds accepts, and a block
expires before it was made. -/

namespace SoapNode

open Instant (nanosPerSecond)

/-! ### Settings as spans -/

theorem signed_eq (n : UInt64) : signed n = if n.toNat < 2 ^ 63 then (n.toNat : Int) else (n.toNat : Int) - 2 ^ 64 := by
  have hsigned : signed n = n.toBitVec.toInt := rfl
  have hnat : n.toBitVec.toNat = n.toNat := rfl
  rw [hsigned, BitVec.toInt_eq_toNat_cond, hnat]
  split_ifs <;> omega

theorem eq_signed_of_span? {n : UInt64} {span : Int} (h : span? n = some span) : span = signed n := by
  unfold span? at h
  split_ifs at h
  exact (Option.some.inj h).symm

/-- A setting is a span of itself, no span, or one that is short of a whole round. -/
theorem span?_cases (n : UInt64) :
    ((n.toNat : Int) ≤ maxSpan ∧ span? n = some (n.toNat : Int)) ∨
      (maxSpan < n.toNat ∧ (n.toNat : Int) < 2 ^ 64 - maxSpan ∧ span? n = none) ∨
      (2 ^ 64 - maxSpan ≤ (n.toNat : Int) ∧ span? n = some ((n.toNat : Int) - 2 ^ 64)) := by
  have hsigned := signed_eq n
  have hlt := n.toNat_lt
  unfold span? maxSpan
  by_cases hhalf : n.toNat < 2 ^ 63
  · rw [if_pos hhalf] at hsigned
    rw [hsigned]
    by_cases hspan : (n.toNat : Int) ≤ 9223372036854775
    · exact .inl ⟨hspan, if_pos (by omega)⟩
    · exact .inr (.inl ⟨by omega, by omega, if_neg (by omega)⟩)
  · rw [if_neg hhalf] at hsigned
    rw [hsigned]
    by_cases hspan : (n.toNat : Int) < 2 ^ 64 - 9223372036854775
    · exact .inr (.inl ⟨by omega, hspan, if_neg (by omega)⟩)
    · exact .inr (.inr ⟨by omega, if_pos (by omega)⟩)

theorem span?_of_le {n : UInt64} (h : (n.toNat : Int) ≤ maxSpan) : span? n = some (n.toNat : Int) := by
  rcases span?_cases n with ⟨-, hspan⟩ | ⟨hlong, -⟩ | ⟨hlong, -⟩
  · exact hspan
  · omega
  · rw [maxSpan] at *
    omega

/-- Only a setting that is a span of itself is one that is not negative. -/
theorem le_of_span? {n : UInt64} {span : Int} (h : span? n = some span) (hpos : 0 ≤ span) :
    (n.toNat : Int) ≤ maxSpan := by
  have hlt := n.toNat_lt
  rcases span?_cases n with ⟨hle, -⟩ | ⟨-, -, hnone⟩ | ⟨-, hnegative⟩
  · exact hle
  · rw [hnone] at h
    cases h
  · have := Option.some.inj (h.symm.trans hnegative)
    omega

namespace Security

open SecurityHeader Wss
open Element (around telling elements_around)

/-- What there is to object to a time that was so many nanoseconds ago, under a limit in seconds. -/
def objection (limit age : Int) : Option ViolationCode :=
  if limit * nanosPerSecond < age then some .timestampExpired
  else if age < -skew * nanosPerSecond then some .invalidTimestamp
  else none

variable {c : SecuritySettings} {now t : Instant} {created : String}

/-- The kinds of objections to a creation time. -/
def verdict (c : SecuritySettings) (now : Instant) (created : String) : Option (List ViolationCode) :=
  (checkCreated c now created).map (·.map (·.code))

theorem verdict_eq (h : Rfc3339.parse created = some t) :
    verdict c now created = (span? c.maxTimestampAge).map (fun limit => (objection limit (now.since t)).toList) := by
  rw [verdict, checkCreated, h]
  cases span? c.maxTimestampAge with
  | none => rfl
  | some limit =>
    simp only [Option.bind_eq_bind, Option.bind_some, Option.map_some, objection]
    split_ifs <;> rfl

/-- The limit is what the settings say: each time of creation gets the verdict of their seconds. -/
def LimitHolds (c : SecuritySettings) : Prop := ∀ now created t, Rfc3339.parse created = some t →
  verdict c now created = some (objection c.maxTimestampAge.toNat (now.since t)).toList

/-- What any lower limit accepts is accepted. -/
def AcceptsLower (c : SecuritySettings) : Prop := ∀ (c' : SecuritySettings) now created,
  c'.maxTimestampAge ≤ c.maxTimestampAge → checkCreated c' now created = some [] →
    checkCreated c now created = some []

/-- The block of a request is made, and its dates read back, the end not before the start. -/
def Lasting (c : SecuritySettings) (now : Instant) : Prop :=
  ∃ block created expires made expiry, SecurityHeader.make c now = some block ∧
    (SecurityHeader.ofElement block.element).timestamp = some ⟨some created, some expires⟩ ∧
    Rfc3339.parse created = some made ∧ Rfc3339.parse expires = some expiry ∧ expiry.isBefore made = false

/-- The start of 2024. -/
def start2024 : Instant := ⟨1704067200, 0⟩

theorem parse_start2024 : Rfc3339.parse "2024-01-01T00:00:00Z" = some start2024 := by decide +kernel

/-- There is an objection to what is made just now only under a negative limit. -/
theorem objection_zero (limit : Int) : objection limit 0 = if limit < 0 then some .timestampExpired else none := by
  have hlimit : limit * nanosPerSecond < 0 ↔ limit < 0 := by
    rw [nanosPerSecond]
    omega
  simp only [objection, hlimit]
  rfl

theorem limitHolds_iff : LimitHolds c ↔ (c.maxTimestampAge.toNat : Int) ≤ maxSpan := by
  constructor
  · intro h
    have hnow := h start2024 _ start2024 parse_start2024
    rw [verdict_eq parse_start2024, Instant.since_self, objection_zero, if_neg (by omega)] at hnow
    obtain ⟨limit, hspan, hlimit⟩ := Option.map_eq_some_iff.mp hnow
    apply le_of_span? hspan
    by_contra hnegative
    rw [objection_zero, if_pos (by omega)] at hlimit
    cases hlimit
  · intro hle now created t ht
    rw [verdict_eq ht, span?_of_le hle, Option.map_some]

/-- A time of creation without objections. -/
theorem accepts_iff : checkCreated c now created = some [] ↔ ∃ t limit, Rfc3339.parse created = some t ∧
    span? c.maxTimestampAge = some limit ∧ now.since t ≤ limit * nanosPerSecond ∧
    -skew * nanosPerSecond ≤ now.since t := by
  rw [checkCreated]
  cases Rfc3339.parse created with
  | none => simp
  | some t =>
    cases span? c.maxTimestampAge with
    | none => simp
    | some limit =>
      simp only [Option.bind_eq_bind, Option.bind_some, Option.some.injEq, exists_eq_left', existsAndEq, true_and]
      split_ifs with hold hfuture
      · exact iff_of_false nofun (fun h => absurd hold (not_lt.mpr h.1))
      · exact iff_of_false nofun (fun h => absurd hfuture (not_lt.mpr h.2))
      · exact iff_of_true rfl ⟨not_lt.mp hold, not_lt.mp hfuture⟩

theorem acceptsLower_iff : AcceptsLower c ↔ (c.maxTimestampAge.toNat : Int) ≤ maxSpan := by
  constructor
  · intro h
    have hage := Instant.since_self start2024
    have hzero : checkCreated { maxTimestampAge := 0 } start2024 "2024-01-01T00:00:00Z" = some [] :=
      accepts_iff.mpr ⟨start2024, 0, parse_start2024, by decide, by rw [hage]; decide, by rw [hage]; decide⟩
    obtain ⟨t, limit, ht, hspan, hlimit, -⟩ := accepts_iff.mp (h _ _ _ UInt64.zero_le hzero)
    obtain rfl : t = start2024 := Option.some.inj (ht.symm.trans parse_start2024)
    rw [hage, nanosPerSecond] at hlimit
    exact le_of_span? hspan (by omega)
  · intro hle c' now created hlower haccepts
    obtain ⟨t, limit, ht, hspan, hage, hskew⟩ := accepts_iff.mp haccepts
    have hlimit : limit ≤ c.maxTimestampAge.toNat :=
      Int.le_trans (span?_le hspan) (Int.ofNat_le.mpr (UInt64.le_iff_toNat_le.mp hlower))
    have hscaled : limit * (nanosPerSecond : Int) ≤ c.maxTimestampAge.toNat * nanosPerSecond :=
      Int.mul_le_mul_of_nonneg_right hlimit (by decide)
    exact accepts_iff.mpr ⟨t, c.maxTimestampAge.toNat, ht, span?_of_le hle, Int.le_trans hage hscaled, hskew⟩

theorem make_eq_none_iff : SecurityHeader.make c now = none ↔
    ∀ lifetime, span? c.timestampLifetime = some lifetime → (now.addSeconds lifetime).inRange = false := by
  rw [SecurityHeader.make]
  cases span? c.timestampLifetime with
  | none => simp
  | some lifetime =>
    simp only [Option.bind_eq_bind, Option.bind_some, Option.some.injEq, forall_eq']
    cases (now.addSeconds lifetime).inRange <;> simp

/-- The part of a block that bears its dates. -/
def stamp (created expires : String) : Element :=
  around (wsuElement "Timestamp").tag [telling (wsuElement "Created").tag created,
    telling (wsuElement "Expires").tag expires]

theorem childText_stamp (created expires : String) :
    childText (stamp created expires) (wsu "Created") = some (Text.trim created) ∧
      childText (stamp created expires) (wsu "Expires") = some (Text.trim expires) := by
  have hdiffer : (telling (wsuElement "Created").tag created).name ≠ wsu "Expires" := by
    show wsu "Created" ≠ wsu "Expires"
    simp [wsu]
  have hcreated : (stamp created expires).child? (wsu "Created") = some (telling (wsuElement "Created").tag created) :=
    Element.child?_around_self ..
  have hexpires : (stamp created expires).child? (wsu "Expires") = some (telling (wsuElement "Expires").tag expires) :=
    (Element.child?_around_of_ne hdiffer ..).trans (Element.child?_around_self ..)
  rw [childText, childText, hcreated, hexpires, Option.map_some, Option.map_some, Element.textContent_telling,
    Element.textContent_telling]
  exact ⟨rfl, rfl⟩

/-- A block holds its dates before anything else. -/
theorem child?_of_make {block : Header} (h : SecurityHeader.make c now = some block) :
    block.element.child? (wsu "Timestamp") =
      some (stamp (Rfc3339.format now) (Rfc3339.format (now.addSeconds (signed c.timestampLifetime)))) := by
  rw [SecurityHeader.make] at h
  obtain ⟨lifetime, hspan, h⟩ := Option.bind_eq_some_iff.mp h
  rw [← eq_signed_of_span? hspan]
  dsimp only at h
  split at h
  · cases h
  · have hfirst (part : Element) (hpart : part.name = wsu "Timestamp") (rest : List Element) :
        (around ((wsseElement "Security").declare "wsu" utilityUri).tag (part :: rest)).child?
            (wsu "Timestamp") = some part :=
      hpart ▸ Element.child?_around_self _ part rest
    rw [← Option.some.inj h]
    cases c.username with
    | none => exact hfirst _ rfl []
    | some username => exact hfirst _ rfl [tokenElement username c.password (Rfc3339.format now)]

/-- A block says of itself when it was made and when it ends. -/
theorem timestamp_of_make {block : Header} (h : SecurityHeader.make c now = some block) :
    (SecurityHeader.ofElement block.element).timestamp =
      some ⟨some (Rfc3339.format now), some (Rfc3339.format (now.addSeconds (signed c.timestampLifetime)))⟩ := by
  obtain ⟨hcreated, hexpires⟩ :=
    childText_stamp (Rfc3339.format now) (Rfc3339.format (now.addSeconds (signed c.timestampLifetime)))
  rw [SecurityHeader.ofElement, child?_of_make h, Option.map_some, hcreated, hexpires, Rfc3339.trim_format,
    Rfc3339.trim_format]

theorem lasting_iff (hnow : now.Proper) (hwritable : now.Writable)
    (hend : (now.addSeconds (signed c.timestampLifetime)).Writable) :
    Lasting c now ↔ (c.timestampLifetime.toNat : Int) ≤ maxSpan := by
  have hmade := Rfc3339.parse_format hnow hwritable
  have hexpiry := Rfc3339.parse_format (hnow.addSeconds _) hend
  have hback := Instant.isBefore_second_addSeconds hnow (signed c.timestampLifetime)
  constructor
  · rintro ⟨block, created, expires, made, expiry, hblock, htimestamp, hcreated, hexpires, hbefore⟩
    obtain ⟨rfl, rfl⟩ : created = _ ∧ expires = _ := by
      simpa using htimestamp.symm.trans (timestamp_of_make hblock)
    obtain rfl := Option.some.inj (hcreated.symm.trans hmade)
    obtain rfl := Option.some.inj (hexpires.symm.trans hexpiry)
    obtain ⟨lifetime, hspan, -⟩ := Option.bind_eq_some_iff.mp hblock
    have hpos : ¬signed c.timestampLifetime < 0 := by rw [← hback, hbefore]; decide
    rw [← eq_signed_of_span? hspan] at hpos
    exact le_of_span? hspan (not_lt.mp hpos)
  · intro hle
    have hspan := span?_of_le hle
    have hsigned := eq_signed_of_span? hspan
    cases hblock : SecurityHeader.make c now with
    | none =>
      have hout := make_eq_none_iff.mp hblock _ hspan
      rw [hsigned, hend.inRange] at hout
      cases hout
    | some block =>
      refine ⟨block, _, _, _, _, hblock, timestamp_of_make hblock, hmade, hexpiry, ?_⟩
      rw [Bool.eq_false_iff, Ne, hback]
      omega

/-- Limits of time are exact for just those settings that the longest span covers. Such a limit objects to each time of
creation as its seconds say, and accepts whatever a lower limit accepts. For other settings there is no
verdict, or it is that of a negative span. A block is made unless its lifetime is no span or leads out of
the calendar. It bears the dates of both its ends, which are in order, and read back as such, where the
longest span covers the lifetime. -/
theorem limits_exact_iff (c : SecuritySettings) :
    (LimitHolds c ↔ (c.maxTimestampAge.toNat : Int) ≤ maxSpan) ∧
    (AcceptsLower c ↔ (c.maxTimestampAge.toNat : Int) ≤ maxSpan) ∧
    (∀ now created t, Rfc3339.parse created = some t →
      verdict c now created = (span? c.maxTimestampAge).map (fun limit => (objection limit (now.since t)).toList)) ∧
    (∀ now, SecurityHeader.make c now = none ↔
      ∀ lifetime, span? c.timestampLifetime = some lifetime → (now.addSeconds lifetime).inRange = false) ∧
    (∀ now block, SecurityHeader.make c now = some block →
      (SecurityHeader.ofElement block.element).timestamp =
        some ⟨some (Rfc3339.format now), some (Rfc3339.format (now.addSeconds (signed c.timestampLifetime)))⟩ ∧
      ((now.addSeconds (signed c.timestampLifetime)).isBefore now = false ↔
        (c.timestampLifetime.toNat : Int) ≤ maxSpan)) ∧
    ∀ now, now.Proper → now.Writable → (now.addSeconds (signed c.timestampLifetime)).Writable →
      (Lasting c now ↔ (c.timestampLifetime.toNat : Int) ≤ maxSpan) := by
  refine ⟨limitHolds_iff, acceptsLower_iff, fun _ _ _ => verdict_eq, fun _ => make_eq_none_iff, ?_,
    fun _ => lasting_iff⟩
  intro now block hblock
  refine ⟨timestamp_of_make hblock, ?_⟩
  obtain ⟨lifetime, hspan, -⟩ := Option.bind_eq_some_iff.mp hblock
  rw [Bool.eq_false_iff, Ne, Instant.isBefore_addSeconds, ← eq_signed_of_span? hspan]
  constructor
  · intro hpos
    exact le_of_span? hspan (not_lt.mp hpos)
  · intro hle
    have := Option.some.inj (hspan.symm.trans (span?_of_le hle))
    omega

theorem limits_exact_iff_default :
    let c : SecuritySettings := {}
    LimitHolds c ∧ AcceptsLower c ∧ verdict c early2024 "2024-01-01T00:00:00Z" = some [] ∧ Lasting c early2024 ∧
      ¬LimitHolds { maxTimestampAge := 18446744073709551615 } := by
  intro c
  obtain ⟨hlimit, hlower, -, -, -, hlasting⟩ := limits_exact_iff c
  have hholds : LimitHolds c := hlimit.mpr (by decide)
  have hverdict : (objection c.maxTimestampAge.toNat (early2024.since start2024)).toList = [] := by decide +kernel
  refine ⟨hholds, hlower.mpr (by decide), ?_, ?_, ?_⟩
  · rw [hholds _ _ _ parse_start2024, hverdict]
  · have hends := hlasting early2024 (.inl (by decide)) ⟨by decide +kernel, by decide +kernel⟩
      ⟨by decide +kernel, by decide +kernel⟩
    exact hends.mpr (by decide)
  · intro hlarge
    have hle := (limits_exact_iff { maxTimestampAge := 18446744073709551615 }).1.mp hlarge
    revert hle
    decide

/-- The largest limit refuses what a limit of five minutes accepts, a large one has no verdict, and a
block of the largest lifetime ends before it was made. -/
theorem limits_of_large :
    verdict {} early2024 "2024-01-01T00:00:00Z" = some [] ∧
    verdict { maxTimestampAge := 18446744073709551615 } early2024 "2024-01-01T00:00:00Z" = some [.timestampExpired] ∧
    verdict { maxTimestampAge := 9223372036854775807 } early2024 "2024-01-01T00:00:00Z" = none ∧
    ¬Lasting { timestampLifetime := 18446744073709551615 } early2024 := by
  refine ⟨by decide +kernel, by decide +kernel, by decide +kernel, ?_⟩
  rw [lasting_iff (.inl (by decide)) ⟨by decide +kernel, by decide +kernel⟩
    ⟨by decide +kernel, by decide +kernel⟩]
  decide

end Security

end SoapNode
