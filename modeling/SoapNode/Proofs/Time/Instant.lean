import Mathlib.Tactic.Common
import SoapNode.Time.Instant

/-!
# Instants some seconds apart

Adding seconds leads back only if there are less than none of them, also from a leap second. The second that an
instant lies in moves with it.
-/

namespace SoapNode.Instant

/-- A second runs on only at the end of a minute, and for one second more. -/
def Proper (t : Instant) : Prop := t.nanos < nanosPerSecond ∨ t.nanos < 2 * nanosPerSecond ∧ t.seconds % 60 = 59

/-- The second that an instant lies in. -/
def second (t : Instant) : Instant := { t with nanos := if t.nanos < nanosPerSecond then 0 else nanosPerSecond }

/-- The instant has a year of four digits. -/
def Writable (t : Instant) : Prop := 0 ≤ t.date.year ∧ t.date.year ≤ 9999

variable {t : Instant} {n : Int}

theorem since_self (t : Instant) : t.since t = 0 := by
  simp [since, leapSince]

theorem isBefore_iff {t u : Instant} :
    t.isBefore u = true ↔ t.seconds < u.seconds ∨ t.seconds = u.seconds ∧ t.nanos < u.nanos := by
  simp [isBefore]

/-- Within a second, and for no time, the nanoseconds stay. From a leap second time goes on at one of its ends. -/
theorem addSeconds_cases (t : Instant) (n : Int) :
    ((t.nanos < nanosPerSecond ∨ n = 0) ∧ t.addSeconds n = ⟨t.seconds + n, t.nanos⟩) ∨
      (nanosPerSecond ≤ t.nanos ∧ n < 0 ∧ t.addSeconds n = ⟨t.seconds + n + 1, t.nanos - nanosPerSecond⟩) ∨
      (nanosPerSecond ≤ t.nanos ∧ 0 < n ∧ t.addSeconds n = ⟨t.seconds + n, t.nanos - nanosPerSecond⟩) := by
  unfold addSeconds
  by_cases hstays : t.nanos < nanosPerSecond ∨ n = 0
  · exact .inl ⟨hstays, if_pos (by simpa using hstays)⟩
  · obtain ⟨hleap, hn⟩ := not_or.mp hstays
    rw [if_neg (by simpa using ⟨Nat.not_lt.mp hleap, hn⟩)]
    rcases Int.lt_or_gt_of_ne hn with hback | hon
    · exact .inr (.inl ⟨Nat.not_lt.mp hleap, hback, by rw [if_pos hback]⟩)
    · exact .inr (.inr ⟨Nat.not_lt.mp hleap, hon, by rw [if_neg (by omega), Int.add_zero]⟩)

theorem Proper.nanos_lt (h : t.Proper) : t.nanos < 2 * nanosPerSecond := by
  rcases h with h | ⟨h, -⟩
  · exact Nat.lt_trans h (by decide)
  · exact h

theorem Proper.addSeconds (h : t.Proper) (n : Int) : (t.addSeconds n).Proper := by
  have hnanos := h.nanos_lt
  rcases addSeconds_cases t n with ⟨hwithin | rfl, heq⟩ | ⟨-, -, heq⟩ | ⟨-, -, heq⟩ <;> rw [heq]
  · exact .inl hwithin
  · rw [Int.add_zero]
    exact h
  all_goals
    left
    show t.nanos - nanosPerSecond < nanosPerSecond
    omega

/-- Only less than no time leads back. -/
theorem isBefore_addSeconds (t : Instant) (n : Int) : (t.addSeconds n).isBefore t = true ↔ n < 0 := by
  rw [isBefore_iff]
  have hpos : 0 < nanosPerSecond := by decide
  rcases addSeconds_cases t n with ⟨-, heq⟩ | ⟨hleap, hn, heq⟩ | ⟨hleap, hn, heq⟩ <;> rw [heq]
    <;> dsimp only <;> omega

theorem isBefore_second_addSeconds (h : t.Proper) (n : Int) :
    (t.addSeconds n).second.isBefore t.second = true ↔ n < 0 := by
  rw [isBefore_iff]
  have hnanos := h.nanos_lt
  have hpos : 0 < nanosPerSecond := by decide
  rcases addSeconds_cases t n with ⟨-, heq⟩ | ⟨hleap, hn, heq⟩ | ⟨hleap, hn, heq⟩ <;> rw [heq]
    <;> simp only [second]
  · omega
  · rw [if_pos (by omega), if_neg (by omega)]
    omega
  · omega

theorem Writable.inRange (h : t.Writable) : t.inRange = true := by
  obtain ⟨hfirst, hlast⟩ := h
  rw [Instant.inRange, Bool.and_eq_true, decide_eq_true_eq, decide_eq_true_eq]
  omega

end SoapNode.Instant
