import SoapNode.Proofs.Text.Trim
import SoapNode.Proofs.Time.Calendar
import SoapNode.Proofs.Time.Instant
import SoapNode.Time.Rfc3339

/-!
# Written instants

A written instant reads back as the second that it lies in, for the years of four digits. A leap second stays one.
-/

namespace SoapNode.Rfc3339

open Instant (nanosPerSecond secondsPerDay)

variable {width n : Nat} {rest : List Char}

/-! ### Numbers of a given width -/

theorem toList_padded (width n : Nat) :
    (padded width n).toList = List.replicate (width - (Nat.toDigits 10 n).length) '0' ++ Nat.toDigits 10 n := by
  have hlist : (toString n).toList = Nat.toDigits 10 n := by simp
  rw [padded, String.toList_append, String.toList_ofList, hlist, ← String.length_toList, hlist]

/-- The last digit of a padded number is that of the number, after the others. -/
theorem toList_padded_succ (width n : Nat) :
    (padded (width + 1 + 1) n).toList = (padded (width + 1) (n / 10)).toList ++ [(n % 10).digitChar] := by
  rw [toList_padded, toList_padded]
  by_cases hn : n < 10
  · rw [Nat.toDigits_of_lt_base hn, Nat.div_eq_of_lt hn, Nat.mod_eq_of_lt hn]
    show List.replicate (width + 1) '0' ++ _ = (List.replicate width '0' ++ ['0']) ++ _
    rw [List.replicate_succ']
  · rw [Nat.toDigits_of_base_le (by decide) (Nat.not_lt.mp hn), List.length_append, ← List.append_assoc,
      List.length_singleton, Nat.add_sub_add_right]

theorem digit?_digitChar (h : n < 10) : digit? n.digitChar = some n := by
  revert n
  decide

theorem digits_snoc {count value read d : Nat} {cs : List Char} {c : Char}
    (h : digits count value cs = some (read, c :: rest)) (hd : digit? c = some d) :
    digits (count + 1) value cs = some (read * 10 + d, rest) := by
  induction count generalizing value cs with
  | zero =>
    cases h
    rw [digits, hd]
    rfl
  | succ count ih =>
    cases cs with
    | nil => cases h
    | cons a cs =>
      rw [digits] at h ⊢
      obtain ⟨first, hfirst, h⟩ := Option.bind_eq_some_iff.mp h
      rw [hfirst]
      exact ih h

theorem digits_padded (width : Nat) (h : n < 10 ^ (width + 1)) (rest : List Char) :
    digits (width + 1) 0 ((padded (width + 1) n).toList ++ rest) = some (n, rest) := by
  induction width generalizing n rest with
  | zero =>
    have hn : n < 10 := h
    rw [toList_padded, Nat.toDigits_of_lt_base hn]
    show (digit? n.digitChar).bind _ = _
    rw [digit?_digitChar hn]
    simp [digits]
  | succ width ih =>
    rw [toList_padded_succ, List.append_assoc, List.singleton_append]
    have hquotient : n / 10 < 10 ^ (width + 1) := by
      rw [Nat.pow_succ] at h
      omega
    rw [digits_snoc (ih hquotient _) (digit?_digitChar (Nat.mod_lt n (by decide)))]
    simp only [Nat.div_add_mod']

/-! ### Dates and times -/

theorem toList_format {t : Instant} {s : Nat} (hs : (s : Int) = t.seconds % secondsPerDay) (h : t.Writable) :
    (format t).toList =
      (padded 4 t.date.year.toNat).toList ++ '-' ::
        ((padded 2 t.date.month).toList ++ '-' :: ((padded 2 t.date.day).toList ++ 'T' ::
        ((padded 2 (s / 3600)).toList ++ ':' :: ((padded 2 (s / 60 % 60)).toList ++ ':' ::
          ((padded 2 (s % 60 + t.nanos / nanosPerSecond)).toList ++ ['Z']))))) := by
  have hyear : year t.date.year = padded 4 t.date.year.toNat := if_pos h
  have hmarks : "-".toList = ['-'] ∧ "T".toList = ['T'] ∧ ":".toList = [':'] ∧ "Z".toList = ['Z'] := by decide
  simp only [format, hyear, ← hs, Int.toNat_natCast, String.toList_append, List.append_assoc,
    hmarks, List.cons_append, List.nil_append]

/-- Reading what is written of a valid date and time. -/
theorem parseChars_padded {d : Date} {hour minute second : Nat} (hyear : 0 ≤ d.year ∧ d.year ≤ 9999)
    (hd : d.isValid = true) (hhour : hour < 24) (hminute : minute < 60) (hsecond : second ≤ 60) :
    parseChars ((padded 4 d.year.toNat).toList ++ '-' :: ((padded 2 d.month).toList ++ '-' ::
      ((padded 2 d.day).toList ++ 'T' :: ((padded 2 hour).toList ++ ':' ::
        ((padded 2 minute).toList ++ ':' :: ((padded 2 second).toList ++ ['Z'])))))) =
      some (if second = 60 then .ofCivil d hour minute 59 nanosPerSecond else .ofCivil d hour minute second 0) := by
  have hsame : (⟨d.year.toNat, d.month, d.day⟩ : Date) = d := by rw [Int.toNat_of_nonneg hyear.1]
  have hdate : d.month < 100 ∧ d.day < 100 := by
    have hvalid := hd
    simp only [Date.isValid, Bool.and_eq_true, decide_eq_true_eq] at hvalid
    have := Date.daysIn_le d.year d.month
    omega
  rw [parseChars]
  -- Each number is read up to the mark behind it, and then the mark.
  refine Option.bind_eq_some_iff.mpr ⟨_, digits_padded 3 (show d.year.toNat < 10 ^ 4 by omega) _, ?_⟩
  refine Option.bind_eq_some_iff.mpr ⟨_, rfl, ?_⟩
  refine Option.bind_eq_some_iff.mpr ⟨_, digits_padded 1 (show d.month < 10 ^ 2 by omega) _, ?_⟩
  refine Option.bind_eq_some_iff.mpr ⟨_, rfl, ?_⟩
  refine Option.bind_eq_some_iff.mpr ⟨_, digits_padded 1 (show d.day < 10 ^ 2 by omega) _, ?_⟩
  refine Option.bind_eq_some_iff.mpr ⟨_, rfl, ?_⟩
  refine Option.bind_eq_some_iff.mpr ⟨_, digits_padded 1 (show hour < 10 ^ 2 by omega) _, ?_⟩
  refine Option.bind_eq_some_iff.mpr ⟨_, rfl, ?_⟩
  refine Option.bind_eq_some_iff.mpr ⟨_, digits_padded 1 (show minute < 10 ^ 2 by omega) _, ?_⟩
  refine Option.bind_eq_some_iff.mpr ⟨_, rfl, ?_⟩
  refine Option.bind_eq_some_iff.mpr ⟨_, digits_padded 1 (show second < 10 ^ 2 by omega) _, ?_⟩
  refine Option.bind_eq_some_iff.mpr ⟨(0, ['Z']), rfl, ?_⟩
  refine Option.bind_eq_some_iff.mpr ⟨(0, []), rfl, ?_⟩
  have hok : ¬((!([] : List Char).isEmpty || !d.isValid || decide (23 < hour) || decide (59 < minute) ||
      decide (60 < second)) = true) := by
    simp [hd]
    omega
  simp only [hsame]
  rw [if_neg hok]
  split <;> simp only [Nat.zero_add, Int.sub_zero]

/-- The second that a date and a time of day name. -/
theorem ofCivil_date {t : Instant} {hour minute second : Nat}
    (htime : (hour * 3600 + minute * 60 + second : Int) = t.seconds % secondsPerDay) (nanos : Nat) :
    Instant.ofCivil t.date hour minute second nanos = ⟨t.seconds, nanos⟩ := by
  have hdays : t.date.toDays = t.seconds / secondsPerDay := Date.toDays_ofDays _
  have hday := Int.mul_ediv_add_emod t.seconds secondsPerDay
  rw [Instant.ofCivil, hdays]
  congr 1
  rw [← htime, Int.mul_comm] at hday
  omega

/-- What is written reads back. -/
theorem parse_format {t : Instant} (hproper : t.Proper) (hwritable : t.Writable) :
    parse (format t) = some t.second := by
  obtain ⟨s, hs⟩ := Int.eq_ofNat_of_zero_le (Int.emod_nonneg t.seconds (show secondsPerDay ≠ 0 by decide))
  have hday : (s : Int) < 86400 := hs ▸ Int.emod_lt_of_pos t.seconds (show (0 : Int) < 86400 by decide)
  have hminute : (s % 60 : Int) = t.seconds % 60 := by
    rw [secondsPerDay] at hs
    omega
  have hsecond : s % 60 + t.nanos / nanosPerSecond ≤ 60 := by
    unfold nanosPerSecond
    rcases hproper with hwithin | ⟨hleap, -⟩ <;> rw [nanosPerSecond] at * <;> omega
  rw [parse, toList_format hs.symm hwritable,
    parseChars_padded hwritable (Date.isValid_ofDays _) (by omega) (by omega) hsecond, Instant.second]
  by_cases hnanos : t.nanos < nanosPerSecond
  · rw [if_pos hnanos, Nat.div_eq_of_lt hnanos, Nat.add_zero, if_neg (by omega), ofCivil_date (by omega)]
  · obtain ⟨hleap, hlast⟩ := hproper.resolve_left hnanos
    have hone : t.nanos / nanosPerSecond = 1 := by
      unfold nanosPerSecond at *
      omega
    rw [if_neg hnanos, hone, if_pos (by omega), ofCivil_date (by omega)]

/-! ### White space -/

theorem not_isBlank_of_mem_padded {c : Char} (h : c ∈ (padded width n).toList) : Text.isBlank c = false := by
  apply Text.not_isBlank_of_isDigit
  rw [toList_padded] at h
  rcases List.mem_append.mp h with hzero | hdigits
  · rw [List.eq_of_mem_replicate hzero]
    rfl
  · exact Nat.isDigit_of_mem_toDigits (by decide) (by decide) hdigits

theorem not_isBlank_of_mem_mark {mark : String} {m c : Char} (hmark : mark.toList = [m]) (hm : Text.isBlank m = false)
    (h : c ∈ mark.toList) : Text.isBlank c = false := by
  rw [hmark, List.mem_singleton] at h
  rw [h, hm]

theorem not_isBlank_of_mem_year {y : Int} {c : Char} (h : c ∈ (year y).toList) : Text.isBlank c = false := by
  unfold year at h
  split at h
  · exact not_isBlank_of_mem_padded h
  · rw [String.toList_append] at h
    rcases List.mem_append.mp h with h | h
    · split at h <;> exact not_isBlank_of_mem_mark rfl rfl h
    · exact not_isBlank_of_mem_padded h

/-- There is no white space in what is written. -/
theorem trim_format (t : Instant) : Text.trim (format t) = format t := by
  have hdash : ∀ c ∈ "-".toList, Text.isBlank c = false := fun _ => not_isBlank_of_mem_mark rfl rfl
  have hbetween : ∀ c ∈ "T".toList, Text.isBlank c = false := fun _ => not_isBlank_of_mem_mark rfl rfl
  have hcolon : ∀ c ∈ ":".toList, Text.isBlank c = false := fun _ => not_isBlank_of_mem_mark rfl rfl
  have hzone : ∀ c ∈ "Z".toList, Text.isBlank c = false := fun _ => not_isBlank_of_mem_mark rfl rfl
  have hyear (y : Int) : ∀ c ∈ (year y).toList, Text.isBlank c = false := fun _ => not_isBlank_of_mem_year
  have hnumber (width n : Nat) : ∀ c ∈ (padded width n).toList, Text.isBlank c = false :=
    fun _ => not_isBlank_of_mem_padded
  have hfull : ∀ c ∈ (format t).toList, Text.isBlank c = false := by
    simp only [format, String.toList_append, List.forall_mem_append]
    exact ⟨⟨⟨⟨⟨⟨⟨⟨⟨⟨⟨hyear _, hdash⟩, hnumber 2 _⟩, hdash⟩, hnumber 2 _⟩, hbetween⟩,
      hnumber 2 _⟩, hcolon⟩, hnumber 2 _⟩, hcolon⟩, hnumber 2 _⟩, hzone⟩
  exact Text.Trimmed.trim_eq ⟨fun c hc => hfull c (List.mem_of_mem_head? hc),
    fun c hc => hfull c (List.mem_of_getLast? hc)⟩

end SoapNode.Rfc3339
