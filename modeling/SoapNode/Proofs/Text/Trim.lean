import Mathlib.Data.List.DropRight
import SoapNode.Text.Blank

/-!
# What trimming leaves

`Trimmed` texts have white space at neither end. Trimming gives such a text and keeps it as it is.
-/

namespace SoapNode.Text

/-- Neither end is white space. -/
structure Trimmed (cs : List Char) : Prop where
  first : ∀ c ∈ cs.head?, isBlank c = false
  last : ∀ c ∈ cs.getLast?, isBlank c = false

instance (cs : List Char) : Decidable (Trimmed cs) :=
  decidable_of_iff (cs.head?.all (!isBlank ·) = true ∧ cs.getLast?.all (!isBlank ·) = true) (by
    simp only [Option.all_eq_true, Bool.not_eq_true']
    exact ⟨fun ⟨first, last⟩ => ⟨first, last⟩, fun ⟨first, last⟩ => ⟨first, last⟩⟩)

theorem trimEnd_eq_rdropWhile (cs : List Char) : trimEnd cs = cs.rdropWhile isBlank := rfl

theorem trimStart_eq_self {cs : List Char} (h : ∀ c ∈ cs.head?, isBlank c = false) : trimStart cs = cs := by
  cases cs with
  | nil => rfl
  | cons c cs =>
    have hc : isBlank c = false := h c rfl
    exact List.dropWhile_cons_of_neg (by simp [hc])

theorem trimEnd_eq_self {cs : List Char} (h : ∀ c ∈ cs.getLast?, isBlank c = false) : trimEnd cs = cs := by
  rw [trimEnd_eq_rdropWhile, List.rdropWhile_eq_self_iff]
  intro hne
  have hlast := h (cs.getLast hne) (List.getLast?_eq_some_getLast hne)
  simp [hlast]

theorem Trimmed.trimChars_eq {cs : List Char} (h : Trimmed cs) : trimChars cs = cs := by
  rw [trimChars, trimStart_eq_self h.first, trimEnd_eq_self h.last]

theorem trimmed_trimChars (cs : List Char) : Trimmed (trimChars cs) := by
  constructor
  · intro c hc
    obtain ⟨rest, hrest⟩ := List.head?_eq_some_iff.mp hc
    obtain ⟨tail, htail⟩ := List.rdropWhile_prefix isBlank (l := trimStart cs)
    have hhead : (trimStart cs).head? = some c := by
      rw [← htail, ← trimEnd_eq_rdropWhile, show trimEnd (trimStart cs) = c :: rest from hrest]
      rfl
    have hnot := List.head?_dropWhile_not isBlank cs
    rw [show cs.dropWhile isBlank = trimStart cs from rfl, hhead] at hnot
    simpa using hnot
  · intro c hc
    have hne : (trimStart cs).rdropWhile isBlank ≠ [] := by
      intro hnil
      rw [trimChars, trimEnd_eq_rdropWhile, hnil] at hc
      cases hc
    have hlast := List.rdropWhile_last_not isBlank (trimStart cs) hne
    rw [trimChars, trimEnd_eq_rdropWhile, List.getLast?_eq_some_getLast hne, Option.mem_some_iff] at hc
    rw [← hc]
    simpa using hlast

theorem Trimmed.trim_eq {s : String} (h : Trimmed s.toList) : trim s = s := by
  rw [trim, h.trimChars_eq, String.ofList_toList]

theorem map_trim_eq {text : Option String} (h : ∀ s ∈ text, Trimmed s.toList) : text.map trim = text := by
  cases text with
  | none => rfl
  | some s => rw [Option.map_some, (h s rfl).trim_eq]

@[simp] theorem trim_trim (s : String) : trim (trim s) = trim s := by
  apply Trimmed.trim_eq
  rw [toList_trim]
  exact trimmed_trimChars s.toList

theorem trim_of_blank {s : String} (h : blank s = true) : trim s = "" := by
  have hnil : trimStart s.toList = [] := by
    rw [trimStart, List.dropWhile_eq_nil_iff]
    simpa [blank] using h
  rw [trim, trimChars, hnil]
  rfl

theorem trimEnd_append {a : List Char} (h : ∀ c ∈ a.getLast?, isBlank c = false) (b : List Char) :
    trimEnd (a ++ b) = a ++ trimEnd b := by
  have ha : a.reverse.dropWhile isBlank = a.reverse := by
    apply trimStart_eq_self
    rwa [List.head?_reverse]
  rw [trimEnd, trimEnd, List.reverse_append, List.dropWhile_append, ha]
  by_cases hblank : ((b.reverse.dropWhile isBlank).isEmpty) = true
  · rw [if_pos hblank, List.isEmpty_iff.mp hblank, List.reverse_reverse, List.reverse_nil, List.append_nil]
  · rw [if_neg hblank, List.reverse_append, List.reverse_reverse]

@[simp] theorem trimEnd_trimEnd (cs : List Char) : trimEnd (trimEnd cs) = trimEnd cs :=
  List.rdropWhile_idempotent isBlank cs

theorem trimChars_append {a : List Char} (hne : a ≠ []) (hfirst : ∀ c ∈ a.head?, isBlank c = false)
    (hlast : ∀ c ∈ a.getLast?, isBlank c = false) (b : List Char) : trimChars (a ++ b) = a ++ trimEnd b := by
  have hstart : trimStart (a ++ b) = a ++ b := by
    apply trimStart_eq_self
    rwa [List.head?_append_of_ne_nil _ hne]
  rw [trimChars, hstart, trimEnd_append hlast]

end SoapNode.Text
