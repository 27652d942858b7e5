import Mathlib.Data.List.Basic
import SoapNode.Proofs.Xml.Trees
import SoapNode.Soap.EntityScan

/-!
# What the scan finds

The scan objects only to text behind an opening `<!`, up to the next closing bracket. In a written tree
every opening angle bracket stands in front of a name or of the slash of an end tag, because text and
values are escaped, so the scan passes whatever the tree says.
-/

namespace SoapNode

namespace EntityScan

/-- What the scan objects to between an opening `<!` and the next closing bracket. -/
inductive Objectionable (declaration : List Char) : Prop where
  | declares {word : String} (known : word ∈ ["DOCTYPE", "doctype", "ENTITY", "entity"])
    (first : word.toList <+: declaration)
  | identifies {word : String} (known : word ∈ ["SYSTEM", "PUBLIC"]) (within : word.toList <:+: declaration)
      (notComment : ¬"--".toList <+: declaration) (notSection : ¬"[CDATA[".toList <+: declaration)

/-- The text begins with a declaration that the scan objects to. -/
def Opens (text : List Char) : Prop :=
  ∃ rest, text = '<' :: '!' :: rest ∧ Objectionable (rest.takeWhile (· != '>'))

/-- Such a declaration begins somewhere in the text. -/
def Suspect (text : List Char) : Prop :=
  ∃ rest, '<' :: '!' :: rest <:+ text ∧ Objectionable (rest.takeWhile (· != '>'))

variable {word text rest : List Char} {c : Char}

theorem occurs_iff : occurs word text = true ↔ word <:+: text := by
  induction text with
  | nil => rw [occurs, List.isEmpty_iff, List.infix_nil]
  | cons c text ih => rw [occurs, Bool.or_eq_true, List.isPrefixOf_iff_prefix, ih, List.infix_cons_iff]

theorem occurs_opening_iff :
    occurs ('<' :: '!' :: word) text = true ↔ ∃ rest, '<' :: '!' :: rest <:+ text ∧ word <+: rest := by
  rw [occurs_iff, List.infix_iff_prefix_suffix]
  constructor
  · rintro ⟨_, ⟨more, rfl⟩, hsuffix⟩
    exact ⟨word ++ more, hsuffix, List.prefix_append word more⟩
  · rintro ⟨rest, hsuffix, hword⟩
    exact ⟨_, List.cons_prefix_cons.mpr ⟨rfl, List.cons_prefix_cons.mpr ⟨rfl, hword⟩⟩, hsuffix⟩

theorem anyExternal_iff :
    anyExternal text = true ↔ ∃ rest, '<' :: '!' :: rest <:+ text ∧ declaresExternal rest = true := by
  fun_induction anyExternal text with
  | case1 => simp
  | case2 cs ih =>
    rw [Bool.or_eq_true, ih]
    constructor
    · rintro (hhere | ⟨rest, hrest, hexternal⟩)
      · exact ⟨cs, List.suffix_rfl, hhere⟩
      · exact ⟨rest, (hrest.trans (List.suffix_cons '!' cs)).trans (List.suffix_cons '<' _), hexternal⟩
    · rintro ⟨rest, hrest, hexternal⟩
      rcases List.suffix_cons_iff.mp hrest with heq | hrest
      · cases heq
        exact .inl hexternal
      · rcases List.suffix_cons_iff.mp hrest with heq | hrest
        · cases heq
        · exact .inr ⟨rest, hrest, hexternal⟩
  | case3 c cs hother ih =>
    rw [ih]
    refine exists_congr fun rest => and_congr_left fun _ => ?_
    rw [List.suffix_cons_iff, or_iff_right]
    intro heq
    obtain ⟨rfl, rfl⟩ := List.cons.inj heq
    exact hother rest rfl rfl

theorem prefix_takeWhile_iff {p : Char → Bool} (hword : word.all p = true) :
    word <+: rest.takeWhile p ↔ word <+: rest := by
  constructor
  · intro h
    exact h.trans (List.takeWhile_prefix p)
  · rintro ⟨more, rfl⟩
    rw [List.takeWhile_append_of_pos (List.all_eq_true.mp hword)]
    exact List.prefix_append _ _

theorem objectionable_iff : Objectionable (rest.takeWhile (· != '>')) ↔
    (∃ word ∈ ["DOCTYPE", "doctype", "ENTITY", "entity"], word.toList <+: rest) ∨
    declaresExternal rest = true := by
  have hnames : ∀ word ∈ ["DOCTYPE", "doctype", "ENTITY", "entity"], word.toList.all (· != '>') = true := by decide
  have hexternal : declaresExternal rest = true ↔ ¬"--".toList <+: rest.takeWhile (· != '>') ∧
      ¬"[CDATA[".toList <+: rest.takeWhile (· != '>') ∧
        ∃ word ∈ ["SYSTEM", "PUBLIC"], word.toList <:+: rest.takeWhile (· != '>') := by
    simp only [declaresExternal, Bool.and_eq_true, Bool.or_eq_true, Bool.not_eq_true', ← Bool.not_eq_true,
      List.isPrefixOf_iff_prefix, occurs_iff, List.exists_mem_cons_iff, and_assoc]
    simp
  rw [hexternal]
  constructor
  · rintro (⟨known, hfirst⟩ | ⟨known, hwithin, hcomment, hsection⟩)
    · exact .inl ⟨_, known, (prefix_takeWhile_iff (hnames _ known)).mp hfirst⟩
    · exact .inr ⟨hcomment, hsection, _, known, hwithin⟩
  · rintro (⟨word, known, hfirst⟩ | ⟨hcomment, hsection, word, known, hwithin⟩)
    · exact .declares known ((prefix_takeWhile_iff (hnames word known)).mpr hfirst)
    · exact .identifies known hwithin hcomment hsection

theorem scan_eq_ok_iff {document : List Char} : scan document = .ok () ↔ ¬Suspect document := by
  have hopening : ∀ word ∈ ["DOCTYPE", "doctype", "ENTITY", "entity"],
      ("<!" ++ word).toList = '<' :: '!' :: word.toList := by decide
  have hsuspect : Suspect document ↔
      (∃ word ∈ ["DOCTYPE", "doctype", "ENTITY", "entity"], occurs ("<!" ++ word).toList document = true) ∨
      anyExternal document = true := by
    rw [anyExternal_iff]
    constructor
    · rintro ⟨rest, hrest, hobjectionable⟩
      rcases objectionable_iff.mp hobjectionable with ⟨word, known, hword⟩ | hexternal
      · exact .inl ⟨word, known, hopening word known ▸ occurs_opening_iff.mpr ⟨rest, hrest, hword⟩⟩
      · exact .inr ⟨rest, hrest, hexternal⟩
    · rintro (⟨word, known, hoccurs⟩ | ⟨rest, hrest, hexternal⟩)
      · obtain ⟨rest, hrest, hword⟩ := occurs_opening_iff.mp (hopening word known ▸ hoccurs)
        exact ⟨rest, hrest, objectionable_iff.mpr (.inl ⟨word, known, hword⟩)⟩
      · exact ⟨rest, hrest, objectionable_iff.mpr (.inr hexternal)⟩
  have hdoctype : ("<!" ++ "DOCTYPE").toList = "<!DOCTYPE".toList := rfl
  have hlower : ("<!" ++ "doctype").toList = "<!doctype".toList := rfl
  have hentity : ("<!" ++ "ENTITY").toList = "<!ENTITY".toList := rfl
  have hentityLower : ("<!" ++ "entity").toList = "<!entity".toList := rfl
  rw [hsuspect, scan]
  simp only [List.exists_mem_cons_iff, hdoctype, hlower, hentity, hentityLower]
  -- from here on only the outcomes of the five searches count
  generalize occurs "<!DOCTYPE".toList document = doctype, occurs "<!doctype".toList document = doctypeLower,
    occurs "<!ENTITY".toList document = entity, occurs "<!entity".toList document = entityLower,
    anyExternal document = external
  cases doctype <;> cases doctypeLower <;> cases entity <;> cases entityLower <;> cases external <;> simp

/-! ### Where nothing is found -/

/-- No opening angle bracket is the last character or stands in front of an exclamation mark. -/
def quiet : List Char → Bool
  | [] => true
  | '<' :: [] => false
  | '<' :: c :: cs => c != '!' && quiet (c :: cs)
  | _ :: cs => quiet cs

theorem quiet_cons_of_ne {c : Char} (cs : List Char) (h : c ≠ '<') : quiet (c :: cs) = quiet cs := by
  rw [quiet]
  · intro hc
    exact absurd hc h
  · intro _ _ hc
    exact absurd hc h

theorem quiet_append {a b : List Char} (ha : quiet a = true) (hb : quiet b = true) : quiet (a ++ b) = true := by
  fun_induction quiet a with
  | case1 => exact hb
  | case2 => cases ha
  | case3 c cs ih =>
    simp only [Bool.and_eq_true] at ha
    simp only [List.cons_append, quiet, Bool.and_eq_true]
    exact ⟨ha.1, ih ha.2⟩
  | case4 c cs hend hopen ih =>
    have hc : c ≠ '<' := by
      rintro rfl
      cases cs with
      | nil => exact hend rfl rfl
      | cons d cs => exact hopen d cs rfl rfl
    rw [List.cons_append, quiet_cons_of_ne _ hc]
    exact ih ha

theorem quiet_of_not_mem {cs : List Char} (h : '<' ∉ cs) : quiet cs = true := by
  induction cs with
  | nil => rfl
  | cons c cs ih =>
    rw [List.mem_cons, not_or] at h
    rw [quiet_cons_of_ne _ (Ne.symm h.1)]
    exact ih h.2

theorem quiet_open {cs : List Char} (hne : cs ≠ []) (hmark : '!' ∉ cs.head?) (h : '<' ∉ cs) :
    quiet ('<' :: cs) = true := by
  cases cs with
  | nil => exact absurd rfl hne
  | cons c cs =>
    have hc : c ≠ '!' := by simpa using hmark
    simp only [quiet, Bool.and_eq_true, bne_iff_ne, ne_eq]
    exact ⟨hc, quiet_of_not_mem h⟩

theorem quiet_tail {c : Char} {cs : List Char} (h : quiet (c :: cs) = true) : quiet cs = true := by
  by_cases hc : c = '<'
  · subst hc
    cases cs with
    | nil => cases h
    | cons d cs =>
      simp only [quiet, Bool.and_eq_true] at h
      exact h.2
  · rwa [quiet_cons_of_ne _ hc] at h

theorem not_suspect_of_quiet (h : quiet text = true) : ¬Suspect text := by
  rintro ⟨rest, ⟨front, rfl⟩, -⟩
  induction front with
  | nil => simp [quiet] at h
  | cons c front ih => exact ih (quiet_tail h)

theorem scan_of_quiet {document : List Char} (h : quiet document = true) : scan document = .ok () :=
  scan_eq_ok_iff.mpr (not_suspect_of_quiet h)

end EntityScan

open EntityScan StartTag Name

namespace StartTag

theorem open_not_mem_escape (s : String) : '<' ∉ Entity.escape s := by
  intro h
  have := Entity.isMarkup_of_mem_escape h
  revert this
  decide

theorem open_not_mem_writePairs {pairs : List (String × String)} (h : ∀ p ∈ pairs, Legible p.1.toList) :
    '<' ∉ writePairs pairs := by
  intro hmem
  obtain ⟨p, hp, hc⟩ := List.mem_flatMap.mp hmem
  simp only [writePair, List.cons_append, List.mem_cons, List.mem_append, List.not_mem_nil, or_false] at hc
  rcases hc with hc | (hc | hc | hc | hc) | hc
  · revert hc; decide
  · exact (h p hp).noMark _ hc (by decide)
  · revert hc; decide
  · revert hc; decide
  · exact open_not_mem_escape _ hc
  · revert hc; decide

theorem open_not_mem_write {t : StartTag} (ht : t.Writable) {frame : List PrefixBinding} (hframe : Fits t frame) :
    '<' ∉ t.write frame := by
  rw [write_eq, List.mem_append]
  rintro (h | h)
  · exact (legible_writtenName ht).noMark _ h (by decide)
  · exact open_not_mem_writePairs (legible_keys ht hframe) h

theorem quiet_write {t : StartTag} (ht : t.Writable) {frame : List PrefixBinding} (hframe : Fits t frame) :
    quiet ('<' :: t.write frame) = true := by
  have hname := legible_writtenName ht
  have hopen := open_not_mem_write ht hframe
  rw [write_eq] at hopen ⊢
  cases hcs : t.writtenName with
  | nil => exact absurd hcs hname.nonempty
  | cons c cs =>
    rw [hcs] at hname hopen
    refine quiet_open (by simp) ?_ hopen
    rintro ⟨⟩
    exact hname.noMark '!' List.mem_cons_self (by decide)

theorem quiet_endTag {t : StartTag} (ht : t.Writable) : quiet ('<' :: '/' :: t.writtenName ++ ['>']) = true := by
  rw [List.cons_append]
  refine quiet_open (by simp) (by simp) ?_
  intro hmem
  simp only [List.cons_append, List.mem_cons, List.mem_append, List.not_mem_nil, or_false] at hmem
  rcases hmem with h | h | h
  · revert h; decide
  · exact (legible_writtenName ht).noMark _ h (by decide)
  · revert h; decide

end StartTag

namespace Node

mutual

theorem quiet_write (outer : Scopes) : {n : Node} → n.Writable → quiet (n.write outer) = true
  | .text s, _ => quiet_of_not_mem (open_not_mem_escape s)
  | .element tag children, ⟨ht, hchildren⟩ => by
    have htag := StartTag.quiet_write ht (declares_writtenFrame ht outer).fits
    have hcontent := quiet_writeAll (tag.writtenFrame outer :: outer) hchildren
    rw [write]
    split
    · exact quiet_append htag (by decide)
    · refine quiet_append htag ?_
      rw [List.cons_append, List.cons_append, quiet_cons_of_ne _ (by decide), List.append_assoc]
      exact quiet_append hcontent (quiet_endTag ht)

theorem quiet_writeAll (outer : Scopes) : {ns : List Node} → AllWritable ns → quiet (writeAll outer ns) = true
  | [], _ => rfl
  | _ :: _, ⟨hn, hns⟩ => by
    rw [writeAll]
    exact quiet_append (quiet_write outer hn) (quiet_writeAll outer hns)

end

end Node

theorem Element.quiet_toChars {e : Element} (h : e.Writable) : quiet e.toChars = true := Node.quiet_write [] h

end SoapNode
