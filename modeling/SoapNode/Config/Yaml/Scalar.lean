import SoapNode.Config.Yaml.Cursor
import SoapNode.Text.Hex

/-!
# YAML scalars

Quoted texts, plain texts and block texts. In the first two white space between words is kept on a
line, and around line breaks it is cut: one break counts as a space and every further one as itself. A
block text is literal or folded; its header says how it ends and how deep it stands, which is otherwise
taken from its first line that is not empty.
-/

namespace SoapNode.Yaml

/-- White space between the words of a text, the last character first: blanks on a line, or line
breaks with what is around them. An escaped first break counts for nothing. -/
inductive Gap where
  | blanks (read : Text)
  | breaks (first : Option Char) (more : Text)
  deriving DecidableEq, Repr

namespace Gap

def empty : Gap := .blanks []

def isBroken : Gap → Bool
  | .blanks _ => false
  | .breaks _ _ => true

def blank (c : Char) : Gap → Gap
  | .blanks read => .blanks (c :: read)
  | g => g

def newline (c : Char) : Gap → Gap
  | .blanks _ => .breaks (some c) []
  | .breaks first more => .breaks first (c :: more)

def folded : Gap → Text
  | .blanks read => read
  | .breaks (some '\n') [] => [' ']
  | .breaks (some '\n') more => more
  | .breaks (some c) more => more ++ [c]
  | .breaks none more => more

end Gap

/-- Reads a single-quoted text up to its quote; two quotes are one. A marker of a document may not
begin a line of it. -/
def singleQuoted (column : Nat) (gap : Gap) (read : Text) : Text → Option (Text × Text)
  | [] => none
  | '\x27' :: '\x27' :: cs => singleQuoted (column + 2) .empty ('\x27' :: gap.folded ++ read) cs
  | '\x27' :: cs => some ((gap.folded ++ read).reverse, cs)
  | c :: cs =>
    if isBlank c then singleQuoted (column + 1) (gap.blank c) read cs
    else if isBreak c then singleQuoted 0 (gap.newline c) read cs
    else if column == 0 && startsAnyMarker (c :: cs) then none
    else singleQuoted (column + 1) .empty (c :: gap.folded ++ read) cs

def simpleEscape? (c : Char) : Option Char :=
  [('0', '\x00'), ('a', '\x07'), ('b', '\x08'), ('t', '\t'), ('n', '\n'), ('v', '\x0b'), ('f', '\x0c'), ('r', '\r'),
    ('e', '\x1b'), (' ', ' '), ('"', '"'), ('/', '/'), ('\\', '\\'), ('N', '\u0085'), ('_', '\u00a0'),
    ('L', '\u2028'), ('P', '\u2029'), ('\t', '\t')].lookup c

def escapeWidth? (c : Char) : Option Nat := [('x', 2), ('u', 4), ('U', 8)].lookup c

def numbered? (width : Nat) (cs : Text) : Option Char :=
  if cs.length < width then none
  else (Hex.number? (cs.take width)).bind (fun n => if n.isValidChar then some (Char.ofNat n) else none)

/-- Reads a double-quoted text up to its quote. `passing` characters belong to an escape that is
already read. -/
def doubleQuoted (passing : Nat) (column : Nat) (gap : Gap) (read : Text) : Text → Option (Text × Text)
  | [] => none
  | c :: cs =>
    match passing with
    | more + 1 => doubleQuoted more (column + 1) gap read cs
    | 0 =>
      if c == '"' then some ((gap.folded ++ read).reverse, cs)
      else if isBlank c then doubleQuoted 0 (column + 1) (gap.blank c) read cs
      else if isBreak c then doubleQuoted 0 0 (gap.newline c) read cs
      else if column == 0 && startsAnyMarker (c :: cs) then none
      else if c != '\\' then doubleQuoted 0 (column + 1) .empty (c :: gap.folded ++ read) cs
      else match cs with
        | [] => none
        | e :: cs =>
          if isBreak e then doubleQuoted 0 0 (.breaks none []) (gap.folded ++ read) cs
          else match simpleEscape? e, escapeWidth? e with
            | some d, _ => doubleQuoted 0 (column + 2) .empty (d :: gap.folded ++ read) cs
            | none, some width =>
              match numbered? width cs with
              | some d => doubleQuoted width (column + 2) .empty (d :: gap.folded ++ read) cs
              | none => none
            | none, none => none

def isFlowMark (c : Char) : Bool := c == ',' || c == '[' || c == ']' || c == '\x7b' || c == '\x7d'

/-- Whether a plain text can begin here. Inside brackets a question mark or a colon cannot begin one. -/
def startsPlain (flow : Bool) : Text → Bool
  | [] => false
  | c :: cs =>
    if c == '-' then !startsBlank cs
    else if c == '?' || c == ':' then !flow && !endsWord cs
    else !(isFlowMark c || isBlank c || isBreak c ||
      ['#', '&', '*', '!', '|', '>', '\x27', '"', '%', '@', '\x60'].contains c)

structure PlainText where
  text : Text
  broken : Bool
  rest : Text
  deriving DecidableEq, Repr

/-- Reads a plain text. It ends at a colon that ends a word, at a comment, at a line that is not deep
enough, at a marker of a document and inside brackets at their marks, which a colon may not touch. -/
def plainText (flow : Bool) (indent : Nat) (column : Nat) (gap : Gap) (read : Text) : Text → Option PlainText
  | [] => some ⟨read.reverse, gap.isBroken, []⟩
  | c :: cs =>
    if isBlank c then
      if gap.isBroken && column < indent && c == '\t' then none
      else plainText flow indent (column + 1) (gap.blank c) read cs
    else if isBreak c then plainText flow indent 0 (gap.newline c) read cs
    else if gap != .empty && (c == '#' || (!flow && column < indent) || (column == 0 && startsAnyMarker (c :: cs))) then
      some ⟨read.reverse, gap.isBroken, c :: cs⟩
    else if flow && c == ':' && cs.head?.any (fun d => d == '?' || isFlowMark d) then none
    else if (c == ':' && endsWord cs) || (flow && isFlowMark c) then some ⟨read.reverse, gap.isBroken, c :: cs⟩
    else plainText flow indent (column + 1) .empty (c :: gap.folded ++ read) cs

/-- How a block text ends: without line breaks, with one, or with all that are there. -/
inductive Ending where
  | strip
  | clip
  | keep
  deriving DecidableEq, Repr

structure BlockHeader where
  ending : Ending
  /-- How much deeper than the block around it the text stands. -/
  step : Option Nat
  deriving DecidableEq, Repr

namespace BlockHeader

def ending? (c : Char) : Option Ending := [('-', Ending.strip), ('+', .keep)].lookup c

def step? (c : Char) : Option Nat := if '1' ≤ c ∧ c ≤ '9' then some (c.toNat - 48) else none

def readMarks (cs : Text) : BlockHeader × Text :=
  match cs with
  | a :: b :: rest =>
    match ending? a, step? a, ending? b, step? b with
    | some e, _, _, some n | _, some n, some e, _ => (⟨e, some n⟩, rest)
    | some e, _, _, none => (⟨e, none⟩, b :: rest)
    | none, some n, none, _ => (⟨.clip, some n⟩, b :: rest)
    | none, none, _, _ => (⟨.clip, none⟩, cs)
  | [a] =>
    match ending? a, step? a with
    | some e, _ => (⟨e, none⟩, [])
    | none, some n => (⟨.clip, some n⟩, [])
    | none, none => (⟨.clip, none⟩, cs)
  | [] => (⟨.clip, none⟩, [])

end BlockHeader

def endLine (cs : Text) : Option Text :=
  let cs := cs.dropWhile isBlank
  let cs := if cs.head? == some '#' then cs.dropWhile (!isBreak ·) else cs
  match cs with
  | [] => some []
  | c :: cs => if isBreak c then some cs else none

structure Margin where
  breaks : Text
  /-- The depth of the deepest line that was passed, and that of the last one. -/
  deepest : Nat
  column : Nat
  rest : Text
  deriving DecidableEq, Repr

/-- Passes empty lines and the spaces in front of the next text, up to an indentation if that is known.
A tab cannot stand among the spaces. -/
def margin (indent : Option Nat) (column deepest : Nat) (breaks : Text) : Text → Option Margin
  | [] => some ⟨breaks.reverse, max deepest column, column, []⟩
  | c :: cs =>
    if indent.all (column < ·) && c == ' ' then margin indent (column + 1) deepest breaks cs
    else if indent.all (column < ·) && c == '\t' then none
    else if isBreak c then margin indent 0 (max deepest column) (c :: breaks) cs
    else some ⟨breaks.reverse, max deepest column, column, c :: cs⟩

theorem margin_rest_le {indent : Option Nat} {column deepest : Nat} {breaks cs : Text} {m : Margin}
    (h : margin indent column deepest breaks cs = some m) : m.rest.length ≤ cs.length := by
  induction cs generalizing column deepest breaks with
  | nil => simp [margin] at h; simp [← h]
  | cons c cs ih =>
    simp only [margin] at h
    split at h
    · exact Nat.le_succ_of_le (ih h)
    · split at h
      · simp at h
      · split at h
        · exact Nat.le_succ_of_le (ih h)
        · simp at h; simp [← h]

/-- A line of a block text, its own line break and those of the empty lines behind it. -/
structure BlockLine where
  text : Text
  ending : Text
  breaks : Text
  deriving DecidableEq, Repr

def blockLines (indent : Nat) (m : Margin) : Option (List BlockLine × Text) :=
  if m.column ≠ indent then some ([], m.rest)
  else
    match m.rest.takeWhile (!isBreak ·), _h : m.rest.dropWhile (!isBreak ·) with
    | [], [] => some ([], [])
    | text, [] => some ([⟨text, [], []⟩], [])
    | text, c :: cs =>
      match _hm : margin (some indent) 0 0 [] cs with
      | none => none
      | some next => (blockLines indent next).map (fun (ls, rest) => (⟨text, [c], next.breaks⟩ :: ls, rest))
termination_by m.rest.length
decreasing_by
  have hle := margin_rest_le _hm
  have hsuffix := (List.dropWhile_suffix (l := m.rest) (!isBreak ·)).length_le
  rw [_h, List.length_cons] at hsuffix
  omega

/-- Joins the lines of a block text. Folding leaves lines alone that start with white space. -/
def joinLines (folded : Bool) : List BlockLine → Text
  | [] => []
  | [l] => l.text
  | l :: next :: ls =>
    let between :=
      if folded && l.ending == ['\n'] && !startsBlank l.text && !startsBlank next.text then
        (if l.breaks.isEmpty then [' '] else l.breaks)
      else l.ending ++ l.breaks
    l.text ++ between ++ joinLines folded (next :: ls)

/-- Reads a block text behind its first mark, inside a block that stands at `outer`. -/
def blockText (folded : Bool) (outer : Option Nat) (cs : Text) : Option (Text × Text) := do
  let (h, cs) := BlockHeader.readMarks cs
  let cs ← endLine cs
  let front ← margin (h.step.map (outer.getD 0 + ·)) 0 0 [] cs
  let least := (outer.map (· + 1)).getD 1
  let indent := (h.step.map (outer.getD 0 + ·)).getD (max front.deepest least)
  let (lines, rest) ← blockLines indent front
  let last := match lines.getLast? with
    | some l => l
    | none => ⟨[], [], front.breaks⟩
  let tail := match h.ending with
    | .strip => []
    | .clip => last.ending
    | .keep => last.ending ++ last.breaks
  return ((if lines.isEmpty then [] else front.breaks ++ joinLines folded lines) ++ tail, rest)

end SoapNode.Yaml
