import SoapNode.Time.Instant

/-!
# RFC 3339 timestamps

`parse` reads a date, one of the separators, a time with an optional fraction, and an offset that must
be given. The minus sign of an offset may be the mathematical one. Digits of a fraction beyond the
ninth count for nothing. `format` writes whole seconds in UTC; years beyond four digits get a sign.
-/

namespace SoapNode.Rfc3339

def digit? (c : Char) : Option Nat := if '0' ≤ c ∧ c ≤ '9' then some (c.toNat - 48) else none

def digits : (count : Nat) → (value : Nat) → List Char → Option (Nat × List Char)
  | 0, value, cs => some (value, cs)
  | _ + 1, _, [] => none
  | n + 1, value, c :: cs => (digit? c).bind (fun d => digits n (value * 10 + d) cs)

def mark (allowed : List Char) : List Char → Option (List Char)
  | [] => none
  | c :: cs => if allowed.contains c then some cs else none

/-- The value of at most nine digits as nanoseconds. -/
def nanos (ds : List Nat) : Nat := (ds.take 9 ++ List.replicate (9 - ds.length) 0).foldl (fun n d => n * 10 + d) 0

def fraction : List Char → Option (Nat × List Char)
  | '.' :: cs =>
    let ds := (cs.takeWhile (digit? · |>.isSome)).filterMap digit?
    if ds.isEmpty then none else some (nanos ds, cs.drop ds.length)
  | cs => some (0, cs)

def offset : List Char → Option (Int × List Char)
  | [] => none
  | c :: cs =>
    if c = 'Z' ∨ c = 'z' then some (0, cs)
    else do
      let negative ← if c = '+' then some false else if c = '-' ∨ c = '\u2212' then some true else none
      let (hours, cs) ← digits 2 0 cs
      let cs ← mark [':'] cs
      let (minutes, cs) ← digits 2 0 cs
      if 23 < hours ∨ 59 < minutes then none
      else
        let size : Int := hours * 3600 + minutes * 60
        some (if negative then -size else size, cs)

def parseChars (cs : List Char) : Option Instant := do
  let (year, cs) ← digits 4 0 cs
  let cs ← mark ['-'] cs
  let (month, cs) ← digits 2 0 cs
  let cs ← mark ['-'] cs
  let (day, cs) ← digits 2 0 cs
  let cs ← mark ['T', 't', ' '] cs
  let (hour, cs) ← digits 2 0 cs
  let cs ← mark [':'] cs
  let (minute, cs) ← digits 2 0 cs
  let cs ← mark [':'] cs
  let (second, cs) ← digits 2 0 cs
  let (nanos, cs) ← fraction cs
  let (shift, cs) ← offset cs
  let d : Date := ⟨year, month, day⟩
  if !cs.isEmpty || !d.isValid || 23 < hour || 59 < minute || 60 < second then none
  else
    let local' := if second = 60 then Instant.ofCivil d hour minute 59 (nanos + Instant.nanosPerSecond)
      else Instant.ofCivil d hour minute second nanos
    some { local' with seconds := local'.seconds - shift }

def parse (s : String) : Option Instant := parseChars s.toList

def padded (width : Nat) (n : Nat) : String :=
  let ds := toString n
  String.ofList (List.replicate (width - ds.length) '0') ++ ds

def year (y : Int) : String :=
  if 0 ≤ y ∧ y ≤ 9999 then padded 4 y.toNat else (if y < 0 then "-" else "+") ++ padded 4 y.natAbs

def format (t : Instant) : String :=
  let d := t.date
  let s := (t.seconds % Instant.secondsPerDay).toNat
  let second := s % 60 + t.nanos / Instant.nanosPerSecond
  year d.year ++ "-" ++ padded 2 d.month ++ "-" ++ padded 2 d.day ++ "T" ++ padded 2 (s / 3600) ++ ":" ++
    padded 2 (s / 60 % 60) ++ ":" ++ padded 2 second ++ "Z"

end SoapNode.Rfc3339
