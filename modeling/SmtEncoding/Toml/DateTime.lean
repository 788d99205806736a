import SmtEncoding.Toml.Number

/-!
# TOML dates and times

A date is `year-month-day`, a time is `hour:minute:second` with an optional fraction.  A date may
be followed by `T`, `t` or a space and a time, and that by `Z`, `z` or an offset `±hour:minute`.
Each field has its fixed number of digits and its range.  The length of a month is not looked at.
-/

namespace SmtEncoding.Toml

/-- A number of exactly `count` digits from `least` to `most`. -/
def field? (count least most : Nat) (s : List Char) : Option (List Char) :=
  let ds := s.take count
  if ds.length = count ∧ ds.all Char.isDigit ∧ least ≤ ofDigits 10 ds ∧ ofDigits 10 ds ≤ most then
    some (s.drop count)
  else none

/-- The text behind a character. -/
def mark? (c : Char) : List Char → Option (List Char)
  | d :: r => if c = d then some r else none
  | [] => none

/-- The text behind a date. -/
def date? (s : List Char) : Option (List Char) := do
  let s ← field? 4 0 9999 s
  let s ← mark? '-' s
  let s ← field? 2 1 12 s
  let s ← mark? '-' s
  field? 2 1 31 s

/-- The text behind a fraction of a second, if there is one. -/
def skipFraction : List Char → List Char
  | '.' :: c :: r => if c.isDigit then r.dropWhile Char.isDigit else '.' :: c :: r
  | s => s

/-- The text behind a time. -/
def time? (s : List Char) : Option (List Char) := do
  let s ← field? 2 0 23 s
  let s ← mark? ':' s
  let s ← field? 2 0 59 s
  let s ← mark? ':' s
  let s ← field? 2 0 60 s
  some (skipFraction s)

/-- The text behind an offset, if there is one. -/
def skipOffset : List Char → List Char
  | c :: r =>
    if c == 'Z' || c == 'z' then r
    else if c == '+' || c == '-' then
      (do field? 2 0 59 (← mark? ':' (← field? 2 0 23 r))).getD (c :: r)
    else c :: r
  | [] => []

/-- The text behind the time of a date, if there is one. -/
def skipTimeOfDay : List Char → List Char
  | c :: r =>
    if c == 'T' || c == 't' || c == ' ' then ((time? r).map skipOffset).getD (c :: r) else c :: r
  | [] => []

/-- A date, a time, or both. -/
def dateTime? : Reader Value := fun s =>
  match date? s with
  | some r => some (.dateTime, skipTimeOfDay r)
  | none => (time? s).map (.dateTime, ·)

end SmtEncoding.Toml
