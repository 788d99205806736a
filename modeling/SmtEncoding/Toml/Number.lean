import SmtEncoding.Double.Nearest
import SmtEncoding.Toml.Text
import SmtEncoding.Toml.Value

/-!
# TOML numbers

A whole number is decimal with an optional sign and no zeros in front, or hexadecimal, octal or
binary without a sign, and has to fit in 64 bits with a sign.  A float has a fraction, an exponent
or both behind a decimal whole number, and is the nearest double.  One too large for a double is
refused if it is positive and an infinity if it is negative.  Between two digits an underscore may
stand.
-/

namespace SmtEncoding.Toml

/-! ## Digits -/

/-- Digits of a kind, each with an underscore in front of it or not. -/
def moreDigits (isDigit : Char → Bool) : List Char → List Char × List Char
  | '_' :: c :: r =>
    if isDigit c then
      let (ds, rest) := moreDigits isDigit r
      (c :: ds, rest)
    else ([], '_' :: c :: r)
  | c :: r =>
    if isDigit c then
      let (ds, rest) := moreDigits isDigit r
      (c :: ds, rest)
    else ([], c :: r)
  | [] => ([], [])

/-- One or more digits of a kind, the first without an underscore. -/
def digits? (isDigit : Char → Bool) : Reader (List Char)
  | c :: r =>
    if isDigit c then
      let (ds, rest) := moreDigits isDigit r
      some (c :: ds, rest)
    else none
  | [] => none

/-- The number that digits of a base write. -/
def ofDigits (base : Nat) (ds : List Char) : Nat :=
  ds.foldl (fun n c => base * n + (hexDigit? c).getD 0) 0

/-- An optional sign, and whether it is a minus. -/
def sign : List Char → Bool × List Char
  | '-' :: r => (true, r)
  | '+' :: r => (false, r)
  | r => (false, r)

/-- The digits of a decimal whole number, with no zero in front. -/
def wholeDigits? : Reader (List Char)
  | '0' :: r => some (['0'], r)
  | s => digits? Char.isDigit s

/-! ## Whole numbers -/

/-- A whole number, if it fits. -/
def fitting? (n : Int) : Option Value :=
  if -(Nat.pow 2 63 : Int) ≤ n ∧ n < (Nat.pow 2 63 : Int) then some (.integer n) else none

/-- A whole number in a base, read behind the mark of the base. -/
def basedInteger? (base : Nat) (isDigit : Char → Bool) : Reader Value := fun s => do
  let (ds, r) ← digits? isDigit s
  some (← fitting? (ofDigits base ds), r)

/-- A whole number. -/
def integer? : Reader Value
  | '0' :: 'x' :: r => basedInteger? 16 (fun c => (hexDigit? c).isSome) r
  | '0' :: 'o' :: r => basedInteger? 8 (fun c => '0' ≤ c && c ≤ '7') r
  | '0' :: 'b' :: r => basedInteger? 2 (fun c => c == '0' || c == '1') r
  | s => do
    let (negative, r) := sign s
    let (ds, r) ← wholeDigits? r
    let n : Int := ofDigits 10 ds
    some (← fitting? (if negative then -n else n), r)

/-! ## Floats -/

/-- A point and the digits behind it. -/
def fraction? : Reader (List Char)
  | '.' :: r => digits? Char.isDigit r
  | _ => none

/-- The mark of an exponent and the exponent. -/
def exponent? : Reader Int
  | c :: r =>
    if c == 'e' || c == 'E' then do
      let (negative, r) := sign r
      let (ds, r) ← digits? Char.isDigit r
      let n : Int := ofDigits 10 ds
      some (if negative then -n else n, r)
    else none
  | [] => none

/-- An infinity or not a number, read behind the sign. -/
def specialFloat? (negative : Bool) : Reader Value
  | 'i' :: 'n' :: 'f' :: r => some (.float (.infinity negative), r)
  | 'n' :: 'a' :: 'n' :: r => some (.float (.notANumber negative), r)
  | _ => none

/-- The float with the given digits before and behind the point and the given exponent. -/
def decimalFloat? (negative : Bool) (whole fraction : List Char) (exponent : Int) :
    Option Value :=
  let decimal : Decimal := ⟨ofDigits 10 (whole ++ fraction), exponent - fraction.length⟩
  let x := Double.nearestDecimal negative decimal
  if x = .infinity false then none else some (.float x)

/-- A float. -/
def float? : Reader Value := fun s =>
  let (negative, r) := sign s
  match wholeDigits? r with
  | none => specialFloat? negative r
  | some (whole, r) =>
    match fraction? r with
    | some (fraction, r) =>
      match exponent? r with
      | some (e, r) => (decimalFloat? negative whole fraction e).map (·, r)
      | none => (decimalFloat? negative whole fraction 0).map (·, r)
    | none => do
      let (e, r) ← exponent? r
      some (← decimalFloat? negative whole [] e, r)

end SmtEncoding.Toml
