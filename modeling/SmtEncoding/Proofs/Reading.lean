import Mathlib
import SmtEncoding.Proofs.Constants
import SmtEncoding.Proofs.Spelling
import SmtEncoding.Proofs.Value

/-!
# Reading SMT-LIB terms

An s-expression is read as a solver reads it.  The head of a list is an operator and the other
items are its operands.  An atom among them is a literal or, by its text, a declared constant.

A term has a sort (`State.sort?`) if every operator has operands of the sorts and of the number
that it takes, and every constant is declared exactly once.  Whole numbers and rationals are never
mixed, but for `to_real`, which takes the one to the other.

Under a valuation a term has a value (`State.value?`), in which a constant has the value of the
name and sort that it was declared for.  What has a value has the sort of the value
(`State.sort?_of_value?`), and declaring more changes neither (`State.Grows.value?`).
-/

namespace SmtEncoding

/-! ## Reading bottom up -/

namespace SExpr

variable {α β : Type}

mutual

/-- Reads the atoms of an s-expression by `atom` and its lists by `apply`. -/
def read? (atom : String → Option α) (apply : String → List α → Option α) : SExpr → Option α
  | .atom text => atom text
  | .list (.atom operator :: operands) => (readAll? atom apply operands).bind (apply operator)
  | .list _ => none

/-- Reads s-expressions. -/
def readAll? (atom : String → Option α) (apply : String → List α → Option α) :
    List SExpr → Option (List α)
  | [] => some []
  | x :: xs => (read? atom apply x).bind fun a => (readAll? atom apply xs).map (a :: ·)

end

variable {atom : String → Option α} {apply : String → List α → Option α}

/-- A list is read by its head and the readings of its other items. -/
theorem read?_apply (operator : String) (operands : List SExpr) :
    (SExpr.apply operator operands).read? atom apply =
      (readAll? atom apply operands).bind (apply operator) := by
  rw [SExpr.apply, read?]

theorem readAll?_of_forall₂ {xs : List SExpr} {as : List α}
    (h : List.Forall₂ (fun x a => x.read? atom apply = some a) xs as) :
    readAll? atom apply xs = some as := by
  induction h with
  | nil => rw [readAll?]
  | cons hx _ ih => rw [readAll?, hx, ih]; rfl

variable {φ : α → β} {atom' : String → Option β} {apply' : String → List β → Option β}

mutual

/-- A reading that follows another one at each atom and each list follows it. -/
theorem read?_map (hatom : ∀ text a, atom text = some a → atom' text = some (φ a))
    (happly : ∀ operator as a, apply operator as = some a →
      apply' operator (as.map φ) = some (φ a)) : ∀ (x : SExpr) (a : α),
    x.read? atom apply = some a → x.read? atom' apply' = some (φ a)
  | .atom text, a, h => by
    rw [read?] at h ⊢
    exact hatom text a h
  | .list (.atom operator :: operands), a, h => by
    rw [read?] at h ⊢
    obtain ⟨as, hs, ha⟩ := Option.bind_eq_some_iff.mp h
    rw [readAll?_map hatom happly operands as hs]
    exact happly operator as a ha
  | .list [], a, h => by
    rw [read?] at h
    · cases h
    · nofun
  | .list (.list _ :: _), a, h => by
    rw [read?] at h
    · cases h
    · nofun

theorem readAll?_map (hatom : ∀ text a, atom text = some a → atom' text = some (φ a))
    (happly : ∀ operator as a, apply operator as = some a →
      apply' operator (as.map φ) = some (φ a)) : ∀ (xs : List SExpr) (as : List α),
    readAll? atom apply xs = some as → readAll? atom' apply' xs = some (as.map φ)
  | [], as, h => by
    rw [readAll?] at h ⊢
    cases h
    rfl
  | x :: xs, as, h => by
    rw [readAll?] at h ⊢
    obtain ⟨b, hb, h⟩ := Option.bind_eq_some_iff.mp h
    obtain ⟨bs, hbs, rfl⟩ := Option.map_eq_some_iff.mp h
    rw [read?_map hatom happly x b hb, readAll?_map hatom happly xs bs hbs]
    rfl

end

end SExpr

namespace SmtLib

/-! ## Literals -/

/-- The number that digits write. -/
def digits? (cs : List Char) : Option Nat :=
  if cs ≠ [] ∧ cs.all Char.isDigit then some (Nat.ofDigitChars 10 cs 0) else none

/-- The number that the characters of a literal write: digits alone are a whole number, and digits
with a point between them a rational. -/
def number? (cs : List Char) : Option Value :=
  match cs.dropWhile Char.isDigit with
  | [] => (digits? cs).map fun n : Nat => ⟨.int, (n : Int)⟩
  | '.' :: fraction => do
    let n ← digits? (cs.takeWhile Char.isDigit)
    let m ← digits? fraction
    some ⟨.real, (n : Rat) + m / 10 ^ fraction.length⟩
  | _ => none

/-- The value of a literal. -/
def literal? (text : String) : Option Value :=
  if text = "true" then some ⟨.bool, true⟩
  else if text = "false" then some ⟨.bool, false⟩
  else number? text.toList

theorem digits?_toDigits (n : Nat) : digits? (Nat.toDigits 10 n) = some n := by
  have hdigits : (Nat.toDigits 10 n).all Char.isDigit = true :=
    List.all_eq_true.mpr (isDigit_of_mem_toDigits n)
  rw [digits?, if_pos ⟨Nat.toDigits_ne_nil, hdigits⟩, Nat.ofDigitChars_ten_toDigits]

theorem literal?_of_number? {text : String} {v : Value} (h : number? text.toList = some v) :
    literal? text = some v := by
  unfold literal?
  split
  · rename_i htext
    subst htext
    cases h
  · split
    · rename_i htext
      subst htext
      cases h
    · exact h

/-- A text that does not begin with a digit is a literal only if it is `true` or `false`. -/
theorem literal?_eq_none {text : String} (htrue : text ≠ "true") (hfalse : text ≠ "false")
    (h : ∀ c ∈ text.toList.head?, c.isDigit = false) : literal? text = none := by
  rw [literal?, if_neg htrue, if_neg hfalse, number?]
  cases hcs : text.toList with
  | nil => rfl
  | cons c cs =>
    have hc : c.isDigit = false := h c (by rw [hcs]; rfl)
    have hneg : ¬ c.isDigit = true := by
      rw [hc]
      exact Bool.false_ne_true
    rw [List.dropWhile_cons_of_neg hneg, List.takeWhile_cons_of_neg hneg]
    split
    · rename_i hnil
      cases hnil
    · rfl
    · rfl

/-- No escaped name is a literal. -/
theorem literal?_escape (name : String) : literal? (escape name) = none :=
  literal?_eq_none (escape_ne_of_mem_reserved name (by decide))
    (escape_ne_of_mem_reserved name (by decide)) fun _ hc =>
      Bool.eq_false_iff.mpr (mt isDigit_iff.mp (not_isDigit_of_mem_head?_escape hc))

theorem literal?_nat (n : Nat) : literal? (toString n) = some ⟨.int, (n : Int)⟩ := by
  refine literal?_of_number? ?_
  have hlist : (toString n).toList = Nat.toDigits 10 n := Nat.toList_repr
  have hdrop : (Nat.toDigits 10 n).dropWhile Char.isDigit = [] :=
    List.dropWhile_eq_nil_iff.mpr (isDigit_of_mem_toDigits n)
  rw [hlist, number?, hdrop]
  show (digits? _).map _ = _
  rw [digits?_toDigits]
  rfl

/-- A whole number with a zero behind the point is read as a real. -/
theorem literal?_wholeReal (n : Nat) :
    literal? (toString n ++ ".0") = some ⟨.real, (n : Rat)⟩ := by
  refine literal?_of_number? ?_
  have hlist : (toString n ++ ".0").toList = Nat.toDigits 10 n ++ ['.', '0'] := by
    rw [String.toList_append]
    exact congrArg (· ++ ['.', '0']) Nat.toList_repr
  have hdrop : (Nat.toDigits 10 n ++ ['.', '0']).dropWhile Char.isDigit = ['.', '0'] := by
    rw [List.dropWhile_append_of_pos (isDigit_of_mem_toDigits n)]
    rfl
  have htake : (Nat.toDigits 10 n ++ ['.', '0']).takeWhile Char.isDigit = Nat.toDigits 10 n := by
    rw [List.takeWhile_append_of_pos (isDigit_of_mem_toDigits n)]
    exact List.append_nil _
  rw [hlist, number?, hdrop]
  show (digits? _).bind _ = _
  rw [htake, digits?_toDigits]
  have hzero : (n : Rat) + ((0 : Nat) : Rat) / 10 ^ 1 = n := by
    simp
  exact congrArg (fun q : Rat => some (⟨.real, q⟩ : Value)) hzero

/-! ## Operators -/

/-- The operators of terms. -/
inductive Operator where
  | not
  | and
  | or
  | implies
  | compare (comparison : Comparison)
  | add
  | multiply
  | minus
  | divide
  | toReal
deriving DecidableEq, Repr

/-- The operator that a head stands for. -/
def Operator.ofSymbol? : String → Option Operator
  | "not" => some not
  | "and" => some and
  | "or" => some or
  | "=>" => some implies
  | "<" => some (compare .lessThan)
  | ">" => some (compare .greaterThan)
  | "<=" => some (compare .lessEqual)
  | ">=" => some (compare .greaterEqual)
  | "=" => some (compare .equals)
  | "+" => some add
  | "*" => some multiply
  | "-" => some minus
  | "/" => some divide
  | "to_real" => some toReal
  | _ => none

theorem Operator.ofSymbol?_comparison (c : Comparison) :
    ofSymbol? c.symbol = some (compare c) := by
  cases c <;> rfl

/-- The sort of operands that are at least two and have all the same sort. -/
def common? (sorts : List SolverSort) : Option SolverSort :=
  match sorts with
  | s :: t :: sorts => if ∀ u ∈ t :: sorts, u = s then some s else none
  | _ => none

/-- The sort of an operator on operands of given sorts.  Conjunctions, disjunctions, sums and
products take two operands or more.  The numbers under one operator have one sort. -/
def Operator.sort? (operator : Operator) (sorts : List SolverSort) : Option SolverSort :=
  match operator with
  | not => if sorts = [.bool] then some .bool else none
  | and => if common? sorts = some .bool then some .bool else none
  | or => if common? sorts = some .bool then some .bool else none
  | implies => if sorts = [.bool, .bool] then some .bool else none
  | compare c =>
    if sorts = [.int, .int] ∨ sorts = [.real, .real] ∨ c = .equals ∧ sorts = [.bool, .bool] then
      some .bool
    else none
  | add => (common? sorts).filter (· ≠ .bool)
  | multiply => (common? sorts).filter (· ≠ .bool)
  | minus => if sorts = [.int] then some .int else if sorts = [.real] then some .real else none
  | divide => if sorts = [.real, .real] then some .real else none
  | toReal => if sorts = [.int] then some .real else none

/-- Two or more values of the given sort. -/
def many? (sort : SolverSort) (vs : List Value) : Option (List (Carrier sort)) :=
  if 2 ≤ vs.length then vs.mapM (·.as? sort) else none

/-- The value of an operator on operands of the number and the sorts that it takes.  A quotient
has no value here if the divisor is zero. -/
def Operator.value? (operator : Operator) (vs : List Value) : Option Value :=
  match operator, vs with
  | not, [⟨.bool, a⟩] => some ⟨.bool, !a⟩
  | and, vs => (many? .bool vs).map fun as => ⟨.bool, List.all as id⟩
  | or, vs => (many? .bool vs).map fun as => ⟨.bool, List.any as id⟩
  | implies, [⟨.bool, a⟩, ⟨.bool, b⟩] => some ⟨.bool, !a || b⟩
  | compare c, [⟨.int, m⟩, ⟨.int, n⟩] => some ⟨.bool, c.holds (α := Int) m n⟩
  | compare c, [⟨.real, p⟩, ⟨.real, q⟩] => some ⟨.bool, c.holds (α := Rat) p q⟩
  | compare .equals, [⟨.bool, a⟩, ⟨.bool, b⟩] => some ⟨.bool, a == b⟩
  | add, vs =>
    ((many? .int vs).map fun ns => ⟨.int, List.sum (α := Int) ns⟩).or
      ((many? .real vs).map fun qs => ⟨.real, List.sum (α := Rat) qs⟩)
  | multiply, vs =>
    ((many? .int vs).map fun ns => ⟨.int, List.prod (α := Int) ns⟩).or
      ((many? .real vs).map fun qs => ⟨.real, List.prod (α := Rat) qs⟩)
  | minus, [⟨.int, n⟩] => some ⟨.int, -(n : Int)⟩
  | minus, [⟨.real, q⟩] => some ⟨.real, -(q : Rat)⟩
  | divide, [⟨.real, p⟩, ⟨.real, q⟩] => if (q : Rat) = 0 then none else some ⟨.real, (p : Rat) / q⟩
  | toReal, [⟨.int, n⟩] => some ⟨.real, ((n : Int) : Rat)⟩
  | _, _ => none

theorem sort_of_mapM_as? {sort : SolverSort} {vs : List Value} {as : List (Carrier sort)}
    (h : vs.mapM (·.as? sort) = some as) : ∀ v ∈ vs, v.sort = sort := by
  induction vs generalizing as with
  | nil => exact nofun
  | cons v vs ih =>
    rw [List.mapM_cons] at h
    obtain ⟨a, ha, h⟩ := Option.bind_eq_some_iff.mp h
    obtain ⟨bs, hbs, _⟩ := Option.bind_eq_some_iff.mp h
    rw [Object.as?_eq_some_iff] at ha
    subst ha
    exact List.forall_mem_cons.mpr ⟨rfl, ih hbs⟩

/-- Operands that are read under a sort have it in common. -/
theorem common?_of_many? {sort : SolverSort} {vs : List Value} {as : List (Carrier sort)}
    (h : many? sort vs = some as) : common? (vs.map Object.sort) = some sort := by
  unfold many? at h
  split at h
  · rename_i hlength
    have hsorts := sort_of_mapM_as? h
    match vs with
    | v :: w :: vs =>
      obtain ⟨hv, hws⟩ := List.forall_mem_cons.mp hsorts
      refine (if_pos fun u hu => ?_).trans (congrArg some hv)
      have hmem : u ∈ (w :: vs).map Object.sort := hu
      obtain ⟨x, hx, rfl⟩ := List.mem_map.mp hmem
      rw [hws x hx, hv]
  · cases h

/-- What has a value has the sort of the value. -/
theorem Operator.sort?_of_value? {operator : Operator} {vs : List Value} {v : Value}
    (h : operator.value? vs = some v) : operator.sort? (vs.map Object.sort) = some v.sort := by
  unfold Operator.value? at h
  split at h
  -- conjunctions and disjunctions
  case h_2 | h_3 =>
    obtain ⟨as, has, rfl⟩ := Option.map_eq_some_iff.mp h
    exact if_pos (common?_of_many? has)
  -- sums and products
  case h_8 | h_9 =>
    rcases Option.or_eq_some_iff.mp h with h | ⟨_, h⟩
    · obtain ⟨ns, hns, rfl⟩ := Option.map_eq_some_iff.mp h
      rw [Operator.sort?, common?_of_many? hns]
      rfl
    · obtain ⟨qs, hqs, rfl⟩ := Option.map_eq_some_iff.mp h
      rw [Operator.sort?, common?_of_many? hqs]
      rfl
  -- quotients
  case h_12 =>
    split at h
    · cases h
    · cases h
      rfl
  case h_14 => cases h
  all_goals
    cases h
    rfl

/-! ## Terms -/

namespace State

/-- The constant that a text stands for: it is declared under that symbol, and no other symbol is
the same to a solver. -/
def declared? (s : State) (text : String) : Option Declaration :=
  if s.bodies.count (body text) = 1 then s.declarations.find? (·.symbol == text) else none

/-- The sort of an operand that is an atom. -/
def atomSort? (s : State) (text : String) : Option SolverSort :=
  ((literal? text).map Object.sort).or ((s.declared? text).map Declaration.sort)

/-- The value of an operand that is an atom. -/
def atomValue? (s : State) (val : Valuation) (text : String) : Option Value :=
  (literal? text).or ((s.declared? text).map fun d => ⟨d.sort, val d.sort d.name⟩)

/-- The sort of a term. -/
def sort? (s : State) (x : SExpr) : Option SolverSort :=
  x.read? s.atomSort? fun operator sorts => (Operator.ofSymbol? operator).bind (·.sort? sorts)

/-- The value of a term under a valuation. -/
def value? (s : State) (val : Valuation) (x : SExpr) : Option Value :=
  x.read? (s.atomValue? val) fun operator vs => (Operator.ofSymbol? operator).bind (·.value? vs)

section Tests

/-- A state in which a truth value and a whole number are declared under one name. -/
def declaringState : State := (constant "x" .bool (constant "x" .int .empty).state).state

example : declaringState.sort? (.apply "and" [.atom "x@Bool", .atom "true"]) = some .bool := by
  decide +kernel
/-- Sorts are not mixed, and operands are not left out. -/
example : declaringState.sort? (.apply "+" [.atom "x", .atom "2.50"]) = none := by decide +kernel
example : declaringState.sort? (.apply "and" [.atom "true"]) = none := by decide +kernel
example : declaringState.sort? (.apply "+" [.apply "to_real" [.atom "x"], .atom "2.50"]) =
    some .real := by decide +kernel

end Tests

variable {s t : State} {val : Valuation}

/-- A text is read as a declared constant exactly if it is the symbol of one. -/
theorem declared?_eq_some_iff (h : s.Wf) {text : String} {d : Declaration} :
    s.declared? text = some d ↔ d ∈ s.declarations ∧ d.symbol = text := by
  unfold declared?
  constructor
  · intro hd
    split at hd
    · have hsymbol := List.find?_some (p := fun d : Declaration => d.symbol == text) hd
      exact ⟨List.mem_of_find?_eq_some hd, beq_iff_eq.mp hsymbol⟩
    · cases hd
  · rintro ⟨hd, rfl⟩
    have hcount : s.bodies.count (body d.symbol) = 1 :=
      List.count_eq_one_of_mem h.bodies (List.mem_map_of_mem hd)
    rw [if_pos hcount]
    cases hfound : s.declarations.find? (·.symbol == d.symbol) with
    | none => exact absurd (beq_self_eq_true d.symbol) (List.find?_eq_none.mp hfound d hd)
    | some e =>
      have hsymbol := List.find?_some (p := fun e : Declaration => e.symbol == d.symbol) hfound
      rw [h.eq_of_body_eq (List.mem_of_find?_eq_some hfound) hd
        (congrArg body (beq_iff_eq.mp hsymbol))]

/-- A symbol stands for the same constant after more declarations. -/
theorem Grows.declared? (hg : s.Grows t) (hs : s.Wf) (ht : t.Wf) {text : String} {d : Declaration}
    (h : s.declared? text = some d) : t.declared? text = some d := by
  rw [declared?_eq_some_iff hs] at h
  rw [declared?_eq_some_iff ht]
  exact ⟨hg.declarations.subset h.1, h.2⟩

/-- What has a value has the sort of the value. -/
theorem sort?_of_value? {x : SExpr} {v : Value} (h : s.value? val x = some v) :
    s.sort? x = some v.sort := by
  refine SExpr.read?_map (fun text a ha => ?_) (fun operator as a ha => ?_) x v h
  · unfold atomSort?
    rcases Option.or_eq_some_iff.mp ha with ha | ⟨hnone, ha⟩
    · rw [ha]
      rfl
    · obtain ⟨d, hd, rfl⟩ := Option.map_eq_some_iff.mp ha
      rw [hnone, hd]
      rfl
  · obtain ⟨op, hop, ha⟩ := Option.bind_eq_some_iff.mp ha
    rw [hop]
    exact Operator.sort?_of_value? ha

/-- Declaring more does not change a value. -/
theorem Grows.value? (hg : s.Grows t) (hs : s.Wf) (ht : t.Wf) {x : SExpr} {v : Value}
    (h : s.value? val x = some v) : t.value? val x = some v := by
  refine SExpr.read?_map (φ := id) (fun text a ha => ?_) (fun operator as a ha => ?_) x v h
  · refine Option.or_eq_some_iff.mpr ?_
    rcases Option.or_eq_some_iff.mp ha with ha | ⟨hnone, ha⟩
    · exact Or.inl ha
    · obtain ⟨d, hd, rfl⟩ := Option.map_eq_some_iff.mp ha
      refine Or.inr ⟨hnone, ?_⟩
      rw [hg.declared? hs ht hd]
      rfl
  · rw [List.map_id]
    exact ha

/-! ### Values of single terms -/

theorem value?_literal {text : String} {v : Value} (h : literal? text = some v) :
    s.value? val (.atom text) = some v := by
  rw [State.value?, SExpr.read?, atomValue?, h, Option.some_or]

/-- The symbol of a constant has the value of the name and the sort that it was declared for. -/
theorem value?_declared (h : s.Wf) {d : Declaration} (hd : d ∈ s.declarations) :
    s.value? val (.atom d.symbol) = some ⟨d.sort, val d.sort d.name⟩ := by
  obtain ⟨name, hname⟩ := h.escaped d hd
  have hliteral : literal? d.symbol = none := by rw [hname, literal?_escape]
  rw [State.value?, SExpr.read?, atomValue?, hliteral, Option.none_or,
    (declared?_eq_some_iff h).mpr ⟨hd, rfl⟩, Option.map_some]

/-- An operator has its value on the values of its operands. -/
theorem value?_apply {operator : String} (op : Operator)
    (hop : Operator.ofSymbol? operator = some op) {xs : List SExpr} {vs : List Value}
    (h : List.Forall₂ (fun x v => s.value? val x = some v) xs vs) :
    s.value? val (.apply operator xs) = op.value? vs := by
  rw [State.value?, SExpr.read?_apply, SExpr.readAll?_of_forall₂ h, Option.bind_some, hop,
    Option.bind_some]

theorem value?_signed {x : SExpr} {v w : Value} (hx : s.value? val x = some v)
    (hw : Operator.minus.value? [v] = some w) (negative : Bool) :
    s.value? val (signed negative x) = some (if negative then w else v) := by
  cases negative with
  | false => exact hx
  | true => exact (value?_apply .minus rfl (.cons hx .nil)).trans hw

/-- The term for a whole number has that value. -/
theorem value?_intLiteral (n : Int) : s.value? val (intLiteral n) = some ⟨.int, n⟩ := by
  have hnat : s.value? val (.atom (toString n.natAbs)) = some ⟨.int, (n.natAbs : Int)⟩ :=
    value?_literal (literal?_nat _)
  rw [intLiteral, value?_signed hnat rfl]
  by_cases hn : n < 0
  · have habs : -(n.natAbs : Int) = n := by omega
    rw [decide_eq_true hn, if_pos rfl, habs]
  · have habs : (n.natAbs : Int) = n := by omega
    rw [decide_eq_false hn, if_neg Bool.false_ne_true, habs]

theorem value?_wholeReal (n : Nat) : s.value? val (wholeReal n) = some ⟨.real, (n : Rat)⟩ :=
  value?_literal (literal?_wholeReal n)

/-- The term for a rational number has exactly that value. -/
theorem value?_realLiteral (q : Rat) : s.value? val (realLiteral q) = some ⟨.real, q⟩ := by
  have hmagnitude : s.value? val (if q.den = 1 then wholeReal q.num.natAbs
      else .apply "/" [wholeReal q.num.natAbs, wholeReal q.den]) =
        some ⟨.real, (q.num.natAbs : Rat) / q.den⟩ := by
    by_cases hden : q.den = 1
    · rw [if_pos hden, value?_wholeReal, hden, Nat.cast_one, div_one]
    · have hne : (q.den : Rat) ≠ 0 := Nat.cast_ne_zero.mpr q.den_nz
      rw [if_neg hden]
      refine (value?_apply .divide rfl
        (.cons (value?_wholeReal q.num.natAbs) (.cons (value?_wholeReal q.den) .nil))).trans ?_
      exact if_neg hne
  rw [realLiteral, value?_signed hmagnitude rfl]
  by_cases hq : q.num < 0
  · have habs : (q.num.natAbs : Rat) = -q.num := by
      have h : (q.num.natAbs : Int) = -q.num := by omega
      rw [← Int.cast_natCast, h, Int.cast_neg]
    rw [decide_eq_true hq, if_pos rfl, habs, neg_div, neg_neg, Rat.num_div_den]
  · have habs : (q.num.natAbs : Rat) = q.num := by
      have h : (q.num.natAbs : Int) = q.num := by omega
      rw [← Int.cast_natCast, h]
    rw [decide_eq_false hq, if_neg Bool.false_ne_true, habs, Rat.num_div_den]

end State

end SmtLib

end SmtEncoding
