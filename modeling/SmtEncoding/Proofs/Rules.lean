import SmtEncoding.Solver.Action
import SmtEncoding.Solver.Capabilities

/-!
# Rules

Whether something has an encoding, and which error stands against it, is a question about the
formula and not about the objects of a backend.  `Rules.judge` answers it by a walk from left to
right that ends at the first error.  It looks at the declared types, at whether there are rationals,
at whether variables are created, and at the sorts of the variables that are known, to which it adds
those that it meets.
-/

namespace SmtEncoding

/-! ## The walk -/

/-- Variables, each with the sort of its object, oldest first. -/
abbrev KnownSorts : Type := List (Variable × SolverSort)

/-- What may be encoded. -/
structure Rules where
  /-- Whether there are rationals. -/
  rationals : Bool
  /-- Whether variables that are not known are created. -/
  creation : Bool
deriving DecidableEq, Repr

/-- Fails with an error unless a condition holds. -/
def need (condition : Bool) (err : EncodeError) : Action KnownSorts Unit :=
  Action.ofExcept (if condition then .ok () else .error err)

namespace Rules

variable (rules : Rules)

/-- Fails unless there are rationals. -/
def needRationals : Action KnownSorts Unit :=
  need rules.rationals (.backendUnsupportedType .double)

/-- A variable under a sort. -/
def meet (creation : Bool) (sort : SolverSort) (v : Variable) : Action KnownSorts Unit := do
  match (← get).lookup v with
  | some found => need (found = sort) (.sortMismatch v.name sort found)
  | none =>
    if creation then modify fun known => known ++ [(v, sort)]
    else throw (.variableNotPreregistered v.name)

/-- A constant in a term. -/
def judgeConstant : Constant → Action KnownSorts Unit
  | .integer _ => pure ()
  | .double x => do
    rules.needRationals
    need x.isFinite (.nonFiniteConstant x)

/-- A variable read as a number. -/
def judgeVariable (creation : Bool) (v : Variable) : Action KnownSorts Unit :=
  match v.type with
  | .bool => throw (.unsupportedType .bool)
  | .integer => meet creation .int v
  | .double => do
    rules.needRationals
    meet creation .real v

/-- A declaration of a variable. -/
def judgeDeclaration (v : Variable) : Action KnownSorts Unit :=
  match v.type with
  | .bool => meet true .bool v
  | _ => rules.judgeVariable true v

/-- A function at a result type, applied to arguments of the given types. -/
def judgeFunction (f : FunctionKind) (args : List ValueType) : ValueType → Action KnownSorts Unit
  | .bool => throw (.unsupportedType .bool)
  | .integer => do
    need (.double ∉ args) (.incompatibleOperand .int .real)
    need (f ≠ .divide) (.unsupportedFunction f .integer)
  | .double => do
    rules.needRationals
    need (f ≠ .divide) (.unsupportedFunction f .double)

mutual

/-- A term. -/
def judgeTerm : Term → Action KnownSorts Unit
  | .constant c => rules.judgeConstant c
  | .var v => rules.judgeVariable rules.creation v
  | .app f args type => do
    judgeTerms args
    rules.judgeFunction f (args.map Term.type) type

/-- Terms, from left to right. -/
def judgeTerms : List Term → Action KnownSorts Unit
  | [] => pure ()
  | t :: ts => do
    judgeTerm t
    judgeTerms ts

end

/-- A comparison of two terms.  Without rationals no subterm may be a double. -/
def judgeComparison (l r : Term) : Action KnownSorts Unit := do
  need (rules.rationals || (l.subterms ++ r.subterms).all (·.type ≠ .double))
    (.backendUnsupportedType .double)
  rules.judgeTerm l
  rules.judgeTerm r

mutual

/-- A formula. -/
def judge : Expr → Action KnownSorts Unit
  | .constant _ => pure ()
  | .not x => judge x
  | .and xs => judgeAll xs
  | .or xs => judgeAll xs
  | .implies l r => do
    judge l
    judge r
  | .iff l r => do
    judge l
    judge r
  | .literal v _ => meet rules.creation .bool v
  | .compare _ l r => rules.judgeComparison l r
  | .atLeast _ _ => throw (.unsupportedNode .atLeast)
  | .atMost _ _ => throw (.unsupportedNode .atMost)
  | .between _ _ _ => throw (.unsupportedNode .between)
  | .choose _ _ => throw (.unsupportedNode .choose)
  | .exist _ _ => throw (.unsupportedNode .exist)
  | .forAll _ _ => throw (.unsupportedNode .forAll)

/-- Formulas, from left to right. -/
def judgeAll : List Expr → Action KnownSorts Unit
  | [] => pure ()
  | x :: xs => do
    judge x
    judgeAll xs

end

end Rules

/-! ### Runs -/

theorem run_need_bind (condition : Bool) (err : EncodeError) (walk : Action KnownSorts Unit)
    (known : KnownSorts) :
    (do need condition err; walk).run known =
      if condition then walk.run known else ⟨.error err, known, []⟩ := by
  cases condition <;> rfl

namespace Rules

variable {creation : Bool} {known : KnownSorts} {v : Variable} {sort : SolverSort}

/-- A known variable is met under its sort only. -/
theorem run_meet_known {found : SolverSort} (h : known.lookup v = some found) :
    (meet creation sort v).run known =
      ⟨if found = sort then .ok () else .error (.sortMismatch v.name sort found), known, []⟩ := by
  rw [meet, Action.run_get_bind, h]
  by_cases hfound : found = sort
  · simp only [need, hfound, decide_true, if_true, Action.run_ofExcept]
  · simp only [need, hfound, decide_false, if_false, Action.run_ofExcept, Bool.false_eq_true]

/-- A variable that is not known is met where variables may be created. -/
theorem run_meet_unknown (h : known.lookup v = none) :
    (meet creation sort v).run known =
      if creation then ⟨.ok (), known ++ [(v, sort)], []⟩
      else ⟨.error (.variableNotPreregistered v.name), known, []⟩ := by
  rw [meet, Action.run_get_bind, h]
  dsimp only
  split <;> rfl

end Rules

end SmtEncoding
