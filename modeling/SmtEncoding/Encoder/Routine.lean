import SmtEncoding.Encoder.Formulas
import SmtEncoding.Formula.Uses

/-!
# Routines

An encoder does a few things, one after the other: it answers or fails, it checks what the backend
can express, it carries out operations that ask for no variable, and it looks up variables.  A
property of actions is a `Routine` if it holds of each of these, and of two actions one after the
other if it holds of both.  Then it holds of terms, by induction (`Routine.encodeTerm`).

The property may depend on the uses that an action meets, which are those of the term.  How
variables are looked up is left open.  Terms and formulas look them up as the options say
(`Encoder.lookUp`), and a declaration creates them in any case (`Routine.declare`).

Formulas are handled node by node, which is an induction of its own, for properties that depend on
the nodes that an action handles (`Nodewise.encode`).  A routine that allows a node to be reported
first is one of these, so it holds of formulas with their uses (`FormulaRoutine.encode`).
-/

namespace SmtEncoding

variable {B : Backend} {α β : Type}

namespace Encoder

/-! ## The check for rationals -/

/-- What follows the check for rationals runs if there are rationals. -/
theorem run_requireRationals_bind (k : Action (Encoder B) α) (e : Encoder B) :
    (do requireRationals; k).run e =
      if e.capabilities.rationals = true then k.run e
      else ⟨.error (.backendUnsupportedType .double), e, []⟩ := by
  have hrun : requireRationals.run e = ⟨e.capabilities.requireRationals, e, []⟩ := by
    rw [requireRationals, Action.run_get_bind, Action.run_ofExcept]
  cases hr : e.capabilities.requireRationals with
  | ok _ =>
    rw [if_pos (Capabilities.requireRationals_eq_ok_iff.mp hr),
      Action.run_bind_of_ok (by rw [hrun, hr]), hrun]
    rfl
  | error err =>
    have hne : e.capabilities.rationals ≠ true := fun h => by
      rw [Capabilities.requireRationals_eq_ok_iff.mpr h] at hr
      cases hr
    rw [if_neg hne, Action.run_bind_of_error (by rw [hrun, hr]), hrun,
      Capabilities.eq_of_requireRationals hr]

/-- A check of the capabilities is a choice between going on and one error. -/
theorem requireRationals_bind (k : Action (Encoder B) α) :
    (do requireRationals; k) = (do
      if (← get).capabilities.rationals then k
      else throw (.backendUnsupportedType .double)) := by
  refine Action.ext fun e => ?_
  rw [run_requireRationals_bind, Action.run_get_bind]
  split <;> rfl

/-! ## Looking up variables -/

/-- Looks up a variable, which may be created if the options say so. -/
def lookUp (sort : SolverSort) (v : Variable) : Action (Encoder B) (B.Obj sort) := do
  resolve (← get).options.createVariables sort v

/-- The number of a variable, by its declared type, with a way to look up variables. -/
def findNumeral (find : (sort : SolverSort) → Variable → Action (Encoder B) (B.Obj sort))
    (v : Variable) : Action (Encoder B) (Numeral B.Obj) :=
  match v.type with
  | .integer => .integer <$> find .int v
  | .double => do
    requireRationals
    .rational <$> find .real v
  | .bool => throw (.unsupportedType .bool)

/-- The options may be read after the check for rationals. -/
theorem encodeTerm_var (v : Variable) :
    encodeTerm (B := B) (.var v) = findNumeral lookUp v := by
  refine Action.ext fun e => ?_
  rw [encodeTerm, Action.run_get_bind, resolveNumeral, findNumeral]
  cases v.type with
  | bool => rfl
  | integer => rw [Action.run_map, Action.run_map, lookUp, Action.run_get_bind]
  | double =>
    rw [run_requireRationals_bind, run_requireRationals_bind, Action.run_map, Action.run_map,
      lookUp, Action.run_get_bind]

end Encoder

/-! ## Nodes -/

/-- Whether nodes of this kind are refused. -/
def Expr.isRefused : Expr → Bool
  | atLeast _ _ => true
  | atMost _ _ => true
  | between _ _ _ => true
  | choose _ _ => true
  | exist _ _ => true
  | forAll _ _ => true
  | _ => false

/-- Whether nodes of this kind are built of their operands, which are formulas. -/
def Expr.isConnective : Expr → Bool
  | not _ => true
  | and _ => true
  | or _ => true
  | implies _ _ => true
  | iff _ _ => true
  | _ => false

/-- A property of actions and the nodes that they handle, with what it takes to hold of formulas. -/
structure Nodewise (P : List Expr → (α : Type) → Action (Encoder B) α → Prop) : Prop where
  pure : ∀ {α : Type} (a : α), P [] α (pure a)
  bind : ∀ {xs ys : List Expr} {α β : Type} {f : Action (Encoder B) α}
    {k : α → Action (Encoder B) β},
    P xs α f → (∀ a, P ys β (k a)) → P (xs ++ ys) β (f >>= k)
  core : ∀ {s : SolverSort} (op : CoreOp B.Obj s), (Operation.core op).request? = none →
    P [] (B.Obj s) (Encoder.core op)
  constant : ∀ value : Bool, P [.constant value] (B.Obj .bool)
    (Encoder.visit (.constant value) (Encoder.core (.boolConstant value)))
  literal : ∀ (v : Variable) (positive : Bool), P [.literal v positive] (B.Obj .bool)
    (Encoder.visit .literal (Encoder.encodeLiteral v positive))
  compare : ∀ (c : Comparison) (l r : Term), P [.compare c l r] (B.Obj .bool)
    (Encoder.visit (.comparison c) (Encoder.encodeComparison c l r))
  /-- A connective comes before the nodes of its operands. -/
  connective : ∀ {x : Expr} {xs : List Expr} {α : Type} {f : Action (Encoder B) α},
    x.isConnective = true → P xs α f → P (x :: xs) α (Encoder.visit x.kind f)
  /-- A node that is refused, whatever nodes come after it. -/
  refuse : ∀ {x : Expr} {xs : List Expr}, x.isRefused = true →
    P (x :: xs) (B.Obj .bool) (Encoder.refuse x.kind)

namespace Nodewise

variable {P : List Expr → (α : Type) → Action (Encoder B) α → Prop}

/-- What handles no node may come last. -/
theorem bind_last (h : Nodewise P) {xs : List Expr} {f : Action (Encoder B) α}
    {k : α → Action (Encoder B) β} (hf : P xs α f) (hk : ∀ a, P [] β (k a)) :
    P xs β (f >>= k) := by
  rw [← List.append_nil xs]
  exact h.bind hf hk

mutual

/-- What is nodewise holds of formulas, with their nodes in preorder. -/
theorem encode (h : Nodewise P) : ∀ x : Expr, P x.nodes (B.Obj .bool) (Encoder.encode x)
  | .constant value => by
    simp only [Encoder.encode, Expr.nodes]
    exact h.constant value
  | .not x => by
    simp only [Encoder.encode, Expr.nodes]
    refine h.connective (x := .not x) rfl ?_
    exact h.bind_last (encode h x) fun a => h.core (.not a) rfl
  | .and xs => by
    simp only [Encoder.encode, Expr.nodes]
    refine h.connective (x := .and xs) rfl ?_
    exact h.bind_last (encodeAll h xs) fun as => h.core (.and as) rfl
  | .or xs => by
    simp only [Encoder.encode, Expr.nodes]
    refine h.connective (x := .or xs) rfl ?_
    exact h.bind_last (encodeAll h xs) fun as => h.core (.or as) rfl
  | .implies l r => by
    simp only [Encoder.encode, Expr.nodes]
    refine h.connective (x := .implies l r) rfl (h.bind (encode h l) fun a => ?_)
    exact h.bind_last (encode h r) fun b => h.core (.implies a b) rfl
  | .iff l r => by
    simp only [Encoder.encode, Expr.nodes]
    refine h.connective (x := .iff l r) rfl (h.bind (encode h l) fun a => ?_)
    exact h.bind_last (encode h r) fun b => h.core (.iff a b) rfl
  | .literal v positive => by
    simp only [Encoder.encode, Expr.nodes]
    exact h.literal v positive
  | .compare c l r => by
    simp only [Encoder.encode, Expr.nodes]
    exact h.compare c l r
  | .atLeast n xs => by
    simp only [Encoder.encode, Expr.nodes]
    exact h.refuse (x := .atLeast n xs) rfl
  | .atMost n xs => by
    simp only [Encoder.encode, Expr.nodes]
    exact h.refuse (x := .atMost n xs) rfl
  | .between m n xs => by
    simp only [Encoder.encode, Expr.nodes]
    exact h.refuse (x := .between m n xs) rfl
  | .choose n xs => by
    simp only [Encoder.encode, Expr.nodes]
    exact h.refuse (x := .choose n xs) rfl
  | .exist v x => by
    simp only [Encoder.encode, Expr.nodes]
    exact h.refuse (x := .exist v x) rfl
  | .forAll v x => by
    simp only [Encoder.encode, Expr.nodes]
    exact h.refuse (x := .forAll v x) rfl

/-- What is nodewise holds of formulas one after another. -/
theorem encodeAll (h : Nodewise P) :
    ∀ xs : List Expr, P (Expr.nodesAll xs) (List (B.Obj .bool)) (Encoder.encodeAll xs)
  | [] => by
    simp only [Encoder.encodeAll, Expr.nodesAll]
    exact h.pure []
  | x :: xs => by
    simp only [Encoder.encodeAll, Expr.nodesAll]
    refine h.bind (encode h x) fun a => ?_
    exact h.bind_last (encodeAll h xs) fun as => h.pure (a :: as)

end

end Nodewise

/-! ## Routines -/

/-- A property of actions and the uses that they meet, with what it takes to hold of whatever is
encoded if variables are looked up by `find`. -/
structure Routine (find : (sort : SolverSort) → Variable → Action (Encoder B) (B.Obj sort))
    (P : List (Variable × SolverSort) → (α : Type) → Action (Encoder B) α → Prop) : Prop where
  pure : ∀ {α : Type} (a : α), P [] α (pure a)
  /-- An error that the encoder raises itself, whatever uses come after it. -/
  raise : ∀ {uses : List (Variable × SolverSort)} {α : Type} {err : EncodeError},
    (∀ name expected found, err ≠ .sortMismatch name expected found) → P uses α (throw err)
  bind : ∀ {uses more : List (Variable × SolverSort)} {α β : Type} {f : Action (Encoder B) α}
    {k : α → Action (Encoder B) β},
    P uses α f → (∀ a, P more β (k a)) → P (uses ++ more) β (f >>= k)
  /-- A check of what the backend can express. -/
  check : ∀ {check : Capabilities → Except EncodeError Unit},
    (∀ c err, check c = .error err → err = .backendUnsupportedType .double) →
    P [] Unit (do Action.ofExcept (check (← get).capabilities))
  core : ∀ {s : SolverSort} (op : CoreOp B.Obj s), (Operation.core op).request? = none →
    P [] (B.Obj s) (Encoder.core op)
  /-- A rational operation, and what is done in its place without rationals. -/
  rational : ∀ {s : SolverSort} (op : RationalOp B.Obj s) {f : Action (Encoder B) (B.Obj s)},
    (Operation.rational op).request? = none → P [] (B.Obj s) f →
    P [] (B.Obj s) (do if (← get).capabilities.rationals then Encoder.rational op else f)
  lookUp : ∀ {sort : SolverSort} (v : Variable), sort ≠ .real →
    P [(v, sort)] (B.Obj sort) (find sort v)
  /-- Variables are looked up as rationals only where there are rationals. -/
  lookUpReal : ∀ v : Variable,
    P [(v, .real)] (B.Obj .real) (do Encoder.requireRationals; find .real v)

/-- A routine that also holds if a node is reported first, as formulas do. -/
structure FormulaRoutine
    (P : List (Variable × SolverSort) → (α : Type) → Action (Encoder B) α → Prop) : Prop
    extends Routine Encoder.lookUp P where
  visit : ∀ {uses : List (Variable × SolverSort)} {α : Type} {f : Action (Encoder B) α}
    (kind : NodeKind), P uses α f → P uses α (Encoder.visit kind f)

namespace Routine

variable {find : (sort : SolverSort) → Variable → Action (Encoder B) (B.Obj sort)}
  {P : List (Variable × SolverSort) → (α : Type) → Action (Encoder B) α → Prop}
  {uses : List (Variable × SolverSort)}

/-- What meets no use may come last. -/
theorem bind_last (h : Routine find P) {f : Action (Encoder B) α} {k : α → Action (Encoder B) β}
    (hf : P uses α f) (hk : ∀ a, P [] β (k a)) : P uses β (f >>= k) := by
  rw [← List.append_nil uses]
  exact h.bind hf hk

/-- What meets no use may come first. -/
theorem after (h : Routine find P) {f : Action (Encoder B) α} {k : α → Action (Encoder B) β}
    (hf : P [] α f) (hk : ∀ a, P uses β (k a)) : P uses β (f >>= k) :=
  h.bind hf hk

theorem map (h : Routine find P) {φ : α → β} {f : Action (Encoder B) α} (hf : P uses α f) :
    P uses β (φ <$> f) := by
  rw [map_eq_pure_bind]
  exact h.bind_last hf fun a => h.pure (φ a)

/-- A result whose errors the encoder raises itself. -/
theorem ofExcept (h : Routine find P) {result : Except EncodeError α}
    (hresult : ∀ {err}, result = .error err →
      ∀ name expected found, err ≠ .sortMismatch name expected found) :
    P [] α (Action.ofExcept result) := by
  cases result with
  | ok a => exact h.pure a
  | error err => exact h.raise (hresult rfl)

/-! ### Terms -/

theorem requireRationals (h : Routine find P) : P [] Unit Encoder.requireRationals :=
  h.check fun _ _ => Capabilities.eq_of_requireRationals

/-- A rational operation after the check for rationals. -/
theorem rational_map (h : Routine find P) {s : SolverSort} {φ : B.Obj s → α}
    (op : RationalOp B.Obj s) (hop : (Operation.rational op).request? = none) :
    P [] α (do Encoder.requireRationals; φ <$> Encoder.rational op) := by
  have hthrow : P [] (B.Obj s) (throw (.backendUnsupportedType .double)) := h.raise nofun
  rw [← map_bind, Encoder.requireRationals_bind]
  exact h.map (h.rational op hop hthrow)

/-- A variable in a term is looked up under the sort of its declared type. -/
theorem findNumeral (h : Routine find P) (v : Variable) :
    P [(v, v.type.sort)] (Numeral B.Obj) (Encoder.findNumeral find v) := by
  unfold Encoder.findNumeral
  cases v.type with
  | bool => exact h.raise nofun
  | integer => exact h.map (h.lookUp v nofun)
  | double =>
    rw [← map_bind]
    exact h.map (h.lookUpReal v)

theorem encodeConstant (h : Routine find P) (c : Constant) :
    P [] (Numeral B.Obj) (Encoder.encodeConstant c) := by
  cases c with
  | integer n => exact h.map (h.core (.intConstant n) rfl)
  | double x =>
    simp only [Encoder.encodeConstant]
    cases x.toRat? with
    | none => exact h.after h.requireRationals fun _ => h.raise (by simp)
    | some q => exact h.rational_map (.constant q) rfl

theorem applyFunction (h : Routine find P) (f : FunctionKind) (type : ValueType)
    (ns : List (Numeral B.Obj)) : P [] (Numeral B.Obj) (Encoder.applyFunction f ns type) := by
  cases type with
  | bool => exact h.raise nofun
  | integer =>
    have hexpect : P [] (List (B.Obj .int)) (Action.ofExcept (Encoder.expectIntegers ns)) :=
      h.ofExcept fun herr => by
        rw [Encoder.eq_of_expectIntegers herr]
        nofun
    refine h.after hexpect fun xs => ?_
    cases f with
    | add => exact h.map (h.core (.intAdd xs) rfl)
    | multiply => exact h.map (h.core (.intMultiply xs) rfl)
    | divide => exact h.raise nofun
  | double =>
    cases f with
    | add => exact h.rational_map (.add ns) rfl
    | multiply => exact h.rational_map (.multiply ns) rfl
    | divide => exact h.after h.requireRationals fun _ => h.raise nofun

mutual

/-- A routine holds of terms, with their uses. -/
theorem encodeTerm (h : Routine Encoder.lookUp P) :
    ∀ t : Term, P t.uses (Numeral B.Obj) (Encoder.encodeTerm t)
  | .constant c => by
    simp only [Encoder.encodeTerm, Term.uses]
    exact h.encodeConstant c
  | .var v => by
    rw [Encoder.encodeTerm_var, Term.uses]
    exact h.findNumeral v
  | .app f args type => by
    simp only [Encoder.encodeTerm, Term.uses]
    exact h.bind_last (encodeTerms h args) fun ns => h.applyFunction f type ns

/-- A routine holds of terms one after another. -/
theorem encodeTerms (h : Routine Encoder.lookUp P) :
    ∀ ts : List Term, P (Term.usesAll ts) (List (Numeral B.Obj)) (Encoder.encodeTerms ts)
  | [] => by
    simp only [Encoder.encodeTerms, Term.usesAll]
    exact h.pure []
  | t :: ts => by
    simp only [Encoder.encodeTerms, Term.usesAll]
    refine h.bind (encodeTerm h t) fun n => ?_
    exact h.bind_last (encodeTerms h ts) fun ns => h.pure (n :: ns)

end

/-! ### Formulas -/

theorem expectInteger (h : Routine find P) (n : Numeral B.Obj) :
    P [] (B.Obj .int) (Action.ofExcept (Encoder.expectInteger n)) :=
  h.ofExcept fun herr => by
    rw [Encoder.eq_of_expectInteger herr]
    nofun

theorem compareNumerals (h : Routine find P) (c : Comparison) (m n : Numeral B.Obj) :
    P [] (B.Obj .bool) (Encoder.compareNumerals c m n) := by
  have hintegers : P [] (B.Obj .bool) (do
      let x ← Action.ofExcept (Encoder.expectInteger m)
      let y ← Action.ofExcept (Encoder.expectInteger n)
      Encoder.core (.intCompare c x y)) :=
    h.after (h.expectInteger m) fun x => h.after (h.expectInteger n) fun y =>
      h.core (.intCompare c x y) rfl
  unfold Encoder.compareNumerals
  cases m.isRational || n.isRational with
  | true => exact h.rational (.compare c m n) rfl hintegers
  | false => exact hintegers

theorem checkTerm (h : Routine find P) (t : Term) : P [] Unit (Encoder.checkTerm t) := by
  have hcheck : ∀ (c : Capabilities) (err : EncodeError), c.checkTerm t = .error err →
      err = .backendUnsupportedType .double := fun _ _ => Capabilities.eq_of_checkAll
  exact h.check hcheck

theorem encodeComparison (h : Routine Encoder.lookUp P) (c : Comparison) (l r : Term) :
    P (l.uses ++ r.uses) (B.Obj .bool) (Encoder.encodeComparison c l r) := by
  refine h.after (h.checkTerm l) fun _ => h.after (h.checkTerm r) fun _ => ?_
  refine h.bind (h.encodeTerm l) fun m => ?_
  exact h.bind_last (h.encodeTerm r) fun n => h.compareNumerals c m n

theorem encodeLiteral (h : Routine Encoder.lookUp P) (v : Variable) (positive : Bool) :
    P [(v, .bool)] (B.Obj .bool) (Encoder.encodeLiteral v positive) := by
  have heq : Encoder.encodeLiteral (B := B) v positive = (do
      let x ← Encoder.lookUp .bool v
      if positive then Pure.pure x else Encoder.core (.not x)) := by
    rw [Encoder.lookUp, bind_assoc]
    rfl
  rw [heq]
  refine h.bind_last (h.lookUp v nofun) fun x => ?_
  cases positive with
  | true => exact h.pure x
  | false => exact h.core (.not x) rfl

/-! ### Declarations -/

/-- If it holds where variables are created, a routine holds of declarations. -/
theorem declare (h : Routine (Encoder.resolve true) P) (v : Variable) :
    P [(v, v.type.sort)] (Object B.Obj) (Encoder.declare v) := by
  have hnumeral := h.findNumeral v
  unfold Encoder.declare
  cases htype : v.type with
  | bool => exact h.map (h.lookUp v nofun)
  | integer =>
    rw [htype] at hnumeral
    exact h.map hnumeral
  | double =>
    rw [htype] at hnumeral
    exact h.map hnumeral

end Routine

namespace FormulaRoutine

variable {P : List (Variable × SolverSort) → (α : Type) → Action (Encoder B) α → Prop}

/-- A routine is nodewise, with the uses of the nodes. -/
theorem nodewise (h : FormulaRoutine P) :
    Nodewise fun xs α f => P (xs.flatMap Expr.ownUses) α f where
  pure a := h.pure a
  bind hf hk := by
    rw [List.flatMap_append]
    exact h.bind hf hk
  core op hop := h.core op hop
  constant value := h.visit _ (h.core (.boolConstant value) rfl)
  literal v positive := h.visit _ (h.encodeLiteral v positive)
  compare c l r := by
    rw [List.flatMap_singleton]
    exact h.visit _ (h.encodeComparison c l r)
  connective {x} _ _ _ hx hf := by
    have hown : x.ownUses = [] := by cases x <;> first | rfl | cases hx
    rw [List.flatMap_cons, hown]
    exact h.visit _ hf
  refuse _ := h.visit _ (h.raise nofun)

/-- A routine holds of formulas, with their uses. -/
theorem encode (h : FormulaRoutine P) (x : Expr) :
    P x.uses (B.Obj .bool) (Encoder.encode x) := by
  rw [x.uses_eq_flatMap]
  exact h.nodewise.encode x

/-- A routine holds of formulas one after another. -/
theorem encodeAll (h : FormulaRoutine P) (xs : List Expr) :
    P (Expr.usesAll xs) (List (B.Obj .bool)) (Encoder.encodeAll xs) := by
  rw [Expr.usesAll_eq_flatMap]
  exact h.nodewise.encodeAll xs

end FormulaRoutine

end SmtEncoding
