import Mathlib.Data.List.Forall2
import SmtEncoding.Solver.Backend

/-!
# Operations on related operands

Two operations are related (`CoreOp.Rel`, `RationalOp.Rel`, `Operation.Rel`) if they are the same
but for their operands, and those are related one by one.

`Operation.read?` replaces every operand by what it stands for, if each of them stands for
something of the right sort.  Reading respects the relations: if related operands stand for related
things, related operations are read as related operations (`Operation.Rel.read?`).
-/

namespace SmtEncoding

variable {O P : SolverSort → Type}

/-- The sort of the object that an operation builds. -/
def Operation.sort : Operation O → SolverSort
  | @core _ s _ => s
  | @rational _ s _ => s

/-- Carries out an operation and keeps the sort of the object with it. -/
def Backend.build (B : Backend) : Operation B.Obj → Action B.State (Object B.Obj)
  | .core op => (⟨_, ·⟩) <$> ExceptT.lift (B.core op)
  | .rational op => (⟨_, ·⟩) <$> B.rational op

/-! ## Related operands -/

/-- Numerals of one sort with related values. -/
inductive Numeral.Rel (R : (s : SolverSort) → O s → P s → Prop) : Numeral O → Numeral P → Prop where
  | integer {x : O .int} {y : P .int} : R .int x y → Rel R (.integer x) (.integer y)
  | rational {x : O .real} {y : P .real} : R .real x y → Rel R (.rational x) (.rational y)

/-- Objects of one sort with related values. -/
inductive Object.Rel (R : (s : SolverSort) → O s → P s → Prop) : Object O → Object P → Prop where
  | mk {s : SolverSort} {x : O s} {y : P s} : R s x y → Rel R ⟨s, x⟩ ⟨s, y⟩

/-- The same core operation on related operands. -/
inductive CoreOp.Rel (R : (s : SolverSort) → O s → P s → Prop) :
    {s : SolverSort} → CoreOp O s → CoreOp P s → Prop where
  | boolConstant (value : Bool) : Rel R (.boolConstant value) (.boolConstant value)
  | boolVar (name : String) : Rel R (.boolVar name) (.boolVar name)
  | not {x : O .bool} {y : P .bool} : R .bool x y → Rel R (.not x) (.not y)
  | and {xs : List (O .bool)} {ys : List (P .bool)} :
    List.Forall₂ (R .bool) xs ys → Rel R (.and xs) (.and ys)
  | or {xs : List (O .bool)} {ys : List (P .bool)} :
    List.Forall₂ (R .bool) xs ys → Rel R (.or xs) (.or ys)
  | implies {x₁ x₂ : O .bool} {y₁ y₂ : P .bool} :
    R .bool x₁ y₁ → R .bool x₂ y₂ → Rel R (.implies x₁ x₂) (.implies y₁ y₂)
  | iff {x₁ x₂ : O .bool} {y₁ y₂ : P .bool} :
    R .bool x₁ y₁ → R .bool x₂ y₂ → Rel R (.iff x₁ x₂) (.iff y₁ y₂)
  | intConstant (value : Int) : Rel R (.intConstant value) (.intConstant value)
  | intVar (name : String) : Rel R (.intVar name) (.intVar name)
  | intAdd {xs : List (O .int)} {ys : List (P .int)} :
    List.Forall₂ (R .int) xs ys → Rel R (.intAdd xs) (.intAdd ys)
  | intMultiply {xs : List (O .int)} {ys : List (P .int)} :
    List.Forall₂ (R .int) xs ys → Rel R (.intMultiply xs) (.intMultiply ys)
  | intCompare (c : Comparison) {x₁ x₂ : O .int} {y₁ y₂ : P .int} :
    R .int x₁ y₁ → R .int x₂ y₂ → Rel R (.intCompare c x₁ x₂) (.intCompare c y₁ y₂)

/-- The same rational operation on related operands. -/
inductive RationalOp.Rel (R : (s : SolverSort) → O s → P s → Prop) :
    {s : SolverSort} → RationalOp O s → RationalOp P s → Prop where
  | constant (value : Rat) : Rel R (.constant value) (.constant value)
  | var (name : String) : Rel R (.var name) (.var name)
  | add {ms : List (Numeral O)} {ns : List (Numeral P)} :
    List.Forall₂ (Numeral.Rel R) ms ns → Rel R (.add ms) (.add ns)
  | multiply {ms : List (Numeral O)} {ns : List (Numeral P)} :
    List.Forall₂ (Numeral.Rel R) ms ns → Rel R (.multiply ms) (.multiply ns)
  | compare (c : Comparison) {m₁ m₂ : Numeral O} {n₁ n₂ : Numeral P} :
    Numeral.Rel R m₁ n₁ → Numeral.Rel R m₂ n₂ → Rel R (.compare c m₁ m₂) (.compare c n₁ n₂)

/-- The same operation on related operands. -/
inductive Operation.Rel (R : (s : SolverSort) → O s → P s → Prop) :
    Operation O → Operation P → Prop where
  | core {s : SolverSort} {op : CoreOp O s} {op' : CoreOp P s} :
    CoreOp.Rel R op op' → Rel R (.core op) (.core op')
  | rational {s : SolverSort} {op : RationalOp O s} {op' : RationalOp P s} :
    RationalOp.Rel R op op' → Rel R (.rational op) (.rational op')

section Mono

variable {R S : (s : SolverSort) → O s → P s → Prop}

theorem Numeral.Rel.mono (hRS : ∀ s x y, R s x y → S s x y) {m : Numeral O} {n : Numeral P}
    (h : Numeral.Rel R m n) : Numeral.Rel S m n := by
  cases h with
  | integer h => exact .integer (hRS _ _ _ h)
  | rational h => exact .rational (hRS _ _ _ h)

theorem Object.Rel.mono (hRS : ∀ s x y, R s x y → S s x y) {o : Object O} {p : Object P}
    (h : Object.Rel R o p) : Object.Rel S o p := by
  cases h with
  | mk h => exact .mk (hRS _ _ _ h)

/-- Related numerals are both rational, or neither is. -/
theorem Numeral.Rel.isRational {m : Numeral O} {n : Numeral P} (h : Numeral.Rel R m n) :
    m.isRational = n.isRational := by
  cases h <;> rfl

theorem Numeral.Rel.toObject {m : Numeral O} {n : Numeral P} (h : Numeral.Rel R m n) :
    Object.Rel R m.toObject n.toObject := by
  cases h with
  | integer h => exact .mk h
  | rational h => exact .mk h

/-- Related objects have the same sort. -/
theorem Object.Rel.sort_eq {o : Object O} {p : Object P} (h : Object.Rel R o p) :
    o.sort = p.sort := by
  cases h
  rfl

/-- Related objects are read under a sort alike. -/
theorem Object.Rel.as? {o : Object O} {p : Object P} (h : Object.Rel R o p) (sort : SolverSort) :
    Option.Rel (R sort) (o.as? sort) (p.as? sort) := by
  cases h with
  | @mk s x y h => cases s <;> cases sort <;> first | exact .some h | exact .none

/-- Related objects are both numerals, or neither is. -/
theorem Object.Rel.toNumeral? {o : Object O} {p : Object P} (h : Object.Rel R o p) :
    Option.Rel (Numeral.Rel R) o.toNumeral? p.toNumeral? := by
  cases h with
  | @mk s x y h =>
    cases s with
    | bool => exact .none
    | int => exact .some (.integer h)
    | real => exact .some (.rational h)

/-- Related operations build objects of the same sort. -/
theorem Operation.Rel.sort_eq {op : Operation O} {op' : Operation P} (h : Operation.Rel R op op') :
    op.sort = op'.sort := by
  cases h <;> rfl

end Mono

theorem Numeral.Rel.refl (n : Numeral O) :
    Numeral.Rel (fun _ => Eq) n n := by
  cases n with
  | integer x => exact .integer rfl
  | rational x => exact .rational rfl

theorem Operation.Rel.refl (op : Operation O) :
    Operation.Rel (fun _ => Eq) op op := by
  have hs : ∀ {s : SolverSort} (xs : List (O s)), List.Forall₂ Eq xs xs :=
    fun xs => List.forall₂_refl xs
  have hns : ∀ ns : List (Numeral O), List.Forall₂ (Numeral.Rel fun _ => Eq) ns ns :=
    fun ns => List.forall₂_same.mpr fun n _ => .refl n
  cases op with
  | core op =>
    refine .core ?_
    cases op with
    | boolConstant value => exact .boolConstant value
    | boolVar name => exact .boolVar name
    | not x => exact .not rfl
    | and xs => exact .and (hs xs)
    | or xs => exact .or (hs xs)
    | implies x y => exact .implies rfl rfl
    | iff x y => exact .iff rfl rfl
    | intConstant value => exact .intConstant value
    | intVar name => exact .intVar name
    | intAdd xs => exact .intAdd (hs xs)
    | intMultiply xs => exact .intMultiply (hs xs)
    | intCompare c x y => exact .intCompare c rfl rfl
  | rational op =>
    refine .rational ?_
    cases op with
    | constant value => exact .constant value
    | var name => exact .var name
    | add ns => exact .add (hns ns)
    | multiply ns => exact .multiply (hns ns)
    | compare c m n => exact .compare c (.refl m) (.refl n)

/-! ## Related options -/

section Option

variable {α β γ δ : Type} {V : α → β → Prop} {W : γ → δ → Prop}

theorem rel_map {x : Option α} {y : Option β} {f : α → γ} {g : β → δ}
    (h : Option.Rel V x y) (hfg : ∀ a b, V a b → W (f a) (g b)) :
    Option.Rel W (x.map f) (y.map g) := by
  cases h with
  | some h => exact .some (hfg _ _ h)
  | none => exact .none

theorem rel_bind {x : Option α} {y : Option β} {f : α → Option γ} {g : β → Option δ}
    (h : Option.Rel V x y) (hfg : ∀ a b, V a b → Option.Rel W (f a) (g b)) :
    Option.Rel W (x.bind f) (y.bind g) := by
  cases h with
  | some h => exact hfg _ _ h
  | none => exact .none

/-- Readings that agree element by element agree on lists. -/
theorem rel_mapM {f : α → Option γ} {g : β → Option δ} {xs : List α} {ys : List β}
    (hfg : ∀ a b, V a b → Option.Rel W (f a) (g b)) (h : List.Forall₂ V xs ys) :
    Option.Rel (List.Forall₂ W) (xs.mapM f) (ys.mapM g) := by
  induction h with
  | nil => exact .some .nil
  | cons h _ ih =>
    rw [List.mapM_cons, List.mapM_cons]
    refine rel_bind (hfg _ _ h) fun a b hab => rel_bind ih fun as bs hs => ?_
    exact .some (.cons hab hs)

theorem mapM_some (xs : List α) : xs.mapM some = some xs := by
  induction xs with
  | nil => rfl
  | cons x xs ih => rw [List.mapM_cons, ih]; rfl

end Option

/-! ## Reading operands -/

/-- A core operation with every operand replaced by what it stands for. -/
def CoreOp.read? (f : (s : SolverSort) → O s → Option (P s)) :
    {s : SolverSort} → CoreOp O s → Option (CoreOp P s)
  | _, boolConstant value => some (boolConstant value)
  | _, boolVar name => some (boolVar name)
  | _, not x => (f .bool x).map not
  | _, and xs => (xs.mapM (f .bool)).map and
  | _, or xs => (xs.mapM (f .bool)).map or
  | _, implies x y => do some (implies (← f .bool x) (← f .bool y))
  | _, iff x y => do some (iff (← f .bool x) (← f .bool y))
  | _, intConstant value => some (intConstant value)
  | _, intVar name => some (intVar name)
  | _, intAdd xs => (xs.mapM (f .int)).map intAdd
  | _, intMultiply xs => (xs.mapM (f .int)).map intMultiply
  | _, intCompare c x y => do some (intCompare c (← f .int x) (← f .int y))

/-- A rational operation with every operand replaced by the numeral it stands for. -/
def RationalOp.read? (f : Numeral O → Option (Numeral P)) :
    {s : SolverSort} → RationalOp O s → Option (RationalOp P s)
  | _, constant value => some (constant value)
  | _, var name => some (var name)
  | _, add ns => (ns.mapM f).map add
  | _, multiply ns => (ns.mapM f).map multiply
  | _, compare c m n => do some (compare c (← f m) (← f n))

/-- An operation with every operand replaced by what it stands for. -/
def Operation.read? (f : (s : SolverSort) → O s → Option (P s))
    (g : Numeral O → Option (Numeral P)) : Operation O → Option (Operation P)
  | core op => (op.read? f).map core
  | rational op => (op.read? g).map rational

/-- A core operation whose operands are all read as they are is read as it is. -/
theorem CoreOp.read?_some {s : SolverSort} (op : CoreOp O s) :
    op.read? (fun _ => some) = some op := by
  cases op <;> simp [CoreOp.read?, mapM_some]

/-- A rational operation whose operands are all read as they are is read as it is. -/
theorem RationalOp.read?_some {s : SolverSort} (op : RationalOp O s) :
    op.read? some = some op := by
  cases op <;> simp [RationalOp.read?, mapM_some]

theorem Operation.read?_some (op : Operation O) : op.read? (fun _ => some) some = some op := by
  cases op with
  | core op => rw [Operation.read?, CoreOp.read?_some, Option.map_some]
  | rational op => rw [Operation.read?, RationalOp.read?_some, Option.map_some]

section Read

variable {X Y : SolverSort → Type} {R : (s : SolverSort) → O s → P s → Prop}
  {V : (s : SolverSort) → X s → Y s → Prop}

/-- Related core operations have related readings, if their operands do. -/
theorem CoreOp.Rel.read? {f : (s : SolverSort) → O s → Option (X s)}
    {g : (s : SolverSort) → P s → Option (Y s)}
    (hfg : ∀ s x y, R s x y → Option.Rel (V s) (f s x) (g s y)) {s : SolverSort}
    {op : CoreOp O s} {op' : CoreOp P s} (h : CoreOp.Rel R op op') :
    Option.Rel (CoreOp.Rel V) (op.read? f) (op'.read? g) := by
  cases h with
  | boolConstant value => exact .some (.boolConstant value)
  | boolVar name => exact .some (.boolVar name)
  | not h => exact rel_map (hfg _ _ _ h) fun _ _ h => .not h
  | and h => exact rel_map (rel_mapM (hfg _) h) fun _ _ h => .and h
  | or h => exact rel_map (rel_mapM (hfg _) h) fun _ _ h => .or h
  | implies h₁ h₂ =>
    exact rel_bind (hfg _ _ _ h₁) fun _ _ h₁ => rel_bind (hfg _ _ _ h₂) fun _ _ h₂ =>
      .some (.implies h₁ h₂)
  | iff h₁ h₂ =>
    exact rel_bind (hfg _ _ _ h₁) fun _ _ h₁ => rel_bind (hfg _ _ _ h₂) fun _ _ h₂ =>
      .some (.iff h₁ h₂)
  | intConstant value => exact .some (.intConstant value)
  | intVar name => exact .some (.intVar name)
  | intAdd h => exact rel_map (rel_mapM (hfg _) h) fun _ _ h => .intAdd h
  | intMultiply h => exact rel_map (rel_mapM (hfg _) h) fun _ _ h => .intMultiply h
  | intCompare c h₁ h₂ =>
    exact rel_bind (hfg _ _ _ h₁) fun _ _ h₁ => rel_bind (hfg _ _ _ h₂) fun _ _ h₂ =>
      .some (.intCompare c h₁ h₂)

/-- Related rational operations have related readings, if their operands do. -/
theorem RationalOp.Rel.read? {f : Numeral O → Option (Numeral X)}
    {g : Numeral P → Option (Numeral Y)}
    (hfg : ∀ m n, Numeral.Rel R m n → Option.Rel (Numeral.Rel V) (f m) (g n)) {s : SolverSort}
    {op : RationalOp O s} {op' : RationalOp P s} (h : RationalOp.Rel R op op') :
    Option.Rel (RationalOp.Rel V) (op.read? f) (op'.read? g) := by
  cases h with
  | constant value => exact .some (.constant value)
  | var name => exact .some (.var name)
  | add h => exact rel_map (rel_mapM hfg h) fun _ _ h => .add h
  | multiply h => exact rel_map (rel_mapM hfg h) fun _ _ h => .multiply h
  | compare c h₁ h₂ =>
    exact rel_bind (hfg _ _ h₁) fun _ _ h₁ => rel_bind (hfg _ _ h₂) fun _ _ h₂ =>
      .some (.compare c h₁ h₂)

/-- Related operations have related readings, if their operands do. -/
theorem Operation.Rel.read? {f : (s : SolverSort) → O s → Option (X s)}
    {g : (s : SolverSort) → P s → Option (Y s)} {f' : Numeral O → Option (Numeral X)}
    {g' : Numeral P → Option (Numeral Y)}
    (hfg : ∀ s x y, R s x y → Option.Rel (V s) (f s x) (g s y))
    (hfg' : ∀ m n, Numeral.Rel R m n → Option.Rel (Numeral.Rel V) (f' m) (g' n))
    {op : Operation O} {op' : Operation P} (h : Operation.Rel R op op') :
    Option.Rel (Operation.Rel V) (op.read? f f') (op'.read? g g') := by
  cases h with
  | core h => exact rel_map (h.read? hfg) fun _ _ h => .core h
  | rational h => exact rel_map (h.read? hfg') fun _ _ h => .rational h

end Read

end SmtEncoding
