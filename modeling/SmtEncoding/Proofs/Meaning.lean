import SmtEncoding.Proofs.Session
import SmtEncoding.Proofs.Value

/-!
# The meaning of formulas

`Expr.truth?` and `Term.number?` evaluate formulas and terms under a valuation.  A literal is the
truth value of its name or the opposite, and a double is its exact rational value.  Whole numbers
under a function at type double or beside a rational in a comparison are read as rationals.
Divisions, counting connectives and quantifiers are given no value.

Operations have values, so values make a backend (`meaning`).  Encoding over it evaluates:
every variable is registered with the value of its name, so a formula that is encoded is encoded as
its truth value (`evaluates_encode`).
-/

namespace SmtEncoding

/-! ## Formulas -/

/-- The value of a variable under its declared type. -/
def Variable.value (val : Valuation) (v : Variable) : Value :=
  match v.type with
  | .bool => ⟨.bool, val .bool v.name⟩
  | .integer => ⟨.int, val .int v.name⟩
  | .double => ⟨.real, val .real v.name⟩

/-- The value of a function at a result type. -/
def FunctionKind.value? : FunctionKind → ValueType → List (Numeral Carrier) →
    Option (Numeral Carrier)
  | add, .integer, ns => (ns.mapM Numeral.toInt?).map fun ns => .integer ns.sum
  | multiply, .integer, ns => (ns.mapM Numeral.toInt?).map fun ns => .integer ns.prod
  | add, .double, ns => some (.rational (ns.map Numeral.toRat).sum)
  | multiply, .double, ns => some (.rational (ns.map Numeral.toRat).prod)
  | _, _, _ => none

namespace Term

mutual

/-- The number of a term. -/
def number? (val : Valuation) : Term → Option (Numeral Carrier)
  | constant (.integer n) => some (.integer n)
  | constant (.double x) => x.toRat?.map .rational
  | var v => (v.value val).toNumeral?
  | app f args type => (numbers? val args).bind (f.value? type)

/-- The numbers of terms. -/
def numbers? (val : Valuation) : List Term → Option (List (Numeral Carrier))
  | [] => some []
  | t :: ts => (number? val t).bind fun n => (numbers? val ts).map (n :: ·)

end

end Term

namespace Expr

mutual

/-- The truth value of a formula. -/
def truth? (val : Valuation) : Expr → Option Bool
  | constant value => some value
  | not e => (truth? val e).map (!·)
  | and es => (truths? val es).map (·.all id)
  | or es => (truths? val es).map (·.any id)
  | implies l r => (truth? val l).bind fun a => (truth? val r).map fun b => !a || b
  | iff l r => (truth? val l).bind fun a => (truth? val r).map fun b => a == b
  | literal v positive => some (val .bool v.name == positive)
  | compare c l r => (l.number? val).bind fun m => (r.number? val).map fun n => c.holdsBetween m n
  | _ => none

/-- The truth values of formulas. -/
def truths? (val : Valuation) : List Expr → Option (List Bool)
  | [] => some []
  | e :: es => (truth? val e).bind fun a => (truths? val es).map (a :: ·)

end

end Expr

/-! ## The backend of values -/

/-- The text of a value. -/
def Carrier.text : {s : SolverSort} → Carrier s → String
  | .bool, a => toString (a : Bool)
  | .int, n => toString (n : Int)
  | .real, q => toString (q : Rat)

/-- The backend of values.  It remembers its capabilities only. -/
@[reducible] def meaning (val : Valuation) : Backend where
  State := Capabilities
  Obj := Carrier
  capabilities := id
  describe := Carrier.text
  core := fun op => pure (op.value val)
  rational := fun op => pure (op.value val)

/-! ## Encoding over values -/

/-- The registered objects are the values of their names. -/
def Agrees (val : Valuation) (e : Encoder (meaning val)) : Prop :=
  ∀ p ∈ e.registry.entries, p.2.value = val p.2.sort p.1.name

/-- An action keeps agreement, and if it does not fail it answers with the given result. -/
structure Evaluates (val : Valuation) {α : Type} (f : Action (Encoder (meaning val)) α)
    (result : Option α) : Prop where
  /-- Agreement is kept. -/
  agrees : ∀ {e}, Agrees val e → Agrees val (f.run e).state
  /-- An answer is the result. -/
  value : ∀ {e a}, Agrees val e → (f.run e).value = .ok a → result = some a

namespace Evaluates

variable {val : Valuation} {α β : Type} {result : Option α} {f : Action (Encoder (meaning val)) α}

theorem pure (a : α) : Evaluates val (pure a) (some a) where
  agrees h := h
  value _ ha := by
    rw [Action.run_pure] at ha
    cases ha
    rfl

/-- An action that fails gives no answer, so any result will do. -/
theorem throw (error : EncodeError) (result : Option α) : Evaluates val (throw error) result where
  agrees h := h
  value _ ha := by
    rw [Action.run_throw] at ha
    cases ha

theorem ofExcept {r : Except EncodeError α} (hr : ∀ a, r = .ok a → result = some a) :
    Evaluates val (Action.ofExcept r) result where
  agrees h := h
  value _ ha := hr _ ha

/-- The result of two actions is the result of the second on that of the first. -/
theorem bind {k : α → Action (Encoder (meaning val)) β} {next : α → Option β}
    (h : Evaluates val f result) (hk : ∀ a, result = some a → Evaluates val (k a) (next a)) :
    Evaluates val (f >>= k) (result.bind next) where
  agrees {e} he := by
    cases hf : (f.run e).value with
    | ok a =>
      rw [Action.run_bind_of_ok hf]
      exact (hk a (h.value he hf)).agrees (h.agrees he)
    | error error =>
      rw [Action.run_bind_of_error hf]
      exact h.agrees he
  value {e b} he hb := by
    cases hf : (f.run e).value with
    | ok a =>
      rw [Action.run_bind_of_ok hf] at hb
      have ha := h.value he hf
      rw [ha]
      exact (hk a ha).value (h.agrees he) hb
    | error error =>
      rw [Action.run_bind_of_error hf] at hb
      cases hb

theorem bind_map {k : α → Action (Encoder (meaning val)) β} {φ : α → β}
    (h : Evaluates val f result) (hk : ∀ a, Evaluates val (k a) (some (φ a))) :
    Evaluates val (f >>= k) (result.map φ) := by
  rw [Option.map_eq_bind]
  exact h.bind fun a _ => hk a

/-- What comes first may be ignored if it does not matter for the result. -/
theorem after {k : α → Action (Encoder (meaning val)) β} {next : Option β}
    (h : Evaluates val f result) (hk : ∀ a, Evaluates val (k a) next) :
    Evaluates val (f >>= k) next where
  agrees he := (h.bind fun a _ => hk a).agrees he
  value he hb := by
    obtain ⟨a, _, hnext⟩ := Option.bind_eq_some_iff.mp ((h.bind fun a _ => hk a).value he hb)
    exact hnext

theorem map {φ : α → β} (h : Evaluates val f result) :
    Evaluates val (φ <$> f) (result.map φ) := by
  rw [map_eq_pure_bind]
  exact h.bind_map fun a => .pure (φ a)

theorem get_bind {k : Encoder (meaning val) → Action (Encoder (meaning val)) α}
    (h : ∀ e, Evaluates val (k e) result) : Evaluates val (get >>= k) result where
  agrees {e} he := by
    rw [Action.run_get_bind]
    exact (h e).agrees he
  value {e a} he ha := by
    rw [Action.run_get_bind] at ha
    exact (h e).value he ha

theorem note_bind {event : LogEvent} {k : PUnit → Action (Encoder (meaning val)) α}
    (h : Evaluates val (k ⟨⟩) result) : Evaluates val (Action.note event >>= k) result where
  agrees {e} he := by
    rw [Action.run_note_bind]
    exact h.agrees he
  value {e a} he ha := by
    rw [Action.run_note_bind] at ha
    exact h.value he ha

end Evaluates

variable {val : Valuation}

/-- A core operation on values answers with its value. -/
theorem evaluates_core {s : SolverSort} (op : CoreOp Carrier s) :
    Evaluates val (Encoder.core op) (some (op.value val)) where
  agrees h := h
  value _ ha := by
    cases ha
    rfl

theorem evaluates_rational {s : SolverSort} (op : RationalOp Carrier s) :
    Evaluates val (Encoder.rational op) (some (op.value val)) where
  agrees h := h
  value _ ha := by
    cases ha
    rfl

theorem evaluates_requireRationals : Evaluates val Encoder.requireRationals (some ()) :=
  .get_bind fun _ => .ofExcept fun _ _ => rfl

/-- A variable is created with the value of its name under the sort. -/
theorem run_createVariable (name : String) (sort : SolverSort) (c : Capabilities) :
    ((meaning val).createVariable name sort).run c = ⟨.ok (val sort name), c, []⟩ := by
  cases sort <;> rfl

/-- A registered variable is found with the value of its name. -/
theorem Agrees.get? {e : Encoder (meaning val)} (h : Agrees val e) {v : Variable} {o : Value}
    (ho : e.registry.get? v = some o) : o.value = val o.sort v.name := by
  obtain ⟨before, after, hentries, _⟩ := List.lookup_eq_some_iff.mp ho
  exact h (v, o) (by rw [hentries]; exact List.mem_append_right _ List.mem_cons_self)

/-- A variable is found with the value of its name, or created with it. -/
theorem evaluates_resolve (allow : Bool) (sort : SolverSort) (v : Variable) :
    Evaluates val (Encoder.resolve allow sort v) (some (val sort v.name)) := by
  have h : ∀ {e}, Agrees val e → Agrees val ((Encoder.resolve allow sort v).run e).state ∧
      ∀ a, ((Encoder.resolve allow sort v).run e).value = .ok a → val sort v.name = a := by
    intro e he
    cases hget : e.registry.get? v with
    | some found =>
      rw [Encoder.run_resolve_registered hget]
      refine ⟨he, fun a ha => ?_⟩
      cases has : found.as? sort with
      | none =>
        rw [has] at ha
        cases ha
      | some x =>
        rw [has] at ha
        cases ha
        rw [Object.as?_eq_some_iff] at has
        subst has
        exact (he.get? hget).symm
    | none =>
      cases allow with
      | false =>
        rw [Encoder.run_resolve_refused hget]
        exact ⟨he, nofun⟩
      | true =>
        rw [Encoder.run_resolve_created hget (by rw [run_createVariable])]
        refine ⟨fun p hp => ?_, fun a ha => Except.ok.inj ha⟩
        rcases List.mem_append.mp hp with hp | hp
        · exact he p hp
        · rw [List.mem_singleton.mp hp]
  exact ⟨fun he => (h he).1, fun he ha => congrArg some ((h he).2 _ ha)⟩

/-! ### Terms -/

/-- A variable in a term has the value of its name under the sort of its declared type. -/
theorem evaluates_resolveNumeral (allow : Bool) (v : Variable) :
    Evaluates val (Encoder.resolveNumeral allow v) (v.value val).toNumeral? := by
  unfold Encoder.resolveNumeral Variable.value
  cases v.type with
  | bool => exact .throw _ _
  | integer => exact (evaluates_resolve allow .int v).map
  | double => exact evaluates_requireRationals.after fun _ => (evaluates_resolve allow .real v).map

/-- A constant has its exact value. -/
theorem evaluates_encodeConstant (c : Constant) :
    Evaluates val (Encoder.encodeConstant c) ((Term.constant c).number? val) := by
  cases c with
  | integer n =>
    simp only [Term.number?]
    exact (evaluates_core (.intConstant n)).map
  | double x =>
    simp only [Term.number?]
    refine evaluates_requireRationals.after fun _ => ?_
    cases x.toRat? with
    | none => exact .throw _ _
    | some q => exact (evaluates_rational (.constant q)).map

theorem mapM_toInt?_of_expectIntegers {ns : List (Numeral Carrier)} {xs : List Int}
    (h : Encoder.expectIntegers (B := meaning val) ns = .ok xs) :
    ns.mapM Numeral.toInt? = some xs := by
  rw [Encoder.eq_map_of_expectIntegers h, List.mapM_map]
  exact mapM_some xs

/-- A function that is applied to numbers answers with its value on them. -/
theorem evaluates_applyFunction (f : FunctionKind) (type : ValueType)
    (ns : List (Numeral Carrier)) :
    Evaluates val (Encoder.applyFunction (B := meaning val) f ns type) (f.value? type ns) := by
  cases type with
  | bool => exact .throw _ _
  | integer =>
    have hns : Evaluates val (Action.ofExcept (Encoder.expectIntegers (B := meaning val) ns))
        (ns.mapM Numeral.toInt?) :=
      .ofExcept fun _ h => mapM_toInt?_of_expectIntegers h
    cases f with
    | add => exact hns.bind_map fun xs => (evaluates_core (.intAdd xs)).map
    | multiply => exact hns.bind_map fun xs => (evaluates_core (.intMultiply xs)).map
    | divide => exact hns.after fun _ => .throw _ _
  | double =>
    refine evaluates_requireRationals.after fun _ => ?_
    cases f with
    | add => exact (evaluates_rational (.add ns)).map
    | multiply => exact (evaluates_rational (.multiply ns)).map
    | divide => exact .throw _ _

mutual

/-- A term that is encoded is encoded as its number. -/
theorem evaluates_encodeTerm : ∀ t : Term,
    Evaluates val (Encoder.encodeTerm t) (t.number? val)
  | .constant c => by
    simp only [Encoder.encodeTerm]
    exact evaluates_encodeConstant c
  | .var v => by
    simp only [Encoder.encodeTerm, Term.number?]
    exact .get_bind fun e => evaluates_resolveNumeral _ v
  | .app f args type => by
    simp only [Encoder.encodeTerm, Term.number?]
    exact (evaluates_encodeTerms args).bind fun ns _ => evaluates_applyFunction f type ns

/-- Terms that are encoded are encoded as their numbers. -/
theorem evaluates_encodeTerms : ∀ ts : List Term,
    Evaluates val (Encoder.encodeTerms ts) (Term.numbers? val ts)
  | [] => by
    simp only [Encoder.encodeTerms, Term.numbers?]
    exact .pure []
  | t :: ts => by
    simp only [Encoder.encodeTerms, Term.numbers?]
    refine (evaluates_encodeTerm t).bind fun n _ => ?_
    exact (evaluates_encodeTerms ts).bind_map fun ns => .pure (n :: ns)

end

/-! ### Formulas -/

theorem evaluates_compareNumerals (c : Comparison) (m n : Numeral Carrier) :
    Evaluates val (Encoder.compareNumerals (B := meaning val) c m n)
      (some (c.holdsBetween m n)) := by
  -- Without rationals a comparison with a rational operand fails.
  refine .get_bind fun e => ?_
  cases m with
  | integer m =>
    cases n with
    | integer n => exact ⟨fun h => h, fun _ ha => congrArg some (Except.ok.inj ha)⟩
    | rational n =>
      cases e.capabilities.rationals with
      | true => exact evaluates_rational (.compare c (.integer m) (.rational n))
      | false => exact ⟨fun h => h, nofun⟩
  | rational m =>
    cases e.capabilities.rationals with
    | true =>
      have h : Evaluates val _ _ := evaluates_rational (.compare c (.rational m) n)
      cases n with
      | integer n => exact h
      | rational n => exact h
    | false => exact ⟨fun h => h, nofun⟩

theorem evaluates_checkTerm (t : Term) : Evaluates val (Encoder.checkTerm t) (some ()) :=
  .get_bind fun _ => .ofExcept fun _ _ => rfl

theorem evaluates_encodeComparison (c : Comparison) (l r : Term) :
    Evaluates val (Encoder.encodeComparison c l r) ((Expr.compare c l r).truth? val) := by
  simp only [Encoder.encodeComparison, Expr.truth?]
  refine (evaluates_checkTerm l).after fun _ => (evaluates_checkTerm r).after fun _ => ?_
  refine (evaluates_encodeTerm l).bind fun m _ => ?_
  exact (evaluates_encodeTerm r).bind_map fun n => evaluates_compareNumerals c m n

/-- A literal has the truth value of its variable, or the opposite one. -/
theorem evaluates_encodeLiteral (v : Variable) (positive : Bool) :
    Evaluates val (Encoder.encodeLiteral v positive) ((Expr.literal v positive).truth? val) := by
  refine .get_bind fun e => ?_
  have hv : Evaluates val _ _ := evaluates_resolve e.options.createVariables .bool v
  simp only [Expr.truth?]
  cases positive with
  | true =>
    rw [beq_true]
    exact hv.bind fun a _ => .pure a
  | false =>
    rw [beq_false]
    exact hv.bind fun a _ => evaluates_core (.not a)

mutual

/-- A formula that is encoded is encoded as its truth value. -/
theorem evaluates_encode : ∀ x : Expr, Evaluates val (Encoder.encode x) (x.truth? val)
  | .constant value => by
    simp only [Encoder.encode, Expr.truth?]
    exact .note_bind (evaluates_core (.boolConstant value))
  | .not x => by
    simp only [Encoder.encode, Expr.truth?]
    exact .note_bind ((evaluates_encode x).bind_map fun a => evaluates_core (.not a))
  | .and xs => by
    simp only [Encoder.encode, Expr.truth?]
    exact .note_bind ((evaluates_encodeAll xs).bind_map fun as => evaluates_core (.and as))
  | .or xs => by
    simp only [Encoder.encode, Expr.truth?]
    exact .note_bind ((evaluates_encodeAll xs).bind_map fun as => evaluates_core (.or as))
  | .implies l r => by
    simp only [Encoder.encode, Expr.truth?]
    refine .note_bind ((evaluates_encode l).bind fun a _ => ?_)
    exact (evaluates_encode r).bind_map fun b => evaluates_core (.implies a b)
  | .iff l r => by
    simp only [Encoder.encode, Expr.truth?]
    refine .note_bind ((evaluates_encode l).bind fun a _ => ?_)
    exact (evaluates_encode r).bind_map fun b => evaluates_core (.iff a b)
  | .literal v positive => by
    simp only [Encoder.encode]
    exact .note_bind (evaluates_encodeLiteral v positive)
  | .compare c l r => by
    simp only [Encoder.encode]
    exact .note_bind (evaluates_encodeComparison c l r)
  | .atLeast _ _ => by
    simp only [Encoder.encode]
    exact .note_bind (.throw _ _)
  | .atMost _ _ => by
    simp only [Encoder.encode]
    exact .note_bind (.throw _ _)
  | .between _ _ _ => by
    simp only [Encoder.encode]
    exact .note_bind (.throw _ _)
  | .choose _ _ => by
    simp only [Encoder.encode]
    exact .note_bind (.throw _ _)
  | .exist _ _ => by
    simp only [Encoder.encode]
    exact .note_bind (.throw _ _)
  | .forAll _ _ => by
    simp only [Encoder.encode]
    exact .note_bind (.throw _ _)

/-- Formulas that are encoded are encoded as their truth values. -/
theorem evaluates_encodeAll : ∀ xs : List Expr,
    Evaluates val (Encoder.encodeAll xs) (Expr.truths? val xs)
  | [] => by
    simp only [Encoder.encodeAll, Expr.truths?]
    exact .pure []
  | x :: xs => by
    simp only [Encoder.encodeAll, Expr.truths?]
    refine (evaluates_encode x).bind fun a _ => ?_
    exact (evaluates_encodeAll xs).bind_map fun as => .pure (a :: as)

end

/-! ### Sessions -/

theorem evaluates_declare (v : Variable) :
    Evaluates val (Encoder.declare v) (some (v.value val)) := by
  obtain ⟨name, type⟩ := v
  cases type with
  | bool => exact (evaluates_resolve true .bool ⟨name, .bool⟩).map
  | integer => exact (evaluates_resolveNumeral true ⟨name, .integer⟩).map
  | double => exact (evaluates_resolveNumeral true ⟨name, .double⟩).map

/-- A step keeps registered variables and their values in agreement. -/
theorem agrees_action {e : Encoder (meaning val)} (h : Agrees val e) (held : List Value)
    (step : Step) : Agrees val ((step.action held).run e).state := by
  cases step with
  | encode x => exact (evaluates_encode x).map.agrees h
  | encodeTerm t => exact (evaluates_encodeTerm t).map.agrees h
  | declare v => exact (evaluates_declare v).map.agrees h
  | setCreateVariables allow => exact h
  | compare c l r =>
    unfold Step.action
    dsimp only
    cases held[l]?.bind Object.toNumeral? with
    | none => exact h
    | some m =>
      cases held[r]?.bind Object.toNumeral? with
      | none => exact h
      | some n => exact (evaluates_compareNumerals c m n).map.agrees h
  | operation op =>
    unfold Step.action
    dsimp only
    cases op.at? held with
    | none => exact h
    | some op =>
      rw [Action.run_map]
      exact h
  | restart options => exact nofun

/-- A session over values keeps agreement. -/
theorem agrees_performAll (steps : List Step) {s : Session (meaning val)}
    (h : Agrees val s.encoder) : Agrees val (Session.performAll steps s).state.encoder := by
  induction steps generalizing s with
  | nil => exact h
  | cons step steps ih => exact ih (agrees_action h s.held step)

end SmtEncoding
