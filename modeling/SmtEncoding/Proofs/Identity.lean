import SmtEncoding.Proofs.Origins

/-!
# The identity of objects

A formula or a term may come down to a constant, through operators that all have a single operand
(`Expr.collapse`, `Term.collapse`).  An operator on rationals does not let a whole number through,
since it converts it.  What comes down to a constant is answered with the node of that constant, and
anything else with a new node (`Yields.encode`, `Yields.encodeTerm`).  So two objects of a session
are the same node exactly if both come down to the same constant (`same_node_iff`).
-/

namespace SmtEncoding

/-! ## What comes down to a constant -/

/-- The constant that a term comes down to, by its name and its sort, if it does. -/
def Term.collapse : Term → Option (String × SolverSort)
  | .var v => some (v.name, v.type.sort)
  | .app .add [t] .integer => t.collapse
  | .app .multiply [t] .integer => t.collapse
  | .app .add [t] .double => if t.type = .double then t.collapse else none
  | .app .multiply [t] .double => if t.type = .double then t.collapse else none
  | _ => none
termination_by structural t => t

/-- The constant that a formula comes down to, by its name and its sort, if it does. -/
def Expr.collapse : Expr → Option (String × SolverSort)
  | .literal v true => some (v.name, .bool)
  | .and [e] => e.collapse
  | .or [e] => e.collapse
  | _ => none
termination_by structural e => e

/-- The constant that the answer to a step comes down to. -/
def Step.collapse : Step → Option (String × SolverSort)
  | .encode e => e.collapse
  | .encodeTerm t => t.collapse
  | .declare v => some (v.name, v.type.sort)
  | _ => none

/-! ## Operands -/

/-- There are as many answers as there are operands. -/
theorem Action.length_of_answers_mapM {σ α β : Type} {f : α → Action σ β} {as : List α} {s s' : σ}
    {bs : List β} (h : (as.mapM f).Answers s bs s') : bs.length = as.length := by
  induction as generalizing s bs with
  | nil =>
    obtain ⟨rfl, rfl⟩ := answers_pure_iff.mp h
    rfl
  | cons a as ih =>
    rw [List.mapM_cons] at h
    obtain ⟨b, s₁, _, h⟩ := answers_bind_iff.mp h
    obtain ⟨cs, s₂, has, h⟩ := answers_bind_iff.mp h
    obtain ⟨rfl, rfl⟩ := answers_pure_iff.mp h
    rw [List.length_cons, List.length_cons, ih has]

theorem Action.answers_mapM_singleton {σ α β : Type} {f : α → Action σ β} {a : α} {s s' : σ}
    {bs : List β} (h : ([a].mapM f).Answers s bs s') : ∃ b, bs = [b] ∧ (f a).Answers s b s' := by
  rw [List.mapM_cons, List.mapM_nil] at h
  obtain ⟨b, s₁, ha, h⟩ := answers_bind_iff.mp h
  obtain ⟨rfl, rfl⟩ := answers_pure_iff.mp h
  exact ⟨b, rfl, ha⟩

namespace Encoder

variable {B : Backend}

theorem encodeTerms_eq_mapM (ts : List Term) :
    encodeTerms (B := B) ts = ts.mapM encodeTerm := by
  induction ts with
  | nil => rfl
  | cons t ts ih => rw [encodeTerms, List.mapM_cons, ih]

theorem encodeAll_eq_mapM (xs : List Expr) : encodeAll (B := B) xs = xs.mapM encode := by
  induction xs with
  | nil => rfl
  | cons x xs ih => rw [encodeAll, List.mapM_cons, ih]

end Encoder

namespace SmtLib

/-! ## Terms -/

variable {e e' : Encoder backend}

namespace Yields

theorem encodeConstant (c : Constant) :
    Yields none Numeral.get (Encoder.encodeConstant (B := backend) c) := by
  cases c with
  | integer n => exact (core (.intConstant n) fun ht => origin_fresh ht (intLiteral n)).map
  | double x =>
    simp only [Encoder.encodeConstant]
    refine requireRationals_bind ?_
    cases x.toRat? with
    | none => exact throw
    | some q => exact (rational (.constant q) fun ht => origin_fresh ht (realLiteral q)).map

/-- A function of any number of arguments but one makes a new node. -/
theorem applyFunction (f : FunctionKind) {ns : List (Numeral Obj)} (hns : ∀ m, ns ≠ [m])
    (type : ValueType) :
    Yields none Numeral.get (Encoder.applyFunction (B := backend) f ns type) := by
  cases type with
  | bool => exact throw
  | integer =>
    refine bind_ofExcept fun xs hxs => ?_
    have hone : ∀ x, xs ≠ [x] := by
      rintro x rfl
      exact hns (.integer x) (Encoder.eq_map_of_expectIntegers hxs)
    cases f with
    | add => exact (core (.intAdd xs) fun ht => origin_fold ht _ _ hone).map
    | multiply => exact (core (.intMultiply xs) fun ht => origin_fold ht _ _ hone).map
    | divide => exact throw
  | double =>
    refine requireRationals_bind ?_
    have hone : ∀ x, ns ≠ [.rational x] := fun x => hns (.rational x)
    cases f with
    | add => exact (rational (.add ns) fun ht => origin_foldReal ht _ _ hone).map
    | multiply => exact (rational (.multiply ns) fun ht => origin_foldReal ht _ _ hone).map
    | divide => exact throw

end Yields

/-- A function of one argument answers with the argument, unless it converts it. -/
theorem origin_function {s : State} {f : FunctionKind} {t : Term} {type : ValueType}
    {m n : Numeral Obj} (hm : Origin s e.backend t.collapse m.get) (htype : m.sort = t.type.sort)
    (he : Interned e) (hs : s.nextId ≤ e.backend.nextId)
    (h : (Encoder.applyFunction f [m] type).Answers e n e') :
    Origin s e'.backend (Term.collapse (.app f [t] type)) n.get := by
  cases type with
  | bool => exact absurd h Action.not_answers_throw
  | integer =>
    cases m with
    | rational x => cases h.value
    | integer x =>
      obtain ⟨hvalue, rfl⟩ := h
      cases f with
      | add | multiply =>
        cases hvalue
        exact hm
      | divide => cases hvalue
  | double =>
    obtain ⟨_, hvalue, rfl⟩ := Encoder.answers_requireRationals_iff.mp h
    cases m with
    | rational x =>
      have hdouble : t.type = .double := (Numeral.isRational_iff htype).mp rfl
      cases f with
      | add | multiply =>
        cases hvalue
        rw [Term.collapse, if_pos hdouble]
        exact hm
      | divide => cases hvalue
    | integer x =>
      have hdouble : t.type ≠ .double := fun hd => by
        cases (Numeral.isRational_iff htype).mpr hd
      -- The operator answers with the conversion of its argument, which is a node of its own.
      have hnew := (origin_fresh he.wf (asReal (.integer x))).mono hs (.refl _)
      cases f with
      | add | multiply =>
        cases hvalue
        rw [Term.collapse, if_neg hdouble]
        exact hnew
      | divide => cases hvalue

namespace Yields

/-- A function of any number of arguments but one is a new node. -/
theorem app {f : FunctionKind} {ts : List Term} {type : ValueType} (hts : ts.length ≠ 1) :
    Yields none Numeral.get (Encoder.encodeTerm (B := backend) (.app f ts type)) := by
  simp only [Encoder.encodeTerm]
  refine bind (fun s => (upkeep_extends s).encodeTerms ts) fun h => ?_
  rw [Encoder.encodeTerms_eq_mapM] at h
  refine applyFunction f (fun m hns => hts ?_) type
  rw [← Action.length_of_answers_mapM h, hns]
  rfl

/-- A term is answered with the constant that it comes down to, or with a new node. -/
theorem encodeTerm : ∀ t : Term,
    Yields t.collapse Numeral.get (Encoder.encodeTerm (B := backend) t)
  | .constant c => by
    simp only [Encoder.encodeTerm]
    exact encodeConstant c
  | .var v => by
    simp only [Encoder.encodeTerm]
    exact get_bind fun _ => resolveNumeral _ v
  | .app f [] type => by
    have hcollapse : Term.collapse (.app f [] type) = none := by cases f <;> cases type <;> rfl
    rw [hcollapse]
    exact app nofun
  | .app f (t :: u :: ts) type => by
    have hcollapse : Term.collapse (.app f (t :: u :: ts) type) = none := by
      cases f <;> cases type <;> rfl
    rw [hcollapse]
    exact app (by simp)
  | .app f [t] type => by
    constructor
    intro e e' n he h
    simp only [Encoder.encodeTerm] at h
    obtain ⟨ns, e₁, hargs, happly⟩ := Action.answers_bind_iff.mp h
    rw [Encoder.encodeTerms_eq_mapM] at hargs
    obtain ⟨m, rfl, ht⟩ := Action.answers_mapM_singleton hargs
    obtain ⟨he₁, hextends⟩ := Extending.of_answers (fun s => (upkeep_extends s).encodeTerm t) he ht
    exact origin_function ((encodeTerm t).origin he ht) (Encoder.typed_of_answers ht).sort_eq he₁
      hextends.grows.nextId happly
termination_by structural t => t

/-! ### Formulas -/

theorem compareNumerals (c : Comparison) (m n : Numeral Obj) :
    Yields none id (Encoder.compareNumerals (B := backend) c m n) := by
  refine get_bind fun e => ?_
  split
  · exact rational (.compare c m n) fun ht => origin_fresh ht _
  · refine bind_ofExcept fun x _ => bind_ofExcept fun y _ => ?_
    exact core (.intCompare c x y) fun ht => origin_fresh ht _

theorem encodeComparison (c : Comparison) (l r : Term) :
    Yields none id (Encoder.encodeComparison (B := backend) c l r) := by
  have hcheck : ∀ t, Extending (Encoder.checkTerm (B := backend) t) := fun t s =>
    (upkeep_extends s).checkTerm t
  have hterm : ∀ t, Extending (Encoder.encodeTerm (B := backend) t) := fun t s =>
    (upkeep_extends s).encodeTerm t
  refine bind (hcheck l) fun _ => bind (hcheck r) fun _ => ?_
  exact bind (hterm l) fun _ => bind (hterm r) fun _ => compareNumerals c _ _

/-- A literal is the constant of its variable, or a new node above it. -/
theorem encodeLiteral (v : Variable) (positive : Bool) :
    Yields (Expr.collapse (.literal v positive)) id
      (Encoder.encodeLiteral (B := backend) v positive) := by
  refine get_bind fun e => ?_
  cases positive with
  | true =>
    simp only [if_true, bind_pure]
    exact resolve _ .bool v
  | false =>
    refine bind (fun s => (upkeep_extends s).resolve _ trivial) fun {_ x _} _ => ?_
    exact core (.not x) fun ht => origin_fresh ht _

/-- What comes before the last operation of a formula only adds nodes and constants. -/
theorem extending_encode (x : Expr) : Extending (Encoder.encode (B := backend) x) := fun s =>
  (upkeep_extends s).encode x fun _ _ => trivial

theorem extending_encodeAll (xs : List Expr) : Extending (Encoder.encodeAll (B := backend) xs) :=
  fun s => (upkeep_extends s).encodeAll xs fun _ _ => trivial

/-- An operator over the formulas of a list, of which there are any number but one. -/
theorem fold {xs : List Expr} (hxs : xs.length ≠ 1) (operator neutral : String)
    {op : List Node → CoreOp Obj .bool}
    (hop : ∀ as, buildCore (op as) = SmtLib.fold operator neutral as) :
    Yields none id (do let as ← Encoder.encodeAll (B := backend) xs; Encoder.core (op as)) := by
  refine bind (extending_encodeAll xs) fun {_ as _} h => core (op as) fun ht => ?_
  rw [Encoder.encodeAll_eq_mapM] at h
  rw [hop]
  refine origin_fold ht operator neutral fun a has => hxs ?_
  rw [← Action.length_of_answers_mapM h, has]
  rfl

/-- An operator over a single formula. -/
theorem fold_singleton {key : Option (String × SolverSort)} {x : Expr}
    (hx : Yields key id (Encoder.encode (B := backend) x)) (operator neutral : String)
    {op : List Node → CoreOp Obj .bool}
    (hop : ∀ as, buildCore (op as) = SmtLib.fold operator neutral as) :
    Yields key id (do let as ← Encoder.encodeAll (B := backend) [x]; Encoder.core (op as)) where
  origin he h := by
    obtain ⟨as, e₁, hargs, hvalue, rfl⟩ := Action.answers_bind_iff.mp h
    rw [Encoder.encodeAll_eq_mapM] at hargs
    obtain ⟨a, rfl, ha⟩ := Action.answers_mapM_singleton hargs
    have horigin := hx.origin he ha
    have hbuild : buildCore (op [a]) e₁.backend = ⟨a, e₁.backend, []⟩ := by rw [hop]; rfl
    cases hvalue
    show Origin _ (buildCore (op [a]) e₁.backend).state key (buildCore (op [a]) e₁.backend).value
    rw [hbuild]
    exact horigin

/-- A formula is answered with the constant that it comes down to, or with a new node. -/
theorem encode : ∀ x : Expr, Yields x.collapse id (Encoder.encode (B := backend) x)
  | .constant value => by
    simp only [Encoder.encode]
    refine visit _ (core (.boolConstant value) fun ht => ?_)
    cases value with
    | true => exact origin_fresh ht _
    | false => exact origin_fresh ht _
  | .not x => by
    simp only [Encoder.encode]
    refine visit _ (bind (extending_encode x) fun {_ a _} _ => ?_)
    exact core (.not a) fun ht => origin_fresh ht _
  | .and [x] => by
    simp only [Encoder.encode]
    exact visit _ (fold_singleton (encode x) "and" "true" fun _ => rfl)
  | .and [] => by
    simp only [Encoder.encode]
    exact visit _ (fold (by simp) "and" "true" fun _ => rfl)
  | .and (x :: y :: xs) => by
    simp only [Encoder.encode]
    exact visit _ (fold (by simp) "and" "true" fun _ => rfl)
  | .or [x] => by
    simp only [Encoder.encode]
    exact visit _ (fold_singleton (encode x) "or" "false" fun _ => rfl)
  | .or [] => by
    simp only [Encoder.encode]
    exact visit _ (fold (by simp) "or" "false" fun _ => rfl)
  | .or (x :: y :: xs) => by
    simp only [Encoder.encode]
    exact visit _ (fold (by simp) "or" "false" fun _ => rfl)
  | .implies l r => by
    simp only [Encoder.encode]
    refine visit _ (bind (extending_encode l) fun {_ a _} _ => ?_)
    refine bind (extending_encode r) fun {_ b _} _ => ?_
    exact core (.implies a b) fun ht => origin_fresh ht _
  | .iff l r => by
    simp only [Encoder.encode]
    refine visit _ (bind (extending_encode l) fun {_ a _} _ => ?_)
    refine bind (extending_encode r) fun {_ b _} _ => ?_
    exact core (.iff a b) fun ht => origin_fresh ht _
  | .literal v positive => by
    simp only [Encoder.encode]
    exact visit _ (encodeLiteral v positive)
  | .compare c l r => by
    simp only [Encoder.encode]
    exact visit _ (encodeComparison c l r)
  | .atLeast _ _ | .atMost _ _ | .between _ _ _ | .choose _ _ | .exist _ _ | .forAll _ _ => by
    simp only [Encoder.encode]
    exact visit _ throw
termination_by structural x => x

theorem toObject {key : Option (String × SolverSort)} {f : Action (Encoder backend) (Numeral Obj)}
    (h : Yields key Numeral.get f) : Yields key Object.value (Numeral.toObject <$> f) := by
  have hnode : Object.value ∘ Numeral.toObject = (Numeral.get : Numeral Obj → Node) :=
    funext fun n => by cases n <;> rfl
  exact map (hnode ▸ h)

/-- A declaration answers with the constant of its variable. -/
theorem declare (v : Variable) :
    Yields (some (v.name, v.type.sort)) Object.value (Encoder.declare (B := backend) v) := by
  have hnumeral := toObject (resolveNumeral true v)
  unfold Encoder.declare
  cases htype : v.type with
  | bool => exact (resolve true .bool v).map
  | integer => rwa [htype] at hnumeral
  | double => rwa [htype] at hnumeral

end Yields

/-! ## Sessions -/

/-- What a plain step answers with is the constant that it comes down to, or a new node. -/
theorem origin_of_perform {s : Session backend} (hs : Interned s.encoder) {step : Step}
    (hstep : step.Plain) {o : Object Obj} (h : (Session.perform step s).value = .ok (some o)) :
    Origin s.encoder.backend (Session.perform step s).state.encoder.backend step.collapse
      o.value := by
  have hanswers : (step.action s.held).Answers s.encoder (some o)
      (Session.perform step s).state.encoder := ⟨h, rfl⟩
  generalize (Session.perform step s).state.encoder = e at hanswers
  cases step with
  | encode x =>
    obtain ⟨a, ha, ho⟩ := Action.answers_map_iff.mp hanswers
    cases ho
    exact (Yields.encode x).origin hs ha
  | encodeTerm t =>
    obtain ⟨n, hn, ho⟩ := Action.answers_map_iff.mp hanswers
    cases ho
    have horigin := (Yields.encodeTerm t).origin hs hn
    cases n with
    | integer x => exact horigin
    | rational x => exact horigin
  | declare v =>
    obtain ⟨p, hp, ho⟩ := Action.answers_map_iff.mp hanswers
    cases ho
    exact (Yields.declare v).origin hs hp
  | setCreateVariables allow => cases h
  | compare c l r =>
    unfold Step.action at hanswers
    dsimp only at hanswers
    split at hanswers
    · rename_i m n _ _
      obtain ⟨a, ha, ho⟩ := Action.answers_map_iff.mp hanswers
      cases ho
      exact (Yields.compareNumerals c m n).origin hs ha
    · cases (Action.answers_pure_iff.mp hanswers).1
  | operation op => exact hstep.elim
  | restart options => exact hstep.elim

/-- A step of a session only adds nodes and constants. -/
theorem extends_perform {s : Session backend} (hs : Interned s.encoder) (step : Step) :
    Interned (Session.perform step s).state.encoder ∧
      s.encoder.backend.Extends (Session.perform step s).state.encoder.backend :=
  ((upkeep_extends s.encoder.backend).perform (fun _ _ => trivial) ⟨hs, .refl _⟩).1

/-- Two objects that a session on an SMT-LIB backend answers with are the same node exactly if both
come down to the constant of one name and one sort.  All others are different nodes, also where they
are written alike.  The session may do anything before the first of them and between the two. -/
theorem same_node_iff (capabilities : Capabilities) (first : Nat) (options : Options)
    (before between : List Step) (x y : Step) (hx : x.Plain) (hy : y.Plain) (o p : Object Obj) :
    let begun :=
      (Session.performAll before (.start (B := backend) (.empty capabilities first) options)).state
    let reached := (Session.performAll between (Session.perform x begun).state).state
    (Session.perform x begun).value = .ok (some o) →
    (Session.perform y reached).value = .ok (some p) →
      (o.value.same p.value = true ↔
        ∃ key, x.collapse = some key ∧ y.collapse = some key) ∧
      (o.value.same p.value = true ↔ o.value = p.value) := by
  intro begun reached ho hp
  have hstart : Interned
      (Session.start (B := backend) (.empty capabilities first) options).encoder :=
    ⟨.empty capabilities first, nofun⟩
  have hbegun : Interned begun.encoder :=
    (upkeep_interned.performAll before (fun _ _ => trivial) hstart).1
  obtain ⟨hfirst, _⟩ := extends_perform hbegun x
  obtain ⟨⟨hreached, hbetween⟩, _⟩ :=
    (upkeep_extends (Session.perform x begun).state.encoder.backend).performAll between
      (fun _ _ => trivial) ⟨hfirst, .refl _⟩
  obtain ⟨hsecond, hafter⟩ := extends_perform hreached y
  exact (origin_of_perform hbegun hx ho).same_iff (origin_of_perform hreached hy hp) hbetween hafter
    hsecond.wf

/-- Operators of one operand each over a rational. -/
def nested : Term := .app .add [.app .multiply [.var ⟨"x", .double⟩] .double] .double

/-- An operator on rationals over a whole number, which it converts. -/
def converted : Term := .app .add [.var ⟨"n", .integer⟩] .double

/-- A session on an SMT-LIB backend after some steps. -/
def sessionAfter (steps : List Step) : Session backend :=
  (Session.performAll steps (.start (B := backend) (.empty {} 0) {})).state

/-- The operators over the rational are the rational that is asked for after another step.  The
operator over the whole number is a new node each time, although both are written alike. -/
theorem same_node_iff_nested :
    let rational : Object Obj := ⟨.real, ⟨0, .atom "x"⟩⟩
    let once : Object Obj := ⟨.real, ⟨1, .apply "to_real" [.atom "n"]⟩⟩
    let again : Object Obj := ⟨.real, ⟨2, .apply "to_real" [.atom "n"]⟩⟩
    (Session.perform (.encodeTerm nested) (sessionAfter [])).value = .ok (some rational) ∧
    (Session.perform (.encodeTerm (.var ⟨"x", .double⟩))
      (sessionAfter [.encodeTerm nested, .encodeTerm converted])).value = .ok (some rational) ∧
    (rational.value.same rational.value = true ↔
      ∃ key, nested.collapse = some key ∧ Term.collapse (.var ⟨"x", .double⟩) = some key) ∧
    (Session.perform (.encodeTerm converted) (sessionAfter [])).value = .ok (some once) ∧
    (Session.perform (.encodeTerm converted) (sessionAfter [.encodeTerm converted])).value =
      .ok (some again) ∧
    (once.value.same again.value = true ↔
      ∃ key, converted.collapse = some key ∧ converted.collapse = some key) := by
  have hsame := same_node_iff {} 0 {} [] [.encodeTerm converted] (.encodeTerm nested)
    (.encodeTerm (.var ⟨"x", .double⟩)) trivial trivial ⟨.real, ⟨0, .atom "x"⟩⟩
    ⟨.real, ⟨0, .atom "x"⟩⟩ rfl rfl
  have hother := same_node_iff {} 0 {} [] [] (.encodeTerm converted) (.encodeTerm converted)
    trivial trivial ⟨.real, ⟨1, .apply "to_real" [.atom "n"]⟩⟩
    ⟨.real, ⟨2, .apply "to_real" [.atom "n"]⟩⟩ rfl rfl
  exact ⟨rfl, rfl, hsame.1, rfl, rfl, hother.1⟩

end SmtLib

end SmtEncoding
