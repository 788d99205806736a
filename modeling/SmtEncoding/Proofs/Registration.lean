import SmtEncoding.Proofs.Occurrences
import SmtEncoding.Recording.Backend

/-!
# The order of registration

An encoder that creates variables looks them up from left to right, and each is entered where it is
looked up first.  An action `Registers` variables if those that it looks up are the first few of
them, and all of them if it does not fail.  That is a routine (`Registers.routine`), so a formula
registers the variables of its uses, in the order of their occurrences (`Registers.encode`).

Variables that are known already add nothing, and neither do repetitions (`foldl_enter`).  So the
registry grows by the variables that were not registered, each once and in the order of first
occurrences, or by the first few of these if the formula is refused
(`registered_by_first_occurrence`).
-/

namespace SmtEncoding

/-! ## Entering variables -/

/-- Variables with one more at the end, unless it is among them. -/
def enter (known : List Variable) (v : Variable) : List Variable :=
  if v ∈ known then known else known ++ [v]

/-- The variables that are not known, without repetitions, in the order of their first
occurrences. -/
def unseen (known vs : List Variable) : List Variable := (vs.removeAll known).eraseDups

theorem enter_of_mem {known : List Variable} {v : Variable} (h : v ∈ known) :
    enter known v = known :=
  if_pos h

/-- A variable that is not known is entered at the end. -/
theorem enter_of_not_mem {known : List Variable} {v : Variable} (h : v ∉ known) :
    enter known v = known ++ [v] :=
  if_neg h

/-- A known variable in front adds nothing. -/
theorem unseen_cons_of_mem {known vs : List Variable} {v : Variable} (h : v ∈ known) :
    unseen known (v :: vs) = unseen known vs := by
  simp [unseen, List.removeAll, h]

/-- A variable that is not known is added, and later occurrences of it are not. -/
theorem unseen_cons_of_not_mem {known vs : List Variable} {v : Variable} (h : v ∉ known) :
    unseen known (v :: vs) = v :: unseen (known ++ [v]) vs := by
  have hfirst : (v :: vs).removeAll known = v :: vs.removeAll known := by
    simp [List.removeAll, h]
  rw [unseen, unseen, hfirst, List.eraseDups_cons, removeAll_concat]

/-- Entered one after another, variables add those that are not known, each once. -/
theorem foldl_enter (known vs : List Variable) :
    vs.foldl enter known = known ++ unseen known vs := by
  induction vs generalizing known with
  | nil => simp [unseen, List.removeAll]
  | cons v vs ih =>
    rw [List.foldl_cons, ih]
    by_cases hv : v ∈ known
    · rw [enter_of_mem hv, unseen_cons_of_mem hv]
    · rw [enter_of_not_mem hv, unseen_cons_of_not_mem hv, List.append_assoc]
      rfl

/-- Fewer variables add the first few of those that more of them add. -/
theorem unseen_prefix (known : List Variable) {met vs : List Variable} (h : met <+: vs) :
    unseen known met <+: unseen known vs := by
  obtain ⟨rest, rfl⟩ := h
  have hsplit : (met ++ rest).removeAll known = met.removeAll known ++ rest.removeAll known :=
    List.filter_append ..
  rw [unseen, unseen, hsplit, List.eraseDups_append]
  exact List.prefix_append _ _

/-! ## Looking up variables -/

variable {B : Backend} {α β : Type}

/-- From one state of an encoder to another, the variables are looked up one after another. -/
structure LookedUp (met : List Variable) (e f : Encoder B) : Prop where
  registered : f.registry.registered = met.foldl enter e.registry.registered
  options : f.options = e.options

theorem LookedUp.nil {e f : Encoder B} (hregistry : f.registry = e.registry)
    (hoptions : f.options = e.options) : LookedUp [] e f where
  registered := by rw [hregistry, List.foldl_nil]
  options := hoptions

/-- What is looked up from one state to the next is looked up in that order. -/
theorem LookedUp.append {met more : List Variable} {e f g : Encoder B} (hef : LookedUp met e f)
    (hfg : LookedUp more f g) : LookedUp (met ++ more) e g where
  registered := by rw [hfg.registered, hef.registered, List.foldl_append]
  options := hfg.options.trans hef.options

/-- With the creation of variables, an action looks up the first few of the variables, and all of
them if it does not fail. -/
def Registers (vs : List Variable) (f : Action (Encoder B) α) : Prop :=
  ∀ ⦃e : Encoder B⦄, e.options.createVariables = true →
    ∃ met, met <+: vs ∧ LookedUp met e (f.run e).state ∧ ∀ a, (f.run e).value = .ok a → met = vs

namespace Registers

variable {vs more : List Variable} {f : Action (Encoder B) α}

theorem pure (a : α) : Registers (B := B) [] (pure a) := by
  intro e _
  exact ⟨[], List.prefix_rfl, .nil rfl rfl, fun _ _ => rfl⟩

/-- An action that fails at once looks up none of the variables, whichever they are. -/
theorem throw (err : EncodeError) : Registers (B := B) vs (throw err : Action (Encoder B) α) := by
  intro e _
  exact ⟨[], List.nil_prefix, .nil rfl rfl, nofun⟩

theorem ofExcept (r : Except EncodeError α) : Registers (B := B) [] (Action.ofExcept r) := by
  intro e _
  exact ⟨[], List.prefix_rfl, .nil rfl rfl, fun _ _ => rfl⟩

/-- The variables of the first action are looked up before those of the second, and the second is
reached only if all of the first are. -/
theorem bind {k : α → Action (Encoder B) β} (h : Registers vs f) (hk : ∀ a, Registers more (k a)) :
    Registers (vs ++ more) (f >>= k) := by
  intro e he
  obtain ⟨met, hprefix, hlooked, hall⟩ := h he
  cases hf : (f.run e).value with
  | ok a =>
    rw [Action.run_bind_of_ok hf]
    obtain rfl := hall a hf
    obtain ⟨next, hnext, hrest, hlast⟩ := hk a (by rw [hlooked.options, he])
    refine ⟨met ++ next, (List.prefix_append_right_inj met).mpr hnext, hlooked.append hrest, ?_⟩
    intro b hb
    rw [hlast b hb]
  | error err =>
    rw [Action.run_bind_of_error hf]
    exact ⟨met, hprefix.trans (List.prefix_append vs more), hlooked, nofun⟩

/-- What looks up nothing may come first. -/
theorem after {k : α → Action (Encoder B) β} (h : Registers [] f) (hk : ∀ a, Registers vs (k a)) :
    Registers vs (f >>= k) :=
  h.bind hk

theorem get_bind {k : Encoder B → Action (Encoder B) α}
    (h : ∀ e, e.options.createVariables = true → Registers vs (k e)) :
    Registers vs (get >>= k) := by
  intro e he
  rw [Action.run_get_bind]
  exact h e he he

theorem note_bind {event : LogEvent} {k : PUnit → Action (Encoder B) α} (h : Registers vs (k ⟨⟩)) :
    Registers vs (Action.note event >>= k) := by
  intro e he
  rw [Action.run_note_bind]
  exact h he

/-! ### Operations and variables -/

/-- An operation of the backend leaves the registry to the encoder. -/
theorem onBackend (f : Action B.State α) : Registers [] (Encoder.onBackend f) := by
  intro e _
  exact ⟨[], List.prefix_rfl, .nil rfl rfl, fun _ _ => rfl⟩

theorem core {s : SolverSort} (op : CoreOp B.Obj s) : Registers [] (Encoder.core op) :=
  onBackend _

theorem rational {s : SolverSort} (op : RationalOp B.Obj s) : Registers [] (Encoder.rational op) :=
  onBackend _

theorem requireRationals : Registers [] (Encoder.requireRationals (B := B)) :=
  .get_bind fun _ _ => .ofExcept _

/-- A variable is entered unless it is registered, or the backend does not create it. -/
theorem resolve (sort : SolverSort) (v : Variable) :
    Registers [v] (Encoder.resolve (B := B) true sort v) := by
  intro e _
  cases hget : e.registry.get? v with
  | some found =>
    have hmem : v ∈ e.registry.registered := List.mem_map_of_mem (Registry.mem_of_get? hget)
    rw [Encoder.run_resolve_registered hget]
    exact ⟨[v], List.prefix_rfl, ⟨(enter_of_mem hmem).symm, rfl⟩, fun _ _ => rfl⟩
  | none =>
    have hnew := Registry.get?_eq_none_iff.mp hget
    cases hx : ((B.createVariable v.name sort).run e.backend).value with
    | ok x =>
      rw [Encoder.run_resolve_created hget hx]
      refine ⟨[v], List.prefix_rfl, ⟨?_, rfl⟩, fun _ _ => rfl⟩
      rw [Registry.registered_insert, List.foldl_cons, List.foldl_nil, enter_of_not_mem hnew]
    | error err =>
      rw [Encoder.run_resolve_failed hget hx]
      exact ⟨[], List.nil_prefix, .nil rfl rfl, nofun⟩

/-! ### Terms and formulas -/

/-- Where variables are created, a variable is entered unless it is registered. -/
theorem lookUp (sort : SolverSort) (v : Variable) :
    Registers [v] (Encoder.lookUp (B := B) sort v) := by
  refine .get_bind fun e he => ?_
  rw [he]
  exact resolve sort v

/-- Whatever is encoded registers the variables of its uses. -/
theorem routine : FormulaRoutine (B := B) fun uses _ f => Registers (uses.map Prod.fst) f where
  pure := pure
  raise _ := .throw _
  bind hf hk := by
    rw [List.map_append]
    exact hf.bind hk
  visit _ hf := .note_bind hf
  check _ := .get_bind fun _ _ => .ofExcept _
  core op _ := core op
  rational op _ _ hf := by
    refine .get_bind fun e _ => ?_
    split
    · exact rational op
    · exact hf
  lookUp v _ := lookUp _ v
  lookUpReal v := requireRationals.after fun _ => lookUp .real v

/-- A formula looks up the variables of its uses from left to right. -/
theorem encode (x : Expr) : Registers (x.uses.map Prod.fst) (Encoder.encode (B := B) x) :=
  routine.encode x

end Registers

/-! ## Formulas -/

/-- In whatever state an encoder is that creates variables, and on whatever backend: a formula that
is encoded adds to the registry the variables that occur in it and are not registered yet, each
once, in the order of their first occurrences from left to right.  A formula that is refused adds
the first few of them. -/
theorem registered_by_first_occurrence (e : Encoder B)
    (hcreate : e.options.createVariables = true) (x : Expr) :
    let before := e.registry.registered
    let reply := (Encoder.encode x).run e
    (∀ a, reply.value = .ok a →
      reply.state.registry.registered = before ++ unseen before x.occurrences) ∧
    ∀ err, reply.value = .error err → ∃ added, added <+: unseen before x.occurrences ∧
      reply.state.registry.registered = before ++ added := by
  intro before reply
  obtain ⟨met, hprefix, hlooked, hall⟩ := Registers.encode x hcreate
  have hregistered : reply.state.registry.registered = before ++ unseen before met :=
    hlooked.registered.trans (foldl_enter before met)
  constructor
  · intro a ha
    rw [hregistered, hall a ha]
    rfl
  · intro err _
    exact ⟨unseen before met, unseen_prefix before hprefix, hregistered⟩

/-- A comparison with a function of two numbers, between two literals. -/
def betweenLiterals (f : FunctionKind) : Expr :=
  .and [.literal ⟨"b", .bool⟩ true,
    .compare .equals (.var ⟨"n", .integer⟩)
      (.app f [.var ⟨"m", .integer⟩, .var ⟨"n", .integer⟩] .integer),
    .literal ⟨"c", .bool⟩ false]

/-- An encoder with the number `n` declared. -/
def numberDeclared : Encoder Recording.backend :=
  ((Encoder.declare ⟨"n", .integer⟩).run (.new (B := Recording.backend) (.empty {}) {})).state

/-- With a sum, all variables that were not registered are added.  A division is refused, and the
last variable is never looked up. -/
theorem registered_by_first_occurrence_refused :
    let added : List Variable := [⟨"b", .bool⟩, ⟨"m", .integer⟩, ⟨"c", .bool⟩]
    numberDeclared.options.createVariables = true ∧
    ((Encoder.encode (betweenLiterals .add)).run numberDeclared).value = .ok (7 : Nat) ∧
    ((Encoder.encode (betweenLiterals .add)).run numberDeclared).state.registry.registered =
      ⟨"n", .integer⟩ :: added ∧
    ((Encoder.encode (betweenLiterals .divide)).run numberDeclared).value =
      .error (.unsupportedFunction .divide .integer) ∧
    ∃ first, first <+: added ∧
      ((Encoder.encode (betweenLiterals .divide)).run numberDeclared).state.registry.registered =
        ⟨"n", .integer⟩ :: first := by
  intro added
  have hunseen : ∀ f, unseen numberDeclared.registry.registered (betweenLiterals f).occurrences =
      added := by
    intro f
    cases f <;> decide
  have hsum : ((Encoder.encode (betweenLiterals .add)).run numberDeclared).value =
      .ok (7 : Nat) := rfl
  have hdivision : ((Encoder.encode (betweenLiterals .divide)).run numberDeclared).value =
      .error (.unsupportedFunction .divide .integer) := rfl
  have hadded := (registered_by_first_occurrence numberDeclared rfl (betweenLiterals .add)).1 _ hsum
  obtain ⟨first, hfirst, hregistered⟩ :=
    (registered_by_first_occurrence numberDeclared rfl (betweenLiterals .divide)).2 _ hdivision
  rw [hunseen] at hadded hfirst
  exact ⟨rfl, hsum, hadded, hdivision, first, hfirst, hregistered⟩

end SmtEncoding
