import Mathlib.Data.List.Nodup
import Mathlib.Logic.Relation
import SmtEncoding.Proofs.Upkeep

/-!
# Moves of an encoder

What encoding does to an encoder, one thing at a time.  A `Move` carries out an operation that asks
for no variable, or it creates a variable that is not registered and enters it at once.  Rational
operations are carried out only if the encoder's capabilities include rationals.

To do nothing but moves is a routine (`Moving.routine`).  So whatever is encoded is a sequence of
moves, also if it fails on the way.  A property of encoders that single moves keep is therefore kept
by every step of a session that leaves the backend to the encoder (`Session.keeps_perform`).
-/

namespace SmtEncoding

variable {B : Backend} {α : Type}

/-! ## Moves -/

namespace Encoder

/-- One thing that an encoder does to its state. -/
inductive Move : Encoder B → Encoder B → Prop where
  /-- A core operation that asks for no variable. -/
  | core (e : Encoder B) {s : SolverSort} (op : CoreOp B.Obj s) :
    (Operation.core op).request? = none → Move e { e with backend := (B.core op e.backend).state }
  /-- A rational operation that asks for no variable. -/
  | rational (e : Encoder B) {s : SolverSort} (op : RationalOp B.Obj s) :
    (Operation.rational op).request? = none → e.capabilities.rationals = true →
    Move e { e with backend := ((B.rational op).run e.backend).state }
  /-- The creation of a variable. -/
  | create (e : Encoder B) (v : Variable) (sort : SolverSort) (x : B.Obj sort) :
    e.registry.get? v = none → (sort = .real → e.capabilities.rationals = true) →
    ((B.createVariable v.name sort).run e.backend).value = .ok x →
    Move e { e with backend := ((B.createVariable v.name sort).run e.backend).state,
                    registry := e.registry.insert v ⟨sort, x⟩ }
  /-- An attempt to create a variable that the backend refuses. -/
  | fail (e : Encoder B) (name : String) (sort : SolverSort) (err : EncodeError) :
    (sort = .real → e.capabilities.rationals = true) →
    ((B.createVariable name sort).run e.backend).value = .error err →
    Move e { e with backend := ((B.createVariable name sort).run e.backend).state }

/-- Any number of moves. -/
abbrev Moves : Encoder B → Encoder B → Prop := Relation.ReflTransGen Move

variable {e f : Encoder B}

/-- No move changes what the encoder takes the backend to be capable of. -/
theorem Move.capabilities_eq (h : Move e f) : f.capabilities = e.capabilities := by
  cases h <;> rfl

/-- A move leaves every entry of the registry where it is. -/
theorem Move.registry_prefix (h : Move e f) : e.registry.entries <+: f.registry.entries := by
  cases h with
  | core _ _ => exact List.prefix_rfl
  | rational _ _ _ => exact List.prefix_rfl
  | create v sort x _ _ _ => exact List.prefix_append e.registry.entries [(v, ⟨sort, x⟩)]
  | fail _ _ _ _ _ => exact List.prefix_rfl

/-- A move registers no variable twice. -/
theorem Move.registered_nodup (h : Move e f) (he : e.registry.registered.Nodup) :
    f.registry.registered.Nodup := by
  cases h with
  | core _ _ => exact he
  | rational _ _ _ => exact he
  | create v sort x hnew _ _ =>
    rw [Registry.registered_insert, ← List.concat_eq_append]
    exact he.concat (Registry.get?_eq_none_iff.mp hnew)
  | fail _ _ _ _ _ => exact he

/-- What single moves keep is kept by any number of them. -/
theorem Moves.keeps {P : Encoder B → Prop} (hP : ∀ {e f}, Move e f → P e → P f)
    (h : Moves e f) (he : P e) : P f := by
  induction h with
  | refl => exact he
  | tail _ hmove ih => exact hP hmove ih

theorem Moves.capabilities_eq (h : Moves e f) : f.capabilities = e.capabilities :=
  h.keeps (P := fun f => f.capabilities = e.capabilities)
    (fun hmove he => hmove.capabilities_eq.trans he) rfl

end Encoder

/-! ## Encoding by moves -/

/-- An encoder that `start` reaches by moves, with rationals under a condition. -/
structure Reached (start : Encoder B) (rationals : Prop) (e : Encoder B) : Prop where
  moves : Encoder.Moves start e
  rationals : rationals → e.capabilities.rationals = true

/-- An action does nothing but moves. -/
abbrev Moving (start : Encoder B) (rationals : Prop) (f : Action (Encoder B) α) : Prop :=
  Safe (Reached start rationals) (fun _ => True) f

namespace Moving

variable {start : Encoder B} {rationals : Prop}

theorem core {s : SolverSort} (op : CoreOp B.Obj s) (hop : (Operation.core op).request? = none) :
    Moving start rationals (Encoder.core op) :=
  .onBackend (fun e he => ⟨he.moves.tail (.core e op hop), he.rationals⟩) fun _ _ _ => trivial

/-- A rational operation that asks for no variable is one move where there are rationals. -/
theorem rational (h : rationals) {s : SolverSort} (op : RationalOp B.Obj s)
    (hop : (Operation.rational op).request? = none) :
    Moving start rationals (Encoder.rational op) :=
  .onBackend (fun e he => ⟨he.moves.tail (.rational e op hop (he.rationals h)), he.rationals⟩)
    fun _ _ _ => trivial

/-- Looking up a variable is no move, or the creation of the variable, or a failed attempt at it. -/
theorem resolve (allow : Bool) {sort : SolverSort} (hsort : sort = .real → rationals)
    (v : Variable) : Moving start rationals (Encoder.resolve allow sort v) := by
  refine Safe.resolve (fun _ _ _ _ _ => trivial) trivial ?_ ?_
  · intro e x he hnew hx
    have hreal := fun h => he.rationals (hsort h)
    exact ⟨he.moves.tail (.create e v sort x hnew hreal hx), he.rationals⟩
  · intro e err he herr
    have hreal := fun h => he.rationals (hsort h)
    exact ⟨⟨he.moves.tail (.fail e v.name sort err hreal herr), he.rationals⟩, trivial⟩

/-- What follows the check for rationals runs with rationals only. -/
theorem requireRationals_bind {k : Action (Encoder B) α} (hk : Moving start True k) :
    Moving start rationals (do Encoder.requireRationals; k) where
  state {e} he := by
    rw [Encoder.run_requireRationals_bind]
    split
    · rename_i hrationals
      have hnext := hk.state ⟨he.moves, fun _ => hrationals⟩
      exact ⟨hnext.moves, fun _ => hnext.rationals trivial⟩
    · exact he
  error _ _ := trivial

/-! ### Terms and formulas -/

/-- Where looking up variables does nothing but moves, no routine does anything else. -/
theorem routine {find : (sort : SolverSort) → Variable → Action (Encoder B) (B.Obj sort)}
    (hfind : ∀ {given : Prop} {sort : SolverSort} (v : Variable), (sort = .real → given) →
      Moving start given (find sort v)) :
    Routine find fun _ _ f => Moving start rationals f where
  pure a := .pure a
  raise _ := .throw trivial
  bind hf hk := Safe.bind hf hk
  check _ := .get_bind fun _ => .ofExcept fun _ _ => trivial
  core op hop := core op hop
  rational op f hop hf :=
    { state {e} he := by
        rw [Action.run_get_bind]
        split
        · -- This branch is taken only with rationals, so the operation may rely on them.
          rename_i hrationals
          have hnext := (rational trivial op hop).state (e := e) ⟨he.moves, fun _ => hrationals⟩
          exact ⟨hnext.moves, fun _ => hnext.rationals trivial⟩
        · exact hf.state he
      error _ _ := trivial }
  lookUp v hsort := hfind v fun h => absurd h hsort
  lookUpReal v := requireRationals_bind (hfind v fun _ => trivial)

theorem lookUp : FormulaRoutine fun _ _ f => Moving start rationals f where
  toRoutine := routine fun v hsort => .get_bind fun _ => resolve _ hsort v
  visit _ hf := .note_bind hf

theorem encodeTerm (t : Term) : Moving start rationals (Encoder.encodeTerm t) :=
  lookUp.encodeTerm t

theorem encodeTerms (ts : List Term) : Moving start rationals (Encoder.encodeTerms ts) :=
  lookUp.encodeTerms ts

theorem compareNumerals (c : Comparison) (m n : Numeral B.Obj) :
    Moving start rationals (Encoder.compareNumerals c m n) :=
  lookUp.compareNumerals c m n

theorem encode (x : Expr) : Moving start rationals (Encoder.encode x) := lookUp.encode x

theorem declare (v : Variable) : Moving start rationals (Encoder.declare v) :=
  Routine.declare (routine fun v hsort => resolve true hsort v) v

/-- The moves of an action that does nothing else. -/
theorem moves {f : Action (Encoder B) α} {e : Encoder B} (h : Moving e False f) :
    Encoder.Moves e (f.run e).state :=
  (h.state ⟨.refl, False.elim⟩).moves

end Moving

/-! ## Sessions -/

/-- A plain step is a sequence of moves, or it sets whether variables are created. -/
theorem Session.moves_perform {s : Session B} {step : Step} (h : step.Plain) :
    Encoder.Moves s.encoder (perform step s).state.encoder ∨
      ∃ allow, (perform step s).state.encoder = s.encoder.setCreateVariables allow := by
  cases step with
  | encode x => exact .inl (Moving.moves (.map (Moving.encode x)))
  | encodeTerm t => exact .inl (Moving.moves (.map (Moving.encodeTerm t)))
  | declare v => exact .inl (Moving.moves (.map (Moving.declare v)))
  | setCreateVariables allow => exact .inr ⟨allow, rfl⟩
  | compare c l r =>
    refine .inl ?_
    show Encoder.Moves s.encoder ((Step.action s.held (.compare c l r)).run s.encoder).state
    unfold Step.action
    dsimp only
    cases s.held[l]?.bind Object.toNumeral? with
    | none => exact .refl
    | some m =>
      cases s.held[r]?.bind Object.toNumeral? with
      | none => exact .refl
      | some n => exact (Moving.moves (.map (Moving.compareNumerals c m n)))
  | operation op => exact h.elim
  | restart options => exact h.elim

/-- What moves and the choice to create variables keep is kept by plain steps. -/
theorem Session.keeps_perform {P : Encoder B → Prop}
    (hmove : ∀ {e f : Encoder B}, Encoder.Move e f → P e → P f)
    (hset : ∀ (allow : Bool) (e : Encoder B), P e → P (e.setCreateVariables allow))
    {s : Session B} {step : Step} (h : step.Plain) (hs : P s.encoder) :
    P (perform step s).state.encoder := by
  rcases moves_perform h with hmoves | ⟨allow, heq⟩
  · exact hmoves.keeps hmove hs
  · rw [heq]
    exact hset allow s.encoder hs

/-! ### Turns -/

/-- What moves, the choice to create variables and new backends keep is kept by plain turns. -/
theorem Session.keeps_takeAll {P : Encoder B → Prop}
    (hmove : ∀ {e f : Encoder B}, Encoder.Move e f → P e → P f)
    (hset : ∀ (allow : Bool) (e : Encoder B), P e → P (e.setCreateVariables allow))
    (hrebind : ∀ (next : B.State) (e : Encoder B), P e →
      P { e with backend := next, capabilities := B.capabilities next })
    {turns : List (Turn B)} (hturns : ∀ turn ∈ turns, turn.Plain) {s : Session B}
    (hs : P s.encoder) : P (takeAll turns s).state.encoder := by
  induction turns generalizing s with
  | nil => exact hs
  | cons turn turns ih =>
    obtain ⟨hturn, hrest⟩ := List.forall_mem_cons.mp hturns
    cases turn with
    | step step => exact ih hrest (keeps_perform hmove hset hturn hs)
    | rebind next =>
      have hnext := hrebind next s.encoder hs
      rw [← encoder_rebind] at hnext
      exact ih hrest hnext

/-- Plain turns leave every entry of the registry where it is. -/
theorem Session.registry_prefix_takeAll {turns : List (Turn B)}
    (hturns : ∀ turn ∈ turns, turn.Plain) (s : Session B) :
    s.encoder.registry.entries <+: (takeAll turns s).state.encoder.registry.entries :=
  keeps_takeAll (P := fun e => s.encoder.registry.entries <+: e.registry.entries)
    (fun hmove he => he.trans hmove.registry_prefix) (fun _ _ he => he) (fun _ _ he => he) hturns
    List.prefix_rfl

/-- Plain turns register no variable twice. -/
theorem Session.registered_nodup_takeAll {turns : List (Turn B)}
    (hturns : ∀ turn ∈ turns, turn.Plain) {s : Session B}
    (hs : s.encoder.registry.registered.Nodup) :
    (takeAll turns s).state.encoder.registry.registered.Nodup :=
  keeps_takeAll (P := fun e => e.registry.registered.Nodup) Encoder.Move.registered_nodup
    (fun _ _ he => he) (fun _ _ he => he) hturns hs

end SmtEncoding
