import SmtEncoding.Encoder.Routine
import SmtEncoding.Proofs.Session

/-!
# What encoding keeps

An encoder does two things to its state: it carries out operations of the backend, and it looks up
variables or creates them.  A property of encoders that both keep is therefore kept by whatever is
encoded, and an error that neither fails with is one of the few that the encoder raises itself.

`Safe` says this of one action, and `Upkeep` lists what has to be shown of a property and a kind of
errors.  Which variables are looked up under which sort is a parameter (`use`): terms ask for the
sort of the declared type, and literals for a truth value.  An upkeep makes safety a routine
(`Upkeep.lookUp`), so terms and formulas are encoded safely, and a variable is declared safely
(`Upkeep.routine`).  It follows for whole sessions (`Upkeep.performAll`), also for those that
replace the backend between steps (`Upkeep.takeAll`).
-/

namespace SmtEncoding

variable {B : Backend} {α β : Type} {P : Encoder B → Prop} {E : EncodeError → Prop}

/-! ## Safe actions -/

/-- A call that always answers does not fail as an action. -/
theorem Action.value_lift_ne_error {σ : Type} {f : Call σ α} {s : σ} {err : EncodeError} :
    (Action.run (ExceptT.lift f) s).value ≠ .error err := by
  rw [Action.run_lift]
  nofun

/-- An action keeps a property of encoders and fails only with errors of a kind. -/
structure Safe (P : Encoder B → Prop) (E : EncodeError → Prop) (f : Action (Encoder B) α) :
    Prop where
  /-- The property is kept, also if the action fails. -/
  state : ∀ {e}, P e → P (f.run e).state
  /-- An error is of the kind. -/
  error : ∀ {e err}, P e → (f.run e).value = .error err → E err

namespace Safe

variable {f : Action (Encoder B) α}

theorem pure (a : α) : Safe P E (pure a) where
  state h := h
  error _ herr := by
    rw [Action.run_pure] at herr
    cases herr

theorem throw {err : EncodeError} (herr : E err) :
    Safe P E (throw err : Action (Encoder B) α) where
  state h := h
  error _ h := by
    rw [Action.run_throw] at h
    cases h
    exact herr

theorem ofExcept {r : Except EncodeError α} (h : ∀ err, r = .error err → E err) :
    Safe P E (Action.ofExcept r) where
  state h := h
  error _ herr := h _ herr

/-- The second action starts from a state with the property, as the first one keeps it. -/
theorem bind {k : α → Action (Encoder B) β} (h : Safe P E f) (hk : ∀ a, Safe P E (k a)) :
    Safe P E (f >>= k) where
  state {e} he := by
    cases hf : (f.run e).value with
    | ok a =>
      rw [Action.run_bind_of_ok hf]
      exact (hk a).state (h.state he)
    | error err =>
      rw [Action.run_bind_of_error hf]
      exact h.state he
  error {e err} he herr := by
    cases hf : (f.run e).value with
    | ok a =>
      rw [Action.run_bind_of_ok hf] at herr
      exact (hk a).error (h.state he) herr
    | error err' =>
      rw [Action.run_bind_of_error hf] at herr
      cases herr
      exact h.error he hf

theorem map {φ : α → β} (h : Safe P E f) : Safe P E (φ <$> f) := by
  rw [map_eq_pure_bind]
  exact h.bind fun a => .pure (φ a)

theorem get_bind {k : Encoder B → Action (Encoder B) α} (h : ∀ e, Safe P E (k e)) :
    Safe P E (get >>= k) where
  state {e} he := by
    rw [Action.run_get_bind]
    exact (h e).state he
  error {e err} he herr := by
    rw [Action.run_get_bind] at herr
    exact (h e).error he herr

theorem note_bind {event : LogEvent} {k : PUnit → Action (Encoder B) α} (h : Safe P E (k ⟨⟩)) :
    Safe P E (Action.note event >>= k) where
  state {e} he := by
    rw [Action.run_note_bind]
    exact h.state he
  error {e err} he herr := by
    rw [Action.run_note_bind] at herr
    exact h.error he herr

theorem modify {φ : Encoder B → Encoder B} (h : ∀ e, P e → P (φ e)) :
    Safe P E (modify φ : Action (Encoder B) PUnit) where
  state {e} he := by
    rw [Action.run_modify]
    exact h e he
  error _ herr := by
    rw [Action.run_modify] at herr
    cases herr

/-- What keeps two properties one by one keeps both together. -/
theorem and {Q : Encoder B → Prop} (hP : Safe P E f) (hQ : Safe Q E f) :
    Safe (fun e => P e ∧ Q e) E f where
  state he := ⟨hP.state he.1, hQ.state he.2⟩
  error he herr := hP.error he.1 herr

/-! ### Operations of the backend -/

/-- An operation of the backend is safe if what it leaves and what it fails with are allowed. -/
theorem onBackend {f : Action B.State α}
    (hstate : ∀ e, P e → P { e with backend := (f.run e.backend).state })
    (herror : ∀ s err, (f.run s).value = .error err → E err) : Safe P E (Encoder.onBackend f) where
  state he := hstate _ he
  error _ herr := herror _ _ herr

theorem onBackend_map {f : Action B.State α} (φ : α → β) (h : Safe P E (Encoder.onBackend f)) :
    Safe P E (Encoder.onBackend (φ <$> f)) where
  state {e} he := by
    rw [Encoder.onBackend, Action.run_zoom, Action.run_map]
    exact h.state he
  error {e err} he herr := by
    rw [Encoder.onBackend, Action.run_zoom, Action.run_map] at herr
    refine h.error he ?_
    rw [Encoder.onBackend, Action.run_zoom]
    cases hf : (f.run e.backend).value with
    | ok a =>
      rw [hf] at herr
      cases herr
    | error err' =>
      rw [hf] at herr
      cases herr
      rfl

/-- Looking up a variable is safe if a mismatch and a refusal are of the kind, and if a variable
that is created may be entered. -/
theorem resolve {allow : Bool} {sort : SolverSort} {v : Variable}
    (hmismatch : ∀ e found, P e → e.registry.get? v = some found → found.sort ≠ sort →
      E (.sortMismatch v.name sort found.sort))
    (hrefused : E (.variableNotPreregistered v.name))
    (hcreated : ∀ e x, P e → e.registry.get? v = none →
      ((B.createVariable v.name sort).run e.backend).value = .ok x →
      P { e with backend := ((B.createVariable v.name sort).run e.backend).state,
                 registry := e.registry.insert v ⟨sort, x⟩ })
    (hfailed : ∀ e err, P e →
      ((B.createVariable v.name sort).run e.backend).value = .error err →
      P { e with backend := ((B.createVariable v.name sort).run e.backend).state } ∧ E err) :
    Safe P E (Encoder.resolve allow sort v) := by
  suffices h : ∀ e, P e → P ((Encoder.resolve allow sort v).run e).state ∧
      ∀ err, ((Encoder.resolve allow sort v).run e).value = .error err → E err from
    ⟨fun he => (h _ he).1, fun he => (h _ he).2 _⟩
  intro e he
  cases hget : e.registry.get? v with
  | some found =>
    rw [Encoder.run_resolve_registered hget]
    refine ⟨he, fun err herr => ?_⟩
    cases has : found.as? sort with
    | some x =>
      rw [has] at herr
      cases herr
    | none =>
      rw [has] at herr
      cases herr
      exact hmismatch e found he hget (Object.as?_eq_none_iff.mp has)
  | none =>
    cases allow with
    | false =>
      rw [Encoder.run_resolve_refused hget]
      refine ⟨he, fun err herr => ?_⟩
      cases herr
      exact hrefused
    | true =>
      cases hx : ((B.createVariable v.name sort).run e.backend).value with
      | ok x =>
        rw [Encoder.run_resolve_created hget hx]
        exact ⟨hcreated e x he hget hx, nofun⟩
      | error err =>
        rw [Encoder.run_resolve_failed hget hx]
        obtain ⟨hstate, herr⟩ := hfailed e err he hx
        refine ⟨hstate, fun err' h => ?_⟩
        cases h
        exact herr

end Safe

/-! ## Upkeeps -/

/-- What has to be shown of a property of encoders and a kind of errors, if variables are looked up
only under sorts that they may be used under. -/
structure Upkeep (P : Encoder B → Prop) (E : EncodeError → Prop)
    (use : Variable → SolverSort → Prop) : Prop where
  core : ∀ {s : SolverSort} (op : CoreOp B.Obj s), Safe P E (Encoder.core op)
  rational : ∀ {s : SolverSort} (op : RationalOp B.Obj s), Safe P E (Encoder.rational op)
  resolve : ∀ (allow : Bool) {sort : SolverSort} {v : Variable}, use v sort →
    Safe P E (Encoder.resolve allow sort v)
  /-- A variable may be used under the sort of its declared type. -/
  typed : ∀ v : Variable, use v v.type.sort
  /-- Errors that the encoder raises itself are of the kind. -/
  raised : ∀ err, (∀ name expected found, err ≠ .sortMismatch name expected found) → E err
  setCreateVariables : ∀ (allow : Bool) (e : Encoder B), P e → P (e.setCreateVariables allow)
  /-- A new encoder on the same backend has the property. -/
  renew : ∀ (options : Options) (e : Encoder B), P e → P (.new e.backend options)

namespace Upkeep

variable {use : Variable → SolverSort → Prop}

/-- Two properties may be kept together. -/
theorem and {Q : Encoder B → Prop} (hP : Upkeep P E use) (hQ : Upkeep Q E use) :
    Upkeep (fun e => P e ∧ Q e) E use where
  core op := (hP.core op).and (hQ.core op)
  rational op := (hP.rational op).and (hQ.rational op)
  resolve allow _ _ hv := (hP.resolve allow hv).and (hQ.resolve allow hv)
  typed := hP.typed
  raised := hP.raised
  setCreateVariables allow e he :=
    ⟨hP.setCreateVariables allow e he.1, hQ.setCreateVariables allow e he.2⟩
  renew options e he := ⟨hP.renew options e he.1, hQ.renew options e he.2⟩

/-! ### Terms and formulas -/

theorem requireRationals (h : Upkeep P E use) : Safe P E Encoder.requireRationals := by
  refine .get_bind fun e => .ofExcept fun err herr => ?_
  rw [Capabilities.eq_of_requireRationals herr]
  exact h.raised _ nofun

/-- Where it is safe to look up variables, actions are safe if their uses are allowed. -/
theorem routine (h : Upkeep P E use)
    {find : (sort : SolverSort) → Variable → Action (Encoder B) (B.Obj sort)}
    (hfind : ∀ {sort : SolverSort} {v : Variable}, use v sort → Safe P E (find sort v)) :
    Routine find fun uses _ f => (∀ p ∈ uses, use p.1 p.2) → Safe P E f where
  pure a _ := .pure a
  raise herr _ := .throw (h.raised _ herr)
  bind hf hk huses := by
    obtain ⟨hfirst, hrest⟩ := List.forall_mem_append.mp huses
    exact (hf hfirst).bind fun a => hk a hrest
  check hcheck _ := by
    refine .get_bind fun e => .ofExcept fun err herr => ?_
    rw [hcheck _ err herr]
    exact h.raised _ nofun
  core op _ _ := h.core op
  rational op _ _ hf _ := by
    refine .get_bind fun e => ?_
    split
    · exact h.rational op
    · exact hf (List.forall_mem_nil _)
  lookUp v _ huses := hfind (huses (v, _) List.mem_cons_self)
  lookUpReal v huses := h.requireRationals.bind fun _ => hfind (huses (v, _) List.mem_cons_self)

/-- What is encoded looks up variables as the options say, which is safe. -/
theorem lookUp (h : Upkeep P E use) :
    FormulaRoutine fun uses _ f => (∀ p ∈ uses, use p.1 p.2) → Safe P E f where
  toRoutine := h.routine fun hv => .get_bind fun _ => h.resolve _ hv
  visit _ hf huses := .note_bind (hf huses)

/-- Every term is encoded safely, as it asks for the declared types of its variables. -/
theorem encodeTerm (h : Upkeep P E use) (t : Term) : Safe P E (Encoder.encodeTerm t) :=
  h.lookUp.encodeTerm t (t.forall_uses h.typed)

theorem encodeTerms (h : Upkeep P E use) (ts : List Term) : Safe P E (Encoder.encodeTerms ts) :=
  h.lookUp.encodeTerms ts (Term.forall_usesAll h.typed ts)

theorem compareNumerals (h : Upkeep P E use) (c : Comparison) (m n : Numeral B.Obj) :
    Safe P E (Encoder.compareNumerals c m n) :=
  h.lookUp.compareNumerals c m n (List.forall_mem_nil _)

theorem checkTerm (h : Upkeep P E use) (t : Term) : Safe P E (Encoder.checkTerm t) :=
  h.lookUp.checkTerm t (List.forall_mem_nil _)

/-- A formula is encoded safely if its literals are over variables that may be used as truth
values. -/
theorem encode (h : Upkeep P E use) (x : Expr) (hx : ∀ v ∈ x.literals, use v .bool) :
    Safe P E (Encoder.encode x) :=
  h.lookUp.encode x (x.forall_uses h.typed hx)

theorem encodeAll (h : Upkeep P E use) (xs : List Expr)
    (hxs : ∀ v ∈ Expr.literalsAll xs, use v .bool) : Safe P E (Encoder.encodeAll xs) :=
  h.lookUp.encodeAll xs (Expr.forall_usesAll h.typed xs hxs)

/-- A declaration asks for the declared type of its variable, so it is safe. -/
theorem declare (h : Upkeep P E use) (v : Variable) : Safe P E (Encoder.declare v) := by
  refine (h.routine (h.resolve true)).declare v fun p hp => ?_
  rw [List.mem_singleton.mp hp]
  exact h.typed v

/-! ### Sessions -/

/-- A step is safe whatever objects are held, if its literals may be used as truth values. -/
theorem action (h : Upkeep P E use) (held : List (Object B.Obj)) {step : Step}
    (hstep : ∀ v ∈ step.literals, use v .bool) : Safe P E (step.action held) := by
  cases step with
  | encode x => exact (h.encode x hstep).map
  | encodeTerm t => exact (h.encodeTerm t).map
  | declare v => exact (h.declare v).map
  | setCreateVariables allow =>
    exact (Safe.modify (h.setCreateVariables allow)).bind fun _ => .pure none
  | compare c l r =>
    unfold Step.action
    dsimp only
    cases held[l]?.bind Object.toNumeral? with
    | none => exact .pure none
    | some m =>
      cases held[r]?.bind Object.toNumeral? with
      | none => exact .pure none
      | some n => exact (h.compareNumerals c m n).map
  | operation op =>
    unfold Step.action
    dsimp only
    cases op.at? held with
    | none => exact .pure none
    | some op =>
      cases op with
      | core op => exact (Safe.onBackend_map _ (h.core op)).map
      | rational op => exact (Safe.onBackend_map _ (h.rational op)).map
  | restart options =>
    exact (Safe.modify (h.renew options)).bind fun _ => .pure none

/-- A step keeps the property, and its error is of the kind. -/
theorem perform (h : Upkeep P E use) {s : Session B} {step : Step}
    (hstep : ∀ v ∈ step.literals, use v .bool) (hs : P s.encoder) :
    P (Session.perform step s).state.encoder ∧
      ∀ err, (Session.perform step s).value = .error err → E err :=
  have hsafe := h.action s.held hstep
  ⟨hsafe.state hs, fun _ => hsafe.error hs⟩

/-- A session with rebindings that keep the property keeps the property, and all its errors are of
the kind, if its literals are over variables that may be used as truth values. -/
theorem takeAll (h : Upkeep P E use) (turns : List (Turn B)) {s : Session B}
    (hturns : ∀ v ∈ turns.flatMap Turn.literals, use v .bool)
    (hrebind : ∀ next, .rebind next ∈ turns → ∀ e, P e → P (Encoder.rebind next e).state)
    (hs : P s.encoder) :
    P (Session.takeAll turns s).state.encoder ∧
      ∀ err, .error err ∈ (Session.takeAll turns s).value → E err := by
  induction turns generalizing s with
  | nil => exact ⟨hs, nofun⟩
  | cons turn turns ih =>
    rw [List.flatMap_cons] at hturns
    obtain ⟨hturn, hturns⟩ := List.forall_mem_append.mp hturns
    have hfirst : P (Session.take turn s).state.encoder ∧
        ∀ err, (Session.take turn s).value = .error err → E err := by
      cases turn with
      | step step => exact h.perform hturn hs
      | rebind next => exact ⟨hrebind next List.mem_cons_self _ hs, nofun⟩
    obtain ⟨hstate, herrors⟩ := ih (s := (Session.take turn s).state) hturns
      (fun next hnext => hrebind next (List.mem_cons_of_mem turn hnext)) hfirst.1
    refine ⟨hstate, fun err herr => ?_⟩
    rcases List.mem_cons.mp herr with herr | herr
    · exact hfirst.2 err herr.symm
    · exact herrors err herr

/-- A session keeps the property, and all its errors are of the kind, if its literals are over
variables that may be used as truth values. -/
theorem performAll (h : Upkeep P E use) (steps : List Step) {s : Session B}
    (hsteps : ∀ v ∈ steps.flatMap Step.literals, use v .bool) (hs : P s.encoder) :
    P (Session.performAll steps s).state.encoder ∧
      ∀ err, .error err ∈ (Session.performAll steps s).value → E err := by
  rw [← Session.takeAll_map_step]
  refine h.takeAll (steps.map .step) ?_ ?_ hs
  · rw [List.flatMap_map]
    exact hsteps
  · intro next hnext
    obtain ⟨_, _, hstep⟩ := List.mem_map.mp hnext
    cases hstep

end Upkeep

/-! ## Backends and their capabilities -/

/-- What operations of a backend keep is kept when a variable is created. -/
theorem Backend.keeps_createVariable {P : B.State → Prop}
    (hcore : ∀ {s : SolverSort} (op : CoreOp B.Obj s) (b : B.State), P b → P (B.core op b).state)
    (hrational : ∀ {s : SolverSort} (op : RationalOp B.Obj s) (b : B.State),
      P b → P ((B.rational op).run b).state)
    (name : String) (sort : SolverSort) {b : B.State} (hb : P b) :
    P ((B.createVariable name sort).run b).state := by
  cases sort with
  | bool =>
    rw [createVariable, Action.run_lift]
    exact hcore (.boolVar name) b hb
  | int =>
    rw [createVariable, Action.run_lift]
    exact hcore (.intVar name) b hb
  | real => exact hrational (.var name) b hb

section Backends

variable {Q : Capabilities → B.State → Prop}
  (hcore : ∀ {c : Capabilities} {s : SolverSort} (op : CoreOp B.Obj s) (b : B.State),
    Q c b → Q c (B.core op b).state)
  (hrational : ∀ {c : Capabilities} {s : SolverSort} (op : RationalOp B.Obj s) (b : B.State),
    Q c b → Q c ((B.rational op).run b).state)
  (hnew : ∀ b, Q (B.capabilities b) b)

include hcore hrational hnew

/-- What holds between a backend and its capabilities, and what operations keep. -/
theorem upkeep_backend :
    Upkeep (B := B) (fun e => Q e.capabilities e.backend) (fun _ => True) (fun _ _ => True) where
  core op := by
    refine .onBackend (fun e he => ?_) fun _ _ _ => trivial
    rw [Action.run_lift]
    exact hcore op e.backend he
  rational op := .onBackend (fun e he => hrational op e.backend he) fun _ _ _ => trivial
  resolve allow sort v _ := by
    have hcreate : ∀ e : Encoder B, Q e.capabilities e.backend →
        Q e.capabilities ((B.createVariable v.name sort).run e.backend).state :=
      fun e => Backend.keeps_createVariable (P := Q e.capabilities) hcore hrational v.name sort
    exact .resolve (fun _ _ _ _ _ => trivial) trivial (fun e _ he _ _ => hcreate e he)
      fun e _ he _ => ⟨hcreate e he, trivial⟩
  typed _ := trivial
  raised _ _ := trivial
  setCreateVariables _ _ he := he
  renew _ e _ := hnew e.backend

/-- The capabilities that an encoder remembers are related to its backend as those of a new encoder
are. -/
theorem Session.capabilities_takeAll (turns : List (Turn B)) (backend : B.State)
    (options : Options) :
    let reached := (Session.takeAll turns (.start backend options)).state.encoder
    Q reached.capabilities reached.backend := by
  refine ((upkeep_backend (Q := Q) hcore hrational hnew).takeAll turns (s := .start backend options)
    (fun _ _ => trivial) (fun next _ e _ => ?_) (hnew backend)).1
  rw [Encoder.state_rebind]
  exact hnew next

end Backends

end SmtEncoding
