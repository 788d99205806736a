import SmtEncoding.Proofs.Creation
import SmtEncoding.Proofs.IntegerOnly
import SmtEncoding.Proofs.Repetition
import SmtEncoding.SmtLib.Backend

/-!
# Declaring a variable

To declare a variable is to look it up under the sort of its declared type while variables may be
created, and to set the options back in any case (`declare_eq_permitting`).

A declaration is refused before the backend hears of it, or it finds a registered object, or it asks
the backend for one object, which is registered unless the backend fails (`Declared`).  A backend
that fails cleanly (`Backend.FailsCleanly`) is then as it was before, and with it the whole encoder.
What is declared stays so.  Later references need no permission to create it, and they answer with
its object (`declare_atomic`).
-/

namespace SmtEncoding

variable {B : Backend} {α : Type}

/-! ## Options that are set back -/

theorem Action.run_modify_bind {σ : Type} (φ : σ → σ) (g : PUnit → Action σ α) (s : σ) :
    Action.run (modify φ >>= g) s = Action.run (g ⟨⟩) (φ s) := by
  rw [run_bind_of_ok (f := modify φ) (a := ⟨⟩) (by rw [run_modify]), run_modify]
  rfl

theorem ValueType.eq_double_of_sort {type : ValueType} (h : type.sort = .real) :
    type = .double := by
  cases type with
  | bool => cases h
  | integer => cases h
  | double => rfl

namespace Encoder

/-- Runs an action while variables may be created, and sets the options back whatever it ends
with. -/
def permitting (f : Action (Encoder B) α) : Action (Encoder B) α := do
  let allow := (← get).options.createVariables
  modify (setCreateVariables true)
  let outcome ← ExceptT.lift (ExceptT.run f)
  modify (setCreateVariables allow)
  Action.ofExcept outcome

/-- The object of a variable under the sort of its declared type.  It is created if the options
allow it. -/
def resolveDeclared (v : Variable) : Action (Encoder B) (Object B.Obj) := do
  let allow := (← get).options.createVariables
  match v.type with
  | .bool => Object.mk .bool <$> resolveBool allow v
  | _ => Numeral.toObject <$> resolveNumeral allow v

theorem run_permitting (f : Action (Encoder B) α) (e : Encoder B) :
    (permitting f).run e =
      ⟨(f.run (e.setCreateVariables true)).value,
        (f.run (e.setCreateVariables true)).state.setCreateVariables e.options.createVariables,
        (f.run (e.setCreateVariables true)).log⟩ := by
  have hlift := Action.run_lift (ExceptT.run f) (e.setCreateVariables true)
  rw [permitting, Action.run_get_bind, Action.run_modify_bind,
    Action.run_bind_of_ok (congrArg Reply.value hlift), hlift, Action.run_modify_bind]
  exact congrArg (Reply.mk _ _) (List.append_nil _)

/-! ## What a declaration does -/

/-- What the declaration of a variable may end with. -/
inductive Declared (e : Encoder B) (v : Variable) :
    Reply (Encoder B) (Except EncodeError (Object B.Obj)) → Prop where
  /-- It is refused before the backend hears of it. -/
  | refused (err : EncodeError) : Declared e v ⟨.error err, e, []⟩
  /-- It finds the variable registered. -/
  | found (o : Object B.Obj) : e.registry.get? v = some o → o.sort = v.type.sort →
    (v.type = .double → e.capabilities.rationals = true) → Declared e v ⟨.ok o, e, []⟩
  /-- It creates the variable and registers it. -/
  | created (x : B.Obj v.type.sort) : e.registry.get? v = none →
    (v.type = .double → e.capabilities.rationals = true) →
    ((B.createVariable v.name v.type.sort).run e.backend).value = .ok x →
    Declared e v ⟨.ok ⟨v.type.sort, x⟩,
      { e with backend := ((B.createVariable v.name v.type.sort).run e.backend).state,
               registry := e.registry.insert v ⟨v.type.sort, x⟩ },
      ((B.createVariable v.name v.type.sort).run e.backend).log ++ [.created v v.type.sort]⟩
  /-- The backend fails to create the variable. -/
  | failed (err : EncodeError) : e.registry.get? v = none →
    ((B.createVariable v.name v.type.sort).run e.backend).value = .error err →
    Declared e v ⟨.error err,
      { e with backend := ((B.createVariable v.name v.type.sort).run e.backend).state },
      ((B.createVariable v.name v.type.sort).run e.backend).log⟩

/-- A variable is declared by looking it up under the sort of its type, with rationals if it is a
double. -/
theorem run_declare (v : Variable) (e : Encoder B) :
    (declare v).run e =
      if v.type = .double ∧ e.capabilities.rationals = false then
        ⟨.error (.backendUnsupportedType .double), e, []⟩
      else (Object.mk v.type.sort <$> resolve true v.type.sort v).run e := by
  unfold declare
  cases htype : v.type with
  | bool => rfl
  | integer =>
    rw [resolveNumeral, htype, Functor.map_map]
    rfl
  | double =>
    rw [resolveNumeral, htype, map_bind, run_requireRationals_bind, Functor.map_map]
    cases e.capabilities.rationals with
    | true => rfl
    | false => rfl

theorem declared (v : Variable) (e : Encoder B) : Declared e v ((declare v).run e) := by
  rw [run_declare]
  split
  · exact .refused _
  · rename_i hallowed
    have hrationals : v.type = .double → e.capabilities.rationals = true := by
      intro htype
      by_contra hfalse
      exact hallowed ⟨htype, Bool.not_eq_true _ ▸ hfalse⟩
    rw [Action.run_map]
    cases hget : e.registry.get? v with
    | some o =>
      rw [run_resolve_registered hget]
      cases has : o.as? v.type.sort with
      | none => exact .refused _
      | some x =>
        rw [Object.as?_eq_some_iff] at has
        subst has
        exact .found _ hget rfl hrationals
    | none =>
      cases hx : ((B.createVariable v.name v.type.sort).run e.backend).value with
      | ok x =>
        rw [run_resolve_created hget hx]
        exact .created x hget hrationals hx
      | error err =>
        rw [run_resolve_failed hget hx]
        exact .failed err hget hx

theorem options_declare (v : Variable) (e : Encoder B) :
    ((declare v).run e).state.options = e.options := by
  generalize hreply : (declare v).run e = reply
  have h := hreply ▸ declared v e
  cases h <;> rfl

/-- Whether variables are created makes no difference to a declaration. -/
theorem run_declare_setCreateVariables (allow : Bool) (v : Variable) (e : Encoder B) :
    (declare v).run (e.setCreateVariables allow) =
      ⟨((declare v).run e).value, ((declare v).run e).state.setCreateVariables allow,
        ((declare v).run e).log⟩ := by
  have hcapabilities : (e.setCreateVariables allow).capabilities = e.capabilities := rfl
  rw [run_declare, run_declare, hcapabilities]
  split
  · rfl
  · rw [Action.run_map, Action.run_map]
    rfl

/-- To declare a variable is to look it up while variables may be created, and to set the options
back whatever comes of it. -/
theorem declare_eq_permitting (v : Variable) (e : Encoder B) :
    (permitting (resolveDeclared v)).run e = (declare v).run e := by
  have hpermitted : (resolveDeclared v).run (e.setCreateVariables true) =
      (declare v).run (e.setCreateVariables true) := Action.run_get_bind _ _
  rw [run_permitting, hpermitted, run_declare_setCreateVariables]
  have hoptions := options_declare v e
  generalize (declare v).run e = reply at hoptions
  obtain ⟨value, ⟨backend, capabilities, options, registry⟩, log⟩ := reply
  cases hoptions
  rfl

/-- After a declaration that succeeds, the variable is registered with the object that is answered,
which can be referred to. -/
theorem refer_of_declared {v : Variable} {e : Encoder B} {o : Object B.Obj}
    (h : ((declare v).run e).value = .ok o) :
    ((declare v).run e).state.registry.get? v = some o ∧
      ((declare v).run e).state.refer v v.type.sort o = .ok o := by
  have hrefer : ∀ {f : Encoder B}, o.sort = v.type.sort →
      (v.type = .double → f.capabilities.rationals = true) →
      f.refer v v.type.sort o = .ok o := by
    intro f hsort hrationals
    rw [refer, if_neg, if_pos hsort]
    rintro ⟨hreal, hfalse⟩
    rw [hrationals (ValueType.eq_double_of_sort hreal)] at hfalse
    cases hfalse
  generalize hreply : (declare v).run e = reply at h ⊢
  have hdeclared := hreply ▸ declared v e
  cases hdeclared with
  | refused err => cases h
  | found p hget hsort hrationals =>
    cases h
    exact ⟨hget, hrefer hsort hrationals⟩
  | created x hget hrationals hx =>
    cases h
    refine ⟨?_, hrefer rfl hrationals⟩
    rw [Registry.get?_insert, hget, if_pos rfl]
    rfl
  | failed err hget hx => cases h

end Encoder

/-! ## What stays declared -/

/-- An object that is registered is found in every registry that begins with the entries. -/
theorem Registry.get?_of_prefix {O : SolverSort → Type} {r t : Registry O} {v : Variable}
    {o : Object O} (h : r.get? v = some o) (hbegins : r.entries <+: t.entries) :
    t.get? v = some o := by
  obtain ⟨more, hmore⟩ := hbegins
  rw [get?, ← hmore, List.lookup_append]
  exact Option.or_eq_some_iff.mpr (.inl h)

namespace Session

/-- A step does not change what the encoder knows of its backend unless it gives the encoder up. -/
theorem capabilities_perform (s : Session B) (step : Step)
    (hstep : ∀ options, step ≠ .restart options) :
    (perform step s).state.encoder.capabilities = s.encoder.capabilities := by
  have hplain : step.Plain →
      (perform step s).state.encoder.capabilities = s.encoder.capabilities := fun h =>
    keeps_perform (P := fun e => e.capabilities = s.encoder.capabilities)
      (fun hmove he => hmove.capabilities_eq.trans he) (fun _ _ he => he) h rfl
  cases step with
  | encode _ | encodeTerm _ | declare _ | setCreateVariables _ | compare _ _ _ =>
    exact hplain trivial
  | operation op =>
    show ((Step.action s.held (.operation op)).run s.encoder).state.capabilities = _
    unfold Step.action
    dsimp only
    cases op.at? s.held with
    | none => rfl
    | some op =>
      dsimp only
      rw [Action.run_map]
      rfl
  | restart options => exact absurd rfl (hstep options)

theorem capabilities_performAll {steps : List Step}
    (hsteps : ∀ options, .restart options ∉ steps) (s : Session B) :
    (performAll steps s).state.encoder.capabilities = s.encoder.capabilities := by
  induction steps generalizing s with
  | nil => rfl
  | cons step steps ih =>
    have hfirst := capabilities_perform s step fun options heq =>
      hsteps options (heq ▸ List.mem_cons_self)
    exact (ih (fun options h => hsteps options (List.mem_cons_of_mem step h)) _).trans hfirst

end Session

/-! ## Atomic declarations -/

/-- A backend that fails to create an object is as it was before. -/
def Backend.FailsCleanly (B : Backend) : Prop :=
  ∀ (name : String) (sort : SolverSort) (s : B.State) (err : EncodeError),
    ((B.createVariable name sort).run s).value = .error err →
      ((B.createVariable name sort).run s).state = s

/-- Backends that always create objects fail cleanly, and so do those without rational
operations. -/
theorem failsCleanly_of_mem :
    ∀ B ∈ [SmtLib.backend, Recording.backend, Recording.minimal], B.FailsCleanly := by
  have hsmt : SmtLib.backend.FailsCleanly := by
    rintro name sort s err herr
    cases sort <;> exact absurd herr Action.value_lift_ne_error
  have hrecording : Recording.backend.FailsCleanly := by
    rintro name sort s err herr
    cases sort <;> exact absurd herr Action.value_lift_ne_error
  have hminimal : Recording.minimal.FailsCleanly := by
    rintro name sort s err herr
    cases sort with
    | bool => exact absurd herr Action.value_lift_ne_error
    | int => exact absurd herr Action.value_lift_ne_error
    | real => rfl
  exact List.forall_mem_cons.mpr ⟨hsmt, List.forall_mem_cons.mpr ⟨hrecording,
    List.forall_mem_singleton.mpr hminimal⟩⟩

/-- The operation that asks for an object for a name. -/
def Operation.creation {O : SolverSort → Type} (name : String) : SolverSort → Operation O
  | .bool => .core (.boolVar name)
  | .int => .core (.intVar name)
  | .real => .rational (.var name)

theorem calls_creation (name : String) (sort : SolverSort) (s : Traced B) :
    ((B.traced.createVariable name sort).run s).state.calls =
      s.calls ++ [Operation.creation name sort] := by
  cases sort with
  | bool => rw [Backend.createVariable, Action.run_lift]; rfl
  | int => rw [Backend.createVariable, Action.run_lift]; rfl
  | real => rfl

namespace Encoder

variable {v : Variable} {e : Encoder B}

/-- A declaration that fails changes nothing. -/
theorem state_of_declare_error (hB : B.FailsCleanly) {err : EncodeError}
    (herr : ((declare v).run e).value = .error err) : ((declare v).run e).state = e := by
  generalize hreply : (declare v).run e = reply at herr ⊢
  have hdeclared := hreply ▸ declared v e
  cases hdeclared with
  | refused err => rfl
  | found o _ _ _ => cases herr
  | created x _ _ _ => cases herr
  | failed err _ hx => rw [hB _ _ _ _ hx]

/-- A declaration of a registered variable that succeeds answers with its object and changes
nothing. -/
theorem declare_of_registered {o p : Object B.Obj} (ho : e.registry.get? v = some o)
    (hp : ((declare v).run e).value = .ok p) : p = o ∧ ((declare v).run e).state = e := by
  generalize hreply : (declare v).run e = reply at hp ⊢
  have hdeclared := hreply ▸ declared v e
  cases hdeclared with
  | refused err => cases hp
  | found q hq _ _ =>
    cases hp
    exact ⟨Option.some.inj (hq.symm.trans ho), rfl⟩
  | created x hnone _ _ => cases hnone.symm.trans ho
  | failed err _ _ => cases hp

/-- Another declaration that succeeds creates one object and registers it. -/
theorem declare_of_unregistered {p : Object B.Obj} (hnone : e.registry.get? v = none)
    (hp : ((declare v).run e).value = .ok p) :
    let creation := (B.createVariable v.name v.type.sort).run e.backend
    (∃ x, creation.value = .ok x ∧ p = ⟨v.type.sort, x⟩) ∧
      ((declare v).run e).state =
        { e with backend := creation.state, registry := e.registry.insert v p } := by
  generalize hreply : (declare v).run e = reply at hp ⊢
  have hdeclared := hreply ▸ declared v e
  cases hdeclared with
  | refused err => cases hp
  | found q hq _ _ => cases hnone.symm.trans hq
  | created x _ _ hx =>
    cases hp
    exact ⟨⟨x, hx, rfl⟩, rfl⟩
  | failed err _ _ => cases hp

/-- What is declared can be referred to after any steps that keep the encoder. -/
theorem refer_of_performAll {p : Object B.Obj} (hp : ((declare v).run e).value = .ok p)
    (held : List (Object B.Obj)) {steps : List Step}
    (hsteps : ∀ options, .restart options ∉ steps) :
    let later := (Session.performAll steps ⟨((declare v).run e).state, held⟩).state.encoder
    later.registry.get? v = some p ∧ later.refer v v.type.sort p = .ok p := by
  intro later
  obtain ⟨hget, hrefer⟩ := refer_of_declared hp
  have hcapabilities : later.capabilities = ((declare v).run e).state.capabilities :=
    Session.capabilities_performAll hsteps ⟨_, held⟩
  refine ⟨Registry.get?_of_prefix hget (Session.registry_prefix_performAll hsteps ⟨_, held⟩), ?_⟩
  rw [refer, hcapabilities]
  exact hrefer

end Encoder

open Encoder

/-- A declaration is atomic, on every backend and from every state of an encoder.  It is the same as
looking the variable up while variables may be created and setting the options back.  The options
are as before, whatever it ends with.  If it fails, nothing has changed, provided that the backend
fails cleanly, as the backends here do.  Where the variable is registered it answers with that
object without asking the backend; otherwise it asks for one object, of the sort of the declared
type, and enters just that one.  After any later steps that keep the encoder, a reference to the
variable answers with the same object and changes nothing, although no variable may be created. -/
theorem declare_atomic (v : Variable) :
    (∀ B ∈ [SmtLib.backend, Recording.backend, Recording.minimal], B.FailsCleanly) ∧
    (∀ (B : Backend) (e : Encoder B),
      let reply := (declare v).run e
      (permitting (resolveDeclared v)).run e = reply ∧ reply.state.options = e.options ∧
      (B.FailsCleanly → ∀ err, reply.value = .error err → reply.state = e) ∧
      (∀ o p, e.registry.get? v = some o → reply.value = .ok p → p = o ∧ reply.state = e) ∧
      (∀ p, e.registry.get? v = none → reply.value = .ok p →
        let creation := (B.createVariable v.name v.type.sort).run e.backend
        (∃ x, creation.value = .ok x ∧ p = ⟨v.type.sort, x⟩) ∧
        reply.state =
          { e with backend := creation.state, registry := e.registry.insert v p }) ∧
      ∀ p, reply.value = .ok p → ∀ (held : List (Object B.Obj)) (steps : List Step),
        (∀ options, .restart options ∉ steps) →
        let strict :=
          (Session.performAll steps ⟨reply.state, held⟩).state.encoder.setCreateVariables false
        (v.type = .bool → (Object.mk .bool <$> encode (.literal v true)).run strict =
          ⟨.ok p, strict, [.encoding .literal]⟩) ∧
        (v.type ≠ .bool → (Numeral.toObject <$> encodeTerm (.var v)).run strict =
          ⟨.ok p, strict, []⟩)) ∧
    ∀ (B : Backend) (e : Encoder B.traced) (p : Object B.Obj),
      ((declare v).run e).value = .ok p →
      ((declare v).run e).state.backend.calls = e.backend.calls ++
        if e.registry.get? v = none then [.creation v.name v.type.sort] else [] := by
  refine ⟨failsCleanly_of_mem, fun B e => ⟨declare_eq_permitting v e, options_declare v e,
    fun hB err => state_of_declare_error hB, fun o p => declare_of_registered,
    fun p => declare_of_unregistered, fun p hp held steps hsteps => ?_⟩, fun B e p hp => ?_⟩
  · intro strict
    obtain ⟨hget, hrefer⟩ := refer_of_performAll hp held hsteps
    have hstrict : strict.refer v v.type.sort p = .ok p := hrefer
    refine ⟨fun htype => ?_, fun htype => ?_⟩
    · rw [htype] at hstrict
      rw [run_literal_refer (e := strict) hget, ← hstrict]
      rfl
    · rw [run_term_refer (e := strict) hget htype, hstrict]
  · cases hget : e.registry.get? v with
    | none =>
      rw [if_pos rfl, (declare_of_unregistered hget hp).2]
      exact calls_creation v.name v.type.sort e.backend
    | some o =>
      rw [if_neg nofun, (declare_of_registered hget hp).2, List.append_nil]

/-- An encoder that creates no variables, on a backend that claims rationals and has none. -/
def claiming : Encoder Recording.minimal := .new .empty .strict

/-- A number that cannot be declared there, and the negation of a truth value. -/
def afterwards : List Step :=
  [.declare ⟨"r", .double⟩, .encode (.not (.literal ⟨"b", .bool⟩ true))]

/-- The backend fails to create the number, and nothing has changed.  The truth value is declared
although no variables are created, and it is found again after more steps. -/
theorem declare_atomic_claiming :
    let number : Variable := ⟨"r", .double⟩
    let truth : Variable := ⟨"b", .bool⟩
    let object : Object Recording.Handle := ⟨.bool, (0 : Nat)⟩
    let declaration := (declare truth).run claiming
    let later := (Session.performAll afterwards ⟨declaration.state, []⟩).state.encoder
    claiming.capabilities.rationals = true ∧
    ((declare number).run claiming).state = claiming ∧
    declaration.state.registry = claiming.registry.insert truth object ∧
    ((declare truth).run later).state = later ∧
    (Object.mk .bool <$> encode (.literal truth true)).run (later.setCreateVariables false) =
      ⟨.ok object, later.setCreateVariables false, [.encoding .literal]⟩ := by
  intro number truth object declaration later
  obtain ⟨hclean, hnumber, _⟩ := declare_atomic number
  obtain ⟨_, htruth, _⟩ := declare_atomic truth
  have hminimal : Recording.minimal.FailsCleanly := hclean _ (by simp)
  have hdeclared : declaration.value = .ok object := rfl
  have hkept : ∀ options, .restart options ∉ afterwards := by simp [afterwards]
  obtain ⟨_, _, hfailed, _⟩ := hnumber Recording.minimal claiming
  obtain ⟨_, _, _, _, hcreated, hlater⟩ := htruth Recording.minimal claiming
  obtain ⟨_, hstate⟩ := hcreated object rfl hdeclared
  obtain ⟨_, _, _, hfound, _⟩ := htruth Recording.minimal later
  exact ⟨rfl, hfailed hminimal (.backendUnsupportedType .double) rfl,
    congrArg Encoder.registry hstate, (hfound object object rfl rfl).2,
    (hlater object hdeclared [] afterwards hkept).1 rfl⟩

end SmtEncoding
