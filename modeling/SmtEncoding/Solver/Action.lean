import SmtEncoding.Solver.Log

/-!
# Calls and actions

A `Call` changes a state, reports events and answers with a value.  An `Action` is a call that may
fail: it answers with a value or an error.  What it did to the state and what it reported before
it failed stays.

`Call.zoom` runs a call on a part of a larger state.

Calls are a lawful monad.  `Action.run_bind` is the rule for two actions one after the other: the
second runs only if the first did not fail, on the state that the first left.
-/

namespace SmtEncoding

/-! ## Calls -/

/-- What a call leaves behind. -/
structure Reply (σ α : Type) where
  /-- The answer. -/
  value : α
  /-- The state after the call. -/
  state : σ
  /-- The events it reported, in order. -/
  log : List LogEvent
deriving Repr

/-- A call that always answers. -/
def Call (σ α : Type) : Type := σ → Reply σ α

namespace Call

variable {σ τ α β : Type}

instance : Monad (Call σ) where
  pure a := fun s => ⟨a, s, []⟩
  bind f g := fun s =>
    let first := f s
    let second := g first.value first.state
    ⟨second.value, second.state, first.log ++ second.log⟩

instance : MonadStateOf σ (Call σ) where
  get := fun s => ⟨s, s, []⟩
  set s := fun _ => ⟨(), s, []⟩
  modifyGet f := fun s => ⟨(f s).1, (f s).2, []⟩

/-- Reports an event. -/
def note (e : LogEvent) : Call σ Unit := fun s => ⟨(), s, [e]⟩

/-- Runs a call on the part of a state that `get` reads and `set` writes. -/
def zoom (get : τ → σ) (set : σ → τ → τ) (f : Call σ α) : Call τ α := fun t =>
  let reply := f (get t)
  ⟨reply.value, set reply.state t, reply.log⟩

@[simp] theorem pure_apply (a : α) (s : σ) : (pure a : Call σ α) s = ⟨a, s, []⟩ := rfl

/-- A call goes on from the state that the one before it leaves, and so does the log. -/
theorem bind_apply (f : Call σ α) (g : α → Call σ β) (s : σ) :
    (f >>= g) s = ⟨(g (f s).value (f s).state).value, (g (f s).value (f s).state).state,
      (f s).log ++ (g (f s).value (f s).state).log⟩ := rfl

instance : LawfulMonad (Call σ) := LawfulMonad.mk' (Call σ)
  (fun f => funext fun s => by
    show (f >>= fun a => pure (id a)) s = f s
    simp [bind_apply])
  (fun a g => funext fun s => by simp [bind_apply])
  (fun f g h => funext fun s => by simp [bind_apply, List.append_assoc])

end Call

/-! ## Actions -/

/-- A call that may fail. -/
abbrev Action (σ : Type) : Type → Type := ExceptT EncodeError (Call σ)

namespace Action

variable {σ τ α β : Type}

/-- Runs an action from a state. -/
def run (f : Action σ α) (s : σ) : Reply σ (Except EncodeError α) := ExceptT.run f s

/-- Reports an event. -/
def note (e : LogEvent) : Action σ Unit := ExceptT.lift (Call.note e)

/-- Answers with a result, without touching the state. -/
def ofExcept (result : Except EncodeError α) : Action σ α := ExceptT.mk (pure result)

/-- Runs an action on the part of a state that `get` reads and `set` writes. -/
def zoom (get : τ → σ) (set : σ → τ → τ) (f : Action σ α) : Action τ α :=
  ExceptT.mk (Call.zoom get set (ExceptT.run f))

/-- Actions that do the same from every state are the same. -/
theorem ext {f g : Action σ α} (h : ∀ s, run f s = run g s) : f = g := funext h

@[simp] theorem run_pure (a : α) (s : σ) : run (pure a) s = ⟨.ok a, s, []⟩ := rfl

@[simp] theorem run_throw (e : EncodeError) (s : σ) :
    run (throw e : Action σ α) s = ⟨.error e, s, []⟩ := rfl

@[simp] theorem run_note (e : LogEvent) (s : σ) : run (note e) s = ⟨.ok (), s, [e]⟩ := rfl

@[simp] theorem run_get (s : σ) : run (get : Action σ σ) s = ⟨.ok s, s, []⟩ := rfl

@[simp] theorem run_modify (f : σ → σ) (s : σ) :
    run (modify f : Action σ PUnit) s = ⟨.ok ⟨⟩, f s, []⟩ := rfl

@[simp] theorem run_ofExcept (result : Except EncodeError α) (s : σ) :
    run (ofExcept result) s = ⟨result, s, []⟩ := rfl

@[simp] theorem run_lift (f : Call σ α) (s : σ) :
    run (ExceptT.lift f) s = ⟨.ok (f s).value, (f s).state, (f s).log⟩ := by
  show (f >>= fun a => pure (Except.ok a)) s = _
  simp [Call.bind_apply]

/-- An action on a part of the state leaves the rest of it alone. -/
@[simp] theorem run_zoom (get : τ → σ) (set : σ → τ → τ) (f : Action σ α) (t : τ) :
    run (zoom get set f) t =
      ⟨(run f (get t)).value, set (run f (get t)).state t, (run f (get t)).log⟩ := rfl

/-- The second of two actions runs if the first one did not fail. -/
theorem run_bind (f : Action σ α) (g : α → Action σ β) (s : σ) :
    run (f >>= g) s = match (run f s).value with
      | .ok a => ⟨(run (g a) (run f s).state).value, (run (g a) (run f s).state).state,
          (run f s).log ++ (run (g a) (run f s).state).log⟩
      | .error e => ⟨.error e, (run f s).state, (run f s).log⟩ := by
  show (ExceptT.run f >>= ExceptT.bindCont g) s = _
  rw [Call.bind_apply]
  show _ = match (f s).value with
    | .ok a => _
    | .error e => _
  cases h : (f s).value with
  | ok a => simp only [ExceptT.run, h]; rfl
  | error e => simp only [ExceptT.run, h, ExceptT.bindCont, Call.pure_apply, List.append_nil]; rfl

/-- After an action that answers, the next one goes on from where it ends. -/
theorem run_bind_of_ok {f : Action σ α} {g : α → Action σ β} {s : σ} {a : α}
    (h : (run f s).value = .ok a) :
    run (f >>= g) s = ⟨(run (g a) (run f s).state).value, (run (g a) (run f s).state).state,
      (run f s).log ++ (run (g a) (run f s).state).log⟩ := by
  rw [run_bind, h]

/-- After an action that fails, nothing else is done. -/
theorem run_bind_of_error {f : Action σ α} {g : α → Action σ β} {s : σ} {e : EncodeError}
    (h : (run f s).value = .error e) :
    run (f >>= g) s = ⟨.error e, (run f s).state, (run f s).log⟩ := by
  rw [run_bind, h]

theorem run_get_bind (g : σ → Action σ β) (s : σ) : run (get >>= g) s = run (g s) s := by
  rw [run_bind_of_ok (f := get) (a := s) (by rw [run_get]), run_get]
  rfl

/-- A line is reported before all that comes after it. -/
theorem run_note_bind (e : LogEvent) (g : PUnit → Action σ β) (s : σ) :
    run (note e >>= g) s =
      ⟨(run (g ⟨⟩) s).value, (run (g ⟨⟩) s).state, e :: (run (g ⟨⟩) s).log⟩ := by
  rw [run_bind_of_ok (f := note e) (a := ⟨⟩) (by rw [run_note]), run_note]
  rfl

/-- A function of the answer changes neither the state nor the log. -/
theorem run_map (g : α → β) (f : Action σ α) (s : σ) :
    run (g <$> f) s = ⟨(run f s).value.map g, (run f s).state, (run f s).log⟩ := by
  rw [map_eq_pure_bind, run_bind]
  cases (run f s).value with
  | ok a => simp [Except.map]
  | error e => simp [Except.map]

end Action

end SmtEncoding
