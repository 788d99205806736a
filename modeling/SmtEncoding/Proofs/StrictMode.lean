import SmtEncoding.Proofs.Creation

/-!
# Encoding without creating variables

From one state, encoding is run twice: once where variables are created, and once where they are
not.  The two runs do the same until a variable is met that is not registered.  There the first one
creates it, and the second one ends.  `Cut` says this of two actions.  An action is cut off against
itself as a routine (`Cut.routine`), so whatever is encoded is.

On a recording backend the record shows where that is.  What the second run adds is what the first
one adds before its first entry that asks for a variable, and the name in that entry is the one that
the second run fails with (`strict_cut_at_creation`).
-/

namespace SmtEncoding.Recording

variable {α β : Type}

/-! ## Runs that are cut off -/

/-- No entry asks for a variable. -/
def Quiet (entries : List Entry) : Prop := ∀ entry ∈ entries, entry.request? = none

/-- The encoder with more entries in its record. -/
def extend (e : Encoder backend) (added : List Entry) : Encoder backend :=
  { e with backend := { e.backend with entries := e.backend.entries ++ added } }

theorem extend_nil (e : Encoder backend) : extend e [] = e := by
  rw [extend, List.append_nil]

theorem extend_append (e : Encoder backend) (first second : List Entry) :
    extend (extend e first) second = extend e (first ++ second) := by
  simp only [extend, List.append_assoc]

/-- What a strict run leaves, against what a permissive run from the same state leaves. -/
inductive CutAt (e : Encoder backend)
    (strict permissive : Reply (Encoder backend) (Except EncodeError α)) : Prop where
  /-- No variable is created, and both runs do the same. -/
  | whole (added : List Entry) : Quiet added →
    strict.state = (extend e added).setCreateVariables false →
    permissive.state = (extend e added).setCreateVariables true →
    strict.value = permissive.value → CutAt e strict permissive
  /-- The strict run ends where the permissive run creates a variable. -/
  | short (before after : List Entry) (name : String) (sort : SolverSort) : Quiet before →
    strict.state = (extend e before).setCreateVariables false →
    permissive.state.backend.entries =
      e.backend.entries ++ (before ++ request name sort :: after) →
    strict.value = .error (.variableNotPreregistered name) → CutAt e strict permissive

/-- The first of two actions, run where variables are not created, is the second one, run where
they are, cut off at the first creation. -/
structure Cut (f g : Action (Encoder backend) α) : Prop where
  cutAt : ∀ e : Encoder backend,
    CutAt e (f.run (e.setCreateVariables false)) (g.run (e.setCreateVariables true))
  /-- The second action takes no entry back. -/
  grows : ∀ e : Encoder backend, ∃ e' : Encoder backend,
    (g.run (e.setCreateVariables true)).state = e'.setCreateVariables true ∧
      e.backend.entries <+: e'.backend.entries

namespace Cut

variable {f g : Action (Encoder backend) α}

/-- An action that only answers does the same in both runs. -/
theorem answer {r : Except EncodeError α} (hf : ∀ e, f.run e = ⟨r, e, []⟩) : Cut f f where
  cutAt e := by
    refine .whole [] nofun ?_ ?_ ?_
    · rw [hf, extend_nil]
    · rw [hf, extend_nil]
    · rw [hf, hf]
  grows e := ⟨e, by rw [hf], List.prefix_rfl⟩

theorem pure (a : α) : Cut (pure a) (pure a) := answer fun _ => rfl

/-- An error of the encoder itself ends both runs alike. -/
theorem throw (err : EncodeError) :
    Cut (throw err : Action (Encoder backend) α) (throw err) := answer fun _ => rfl

/-- A result that depends on no state is the same in both runs. -/
theorem ofExcept (r : Except EncodeError α) : Cut (Action.ofExcept r) (Action.ofExcept r) :=
  answer fun _ => rfl

/-- Where the first parts are not cut off, the second parts go on from the same state.  Where they
are, the first action has failed already, and the second one adds entries at the end. -/
theorem bind {k l : α → Action (Encoder backend) β} (h : Cut f g) (hk : ∀ a, Cut (k a) (l a)) :
    Cut (f >>= k) (g >>= l) where
  cutAt e := by
    cases h.cutAt e with
    | whole added hquiet hstrict hpermissive hvalue =>
      cases hf : (f.run (e.setCreateVariables false)).value with
      | error err =>
        rw [Action.run_bind_of_error hf, Action.run_bind_of_error (hvalue ▸ hf)]
        exact .whole added hquiet hstrict hpermissive rfl
      | ok a =>
        rw [Action.run_bind_of_ok hf, Action.run_bind_of_ok (hvalue ▸ hf), hstrict, hpermissive]
        have hquiet' : ∀ {more}, Quiet more → Quiet (added ++ more) := fun hmore =>
          List.forall_mem_append.mpr ⟨hquiet, hmore⟩
        cases (hk a).cutAt (extend e added) with
        | whole more hmore hstrict hpermissive hvalue =>
          rw [extend_append] at hstrict hpermissive
          exact .whole (added ++ more) (hquiet' hmore) hstrict hpermissive hvalue
        | short before after name sort hmore hstrict hentries hvalue =>
          rw [extend_append] at hstrict
          refine .short (added ++ before) after name sort (hquiet' hmore) hstrict
            (hentries.trans ?_) hvalue
          simp only [extend, List.append_assoc]
    | short before after name sort hquiet hstrict hentries hvalue =>
      rw [Action.run_bind_of_error hvalue]
      cases hg : (g.run (e.setCreateVariables true)).value with
      | error err =>
        rw [Action.run_bind_of_error hg]
        exact .short before after name sort hquiet hstrict hentries rfl
      | ok a =>
        rw [Action.run_bind_of_ok hg]
        obtain ⟨e₁, hfirst, _⟩ := h.grows e
        obtain ⟨e₂, hsecond, more, hmore⟩ := (hk a).grows e₁
        rw [hfirst] at hentries
        rw [hfirst, hsecond]
        refine .short before (after ++ more) name sort hquiet hstrict ?_ rfl
        calc e₂.backend.entries
          _ = e₁.backend.entries ++ more := hmore.symm
          _ = (e.backend.entries ++ (before ++ request name sort :: after)) ++ more := by
            rw [← hentries]
            rfl
          _ = e.backend.entries ++ (before ++ request name sort :: (after ++ more)) := by
            simp only [List.append_assoc, List.cons_append]
  grows e := by
    obtain ⟨e₁, hfirst, hprefix⟩ := h.grows e
    cases hg : (g.run (e.setCreateVariables true)).value with
    | error err =>
      rw [Action.run_bind_of_error hg]
      exact ⟨e₁, hfirst, hprefix⟩
    | ok a =>
      obtain ⟨e₂, hsecond, hprefix'⟩ := (hk a).grows e₁
      rw [Action.run_bind_of_ok hg, hfirst]
      exact ⟨e₂, hsecond, hprefix.trans hprefix'⟩

/-- The options are read as they are in each of the two runs. -/
theorem get_bind {k l : Encoder backend → Action (Encoder backend) α}
    (h : ∀ e : Encoder backend,
      Cut (k (e.setCreateVariables false)) (l (e.setCreateVariables true))) :
    Cut (get >>= k) (get >>= l) where
  cutAt e := by
    rw [Action.run_get_bind, Action.run_get_bind]
    exact (h e).cutAt e
  grows e := by
    rw [Action.run_get_bind]
    exact (h e).grows e

/-- A line of the log leaves both runs where they are. -/
theorem note_bind {event : LogEvent} {k l : PUnit → Action (Encoder backend) α}
    (h : Cut (k ⟨⟩) (l ⟨⟩)) : Cut (Action.note event >>= k) (Action.note event >>= l) where
  cutAt e := by
    rw [Action.run_note_bind, Action.run_note_bind]
    cases h.cutAt e with
    | whole added hquiet hstrict hpermissive hvalue =>
      exact .whole added hquiet hstrict hpermissive hvalue
    | short before after name sort hquiet hstrict hentries hvalue =>
      exact .short before after name sort hquiet hstrict hentries hvalue
  grows e := by
    rw [Action.run_note_bind]
    exact h.grows e

/-! ### Operations and variables -/

/-- An operation that asks for no variable adds one entry in both runs. -/
theorem operation {entry : Entry} (hentry : entry.request? = none) :
    Cut (Encoder.onBackend (ExceptT.lift (record entry)))
      (Encoder.onBackend (ExceptT.lift (record entry))) where
  cutAt _ := .whole [entry] (List.forall_mem_singleton.mpr hentry) rfl rfl rfl
  grows e := ⟨extend e [entry], rfl, List.prefix_append e.backend.entries [entry]⟩

/-- A core operation is carried out alike in both runs, if it asks for no variable. -/
theorem core {s : SolverSort} (op : CoreOp Handle s) (hop : (Operation.core op).request? = none) :
    Cut (Encoder.core (B := backend) op) (Encoder.core (B := backend) op) :=
  operation hop

theorem rational {s : SolverSort} (op : RationalOp Handle s)
    (hop : (Operation.rational op).request? = none) :
    Cut (Encoder.rational (B := backend) op) (Encoder.rational (B := backend) op) :=
  operation hop

/-- A variable that is not registered is created in the one run and ends the other. -/
theorem resolve (sort : SolverSort) (v : Variable) :
    Cut (Encoder.resolve (B := backend) false sort v) (Encoder.resolve true sort v) := by
  constructor
  · intro e
    let strict := e.setCreateVariables false
    let permissive := e.setCreateVariables true
    cases hget : e.registry.get? v with
    | some found =>
      rw [Encoder.run_resolve_registered (e := strict) hget,
        Encoder.run_resolve_registered (e := permissive) hget]
      exact .whole [] nofun (by rw [extend_nil]) (by rw [extend_nil]) rfl
    | none =>
      rw [Encoder.run_resolve_refused (e := strict) hget,
        Encoder.run_resolve_created (e := permissive) hget (by rw [run_createVariable])]
      refine .short [] [] v.name sort nofun ?_ ?_ rfl
      · rw [extend_nil]
      · rw [run_createVariable]
        rfl
  · intro e
    let permissive := e.setCreateVariables true
    cases hget : e.registry.get? v with
    | some found =>
      rw [Encoder.run_resolve_registered (e := permissive) hget]
      exact ⟨e, rfl, List.prefix_rfl⟩
    | none =>
      rw [Encoder.run_resolve_created (e := permissive) hget (by rw [run_createVariable]),
        run_createVariable]
      exact ⟨{ extend e [request v.name sort] with registry := e.registry.insert v _ }, rfl,
        List.prefix_append e.backend.entries [request v.name sort]⟩

theorem requireRationals :
    Cut (Encoder.requireRationals (B := backend)) (Encoder.requireRationals (B := backend)) :=
  .get_bind fun _ => .ofExcept _

/-! ### Terms and formulas -/

/-- Both runs look up a variable as their options say. -/
theorem lookUp (sort : SolverSort) (v : Variable) :
    Cut (Encoder.lookUp (B := backend) sort v) (Encoder.lookUp sort v) :=
  .get_bind fun _ => resolve sort v

/-- Whatever is encoded is cut off where a variable is created. -/
theorem routine : FormulaRoutine (B := backend) fun _ _ f => Cut f f where
  pure := pure
  raise _ := .throw _
  bind hf hk := hf.bind hk
  visit _ hf := .note_bind hf
  check _ := .get_bind fun _ => .ofExcept _
  core op hop := core op hop
  rational op f hop hf := by
    refine .get_bind fun e => ?_
    show Cut (if e.capabilities.rationals then Encoder.rational (B := backend) op else f)
      (if e.capabilities.rationals then Encoder.rational op else f)
    split
    · exact rational op hop
    · exact hf
  lookUp v _ := lookUp _ v
  lookUpReal v := requireRationals.bind fun _ => lookUp .real v

theorem encodeTerm (t : Term) : Cut (Encoder.encodeTerm (B := backend) t) (Encoder.encodeTerm t) :=
  routine.encodeTerm t

/-- A formula is encoded alike in both runs, up to the first variable that one of them creates. -/
theorem encode (x : Expr) : Cut (Encoder.encode (B := backend) x) (Encoder.encode x) :=
  routine.encode x

end Cut

/-! ## What the record shows -/

/-- From a state, a strict run of an action is its permissive run cut off at the first entry that
asks for a variable.  If there is no such entry, both runs have one outcome and leave one record
and one registry.  If there is one, the strict run has added the entries before it, and it fails
with the name in it.  In any case it leaves the registry as it is, and it answers only with what
the permissive run answers with. -/
def StrictCut (e : Encoder backend) (f : Action (Encoder backend) α) : Prop :=
  let strict := f.run (e.setCreateVariables false)
  let permissive := f.run (e.setCreateVariables true)
  ∃ added, permissive.state.backend.entries = e.backend.entries ++ added ∧
    (match added.findSome? Operation.request? with
      | none => strict.value = permissive.value ∧
          strict.state.backend = permissive.state.backend ∧
          strict.state.registry = permissive.state.registry
      | some (name, _) => strict.value = .error (.variableNotPreregistered name) ∧
          strict.state.backend.entries =
            e.backend.entries ++ added.takeWhile (·.request?.isNone)) ∧
    strict.state.registry = e.registry ∧
    ∀ a, strict.value = .ok a → permissive.value = .ok a

theorem Quiet.findSome?_eq_none {entries : List Entry} (h : Quiet entries) :
    entries.findSome? Operation.request? = none :=
  List.findSome?_eq_none_iff.mpr h

/-- What stands before the first entry that asks for a variable includes all quiet entries in front.
-/
theorem Quiet.takeWhile_append {entries : List Entry} (h : Quiet entries) (rest : List Entry) :
    (entries ++ rest).takeWhile (·.request?.isNone) =
      entries ++ rest.takeWhile (·.request?.isNone) :=
  List.takeWhile_append_of_pos fun entry hentry => Option.isNone_iff_eq_none.mpr (h entry hentry)

theorem request?_request (name : String) (sort : SolverSort) :
    (request name sort).request? = some (name, sort) := by
  cases sort <;> rfl

/-- The record of the permissive run shows where the strict run is cut off. -/
theorem Cut.strictCut {f : Action (Encoder backend) α} (h : Cut f f) (e : Encoder backend) :
    StrictCut e f := by
  cases h.cutAt e with
  | whole added hquiet hstrict hpermissive hvalue =>
    refine ⟨added, by rw [hpermissive]; rfl, ?_, by rw [hstrict]; rfl, fun a ha => hvalue ▸ ha⟩
    rw [hquiet.findSome?_eq_none]
    exact ⟨hvalue, by rw [hstrict, hpermissive]; rfl, by rw [hstrict, hpermissive]; rfl⟩
  | short before after name sort hquiet hstrict hentries hvalue =>
    refine ⟨_, hentries, ?_, by rw [hstrict]; rfl, fun a ha => ?_⟩
    · rw [List.findSome?_append, hquiet.findSome?_eq_none, Option.none_or, List.findSome?_cons,
        request?_request, hquiet.takeWhile_append, List.takeWhile_cons_of_neg, List.append_nil]
      · exact ⟨hvalue, by rw [hstrict]; rfl⟩
      · rw [request?_request]
        nofun
    · rw [hvalue] at ha
      cases ha

/-- In whatever state an encoder on a recording backend is, a formula and a term are encoded
without creating variables as they are encoded with it, up to the first variable that is created
there. -/
theorem strict_cut_at_creation (e : Encoder backend) :
    (∀ x : Expr, StrictCut e (Encoder.encode x)) ∧ ∀ t : Term, StrictCut e (Encoder.encodeTerm t) :=
  ⟨fun x => (Cut.encode x).strictCut e, fun t => (Cut.encodeTerm t).strictCut e⟩

end SmtEncoding.Recording
