import SmtEncoding.Proofs.Moves
import SmtEncoding.Recording.Backend

/-!
# One creation for each variable

A record shows every object that a backend was asked for, so also every variable that was created
(`creations`).  Registry and record stay in lockstep: a variable is entered where it is created, in
the same move, and nothing else creates one.  Steps that leave the backend to the encoder keep this,
also those that fail on the way.

A session binds its encoder to one backend after another (`Session.bindings`).  What is created over
all these bindings are the registered variables, each with the object it was created as, in the
order of the registry, and none twice (`one_creation_per_variable`).  An entry is never touched
again, and every later reference to its variable answers with its object.
-/

namespace SmtEncoding

/-! ## References -/

/-- The variable that a step refers to, if it does nothing else, and the sort under which it is
looked up. -/
def Step.reference? : Step → Option (Variable × SolverSort)
  | encode (.literal v true) => some (v, .bool)
  | encodeTerm (.var v) => if v.type = .bool then none else some (v, v.type.sort)
  | declare v => some (v, v.type.sort)
  | _ => none

namespace Encoder

variable {B : Backend} {e : Encoder B} {v : Variable} {o : Object B.Obj}

/-- What a reference to a variable answers with where it is registered with an object. -/
def refer (e : Encoder B) (v : Variable) (sort : SolverSort) (o : Object B.Obj) :
    Except EncodeError (Object B.Obj) :=
  if sort = .real ∧ e.capabilities.rationals = false then
    .error (.backendUnsupportedType .double)
  else if o.sort = sort then .ok o
  else .error (.sortMismatch v.name sort o.sort)

/-- A registered variable is found with its object, if that has the sort asked for. -/
theorem run_resolve_refer (h : e.registry.get? v = some o) (allow : Bool) (sort : SolverSort)
    (hsort : sort = .real → e.capabilities.rationals = true) :
    (Object.mk sort <$> resolve allow sort v).run e = ⟨e.refer v sort o, e, []⟩ := by
  rw [Action.run_map, run_resolve_registered h, refer, if_neg]
  · obtain ⟨s, x⟩ := o
    by_cases hs : s = sort
    · subst hs
      rw [Object.as?_eq_some_iff.mpr rfl, if_pos rfl]
      rfl
    · rw [Object.as?_eq_none_iff.mpr hs, if_neg hs]
      rfl
  · rintro ⟨hreal, hfalse⟩
    rw [hsort hreal] at hfalse
    cases hfalse

/-- A literal over a registered variable refers to its object. -/
theorem run_literal_refer (h : e.registry.get? v = some o) :
    (Object.mk .bool <$> encode (.literal v true)).run e =
      ⟨e.refer v .bool o, e, [.encoding .literal]⟩ := by
  simp only [encode, visit, encodeLiteral, resolveBool, if_true, bind_pure, map_bind]
  rw [Action.run_note_bind, Action.run_get_bind, run_resolve_refer h _ .bool nofun]

theorem run_numeral_refer (h : e.registry.get? v = some o) (allow : Bool)
    (hv : v.type ≠ .bool) :
    (Numeral.toObject <$> resolveNumeral allow v).run e = ⟨e.refer v v.type.sort o, e, []⟩ := by
  unfold resolveNumeral
  cases htype : v.type with
  | bool => exact absurd htype hv
  | integer =>
    rw [Functor.map_map]
    exact run_resolve_refer h allow .int nofun
  | double =>
    rw [map_bind, run_requireRationals_bind]
    cases hr : e.capabilities.rationals with
    | false => exact congrArg (Reply.mk · e []) (if_pos ⟨rfl, hr⟩).symm
    | true =>
      rw [Functor.map_map]
      exact run_resolve_refer h allow .real fun _ => hr

theorem run_term_refer (h : e.registry.get? v = some o) (hv : v.type ≠ .bool) :
    (Numeral.toObject <$> encodeTerm (.var v)).run e = ⟨e.refer v v.type.sort o, e, []⟩ := by
  simp only [encodeTerm, map_bind]
  rw [Action.run_get_bind, run_numeral_refer h _ hv]

/-- A declaration of a registered variable refers to its object. -/
theorem run_declare_refer (h : e.registry.get? v = some o) :
    (declare v).run e = ⟨e.refer v v.type.sort o, e, []⟩ := by
  unfold declare
  cases htype : v.type with
  | bool => exact run_resolve_refer h true .bool nofun
  | integer =>
    rw [run_numeral_refer h true (by rw [htype]; nofun), htype]
  | double =>
    rw [run_numeral_refer h true (by rw [htype]; nofun), htype]

end Encoder

/-- A step that refers to a registered variable answers with its object or fails, and changes
nothing. -/
theorem Session.perform_reference {B : Backend} {s : Session B} {v : Variable} {sort : SolverSort}
    {o : Object B.Obj} (h : s.encoder.registry.get? v = some o) {step : Step}
    (hstep : step.reference? = some (v, sort)) :
    (perform step s).value = (s.encoder.refer v sort o).map some ∧
      (perform step s).state.encoder = s.encoder := by
  suffices hrun : ∃ log, (step.action s.held).run s.encoder =
      ⟨(s.encoder.refer v sort o).map some, s.encoder, log⟩ by
    obtain ⟨log, hrun⟩ := hrun
    simp only [perform, hrun, and_self]
  cases step with
  | encode x =>
    cases x with
    | literal w positive =>
      cases positive with
      | true =>
        cases hstep
        have haction : (Step.encode (.literal v true)).action s.held =
            some <$> Object.mk .bool <$> Encoder.encode (.literal v true) := by
          rw [Functor.map_map]
          rfl
        exact ⟨_, by rw [haction, Action.run_map, Encoder.run_literal_refer h]⟩
      | false => cases hstep
    | _ => cases hstep
  | encodeTerm t =>
    cases t with
    | var w =>
      rw [Step.reference?] at hstep
      split at hstep
      · cases hstep
      · rename_i htype
        cases hstep
        have haction : (Step.encodeTerm (.var v)).action s.held =
            some <$> Numeral.toObject <$> Encoder.encodeTerm (.var v) := by
          rw [Functor.map_map]
          rfl
        exact ⟨_, by rw [haction, Action.run_map, Encoder.run_term_refer h htype]⟩
    | _ => cases hstep
  | declare w =>
    cases hstep
    exact ⟨[], by rw [Step.action, Action.run_map, Encoder.run_declare_refer h]⟩
  | _ => cases hstep

/-! ## Records -/

/-- A backend as it is bound to an encoder, and as it is when the next one is bound or in the
end. -/
structure Binding (B : Backend) where
  first : B.State
  last : B.State

/-- The names of the registered variables with their objects, oldest first. -/
def Registry.created {O : SolverSort → Type} (r : Registry O) : List (String × Object O) :=
  r.entries.map fun p => (p.1.name, p.2)

namespace Recording

/-- The name that an entry asks for a variable of, if it does, with the object at its position. -/
def creation? (entry : Entry) (position : Nat) : Option (String × Object Handle) :=
  entry.request?.map fun request => (request.1, ⟨request.2, position⟩)

/-- The variables that a record asks for from a position on, oldest first, each with its object. -/
def creations (start : Nat) (entries : List Entry) : List (String × Object Handle) :=
  (entries.zipIdx.drop start).filterMap fun p => creation? p.1 p.2

/-- The variables that are created during a binding. -/
def Binding.creations (binding : Binding backend) : List (String × Object Handle) :=
  Recording.creations binding.first.entries.length binding.last.entries

/-- A creation at the end of a record comes after all others. -/
theorem creations_concat {start : Nat} {entries : List Entry} (h : start ≤ entries.length)
    (entry : Entry) :
    creations start (entries ++ [entry]) =
      creations start entries ++ (creation? entry entries.length).toList := by
  have hstart : start ≤ entries.zipIdx.length := by rwa [List.length_zipIdx]
  rw [creations, List.zipIdx_append, List.drop_append_of_le_length hstart, List.filterMap_append,
    Nat.zero_add]
  cases h : creation? entry entries.length with
  | none => simp [creations, h]
  | some c => simp [creations, h]

theorem creations_length (entries : List Entry) : creations entries.length entries = [] := by
  rw [creations, List.drop_eq_nil_of_le (by simp), List.filterMap_nil]

/-- The entry that asks for a variable. -/
def request (name : String) : SolverSort → Entry
  | .bool => .core (.boolVar name)
  | .int => .core (.intVar name)
  | .real => .rational (.var name)

theorem run_createVariable (name : String) (sort : SolverSort) (r : State) :
    (backend.createVariable name sort).run r =
      ⟨.ok r.entries.length, { r with entries := r.entries ++ [request name sort] }, []⟩ := by
  cases sort <;> rfl

theorem creation?_request (name : String) (sort : SolverSort) (position : Nat) :
    creation? (request name sort) position = some (name, ⟨sort, position⟩) := by
  cases sort <;> rfl

/-- A move leaves every entry of the record where it is. -/
theorem entries_prefix_of_move {e f : Encoder backend} (h : Encoder.Move e f) :
    e.backend.entries <+: f.backend.entries := by
  cases h with
  | core op _ => exact List.prefix_append e.backend.entries [.core op]
  | rational op _ _ => exact List.prefix_append e.backend.entries [.rational op]
  | create v sort _ _ _ _ =>
    rw [run_createVariable]
    exact List.prefix_append e.backend.entries [request v.name sort]
  | fail name sort _ _ _ =>
    rw [run_createVariable]
    exact List.prefix_append e.backend.entries [request name sort]

/-- Moves take no entry of the record back. -/
theorem entries_prefix_of_moves {e f : Encoder backend} (h : Encoder.Moves e f) :
    e.backend.entries <+: f.backend.entries :=
  h.keeps (P := fun (f : Encoder backend) => e.backend.entries <+: f.backend.entries)
    (fun hmove hf => hf.trans (entries_prefix_of_move hmove)) List.prefix_rfl

/-! ## Lockstep -/

/-- An encoder on a backend that was bound as `first`.  Its registered variables are those that were
created before, and then those that the record asks for from there on. -/
structure Lockstep (past : List (String × Object Handle)) (first : State) (e : Encoder backend) :
    Prop where
  record : first.entries <+: e.backend.entries
  registry : e.registry.created = past ++ Binding.creations ⟨first, e.backend⟩

variable {past : List (String × Object Handle)} {first : State} {e f : Encoder backend}

/-- A new encoder, or one that is bound to another backend, is in lockstep with it. -/
theorem Lockstep.bind (hbackend : e.backend = first) (hregistry : e.registry.created = past) :
    Lockstep past first e where
  record := hbackend ▸ List.prefix_rfl
  registry := by rw [Binding.creations, hbackend, creations_length, List.append_nil, hregistry]

/-- A variable is entered where it is created, and nothing else creates one. -/
theorem Lockstep.move (h : Encoder.Move e f) (he : Lockstep past first e) :
    Lockstep past first f := by
  have hlength := he.record.length_le
  -- An operation that asks for no variable adds an entry to the record, but no creation.
  have hother : ∀ entry : Entry, entry.request? = none →
      e.registry.created =
        past ++ creations first.entries.length (e.backend.entries ++ [entry]) := by
    intro entry hentry
    rw [creations_concat hlength, creation?, hentry, Option.map_none, Option.toList_none,
      List.append_nil]
    exact he.registry
  refine ⟨he.record.trans (entries_prefix_of_move h), ?_⟩
  cases h with
  | core op hop => exact hother (.core op) hop
  | rational op hop _ => exact hother (.rational op) hop
  | create v sort x _ _ hx =>
    rw [run_createVariable] at hx ⊢
    cases hx
    show (e.registry.insert v _).created = past ++ creations _ (_ ++ [_])
    rw [creations_concat hlength, creation?_request, ← List.append_assoc]
    rw [Registry.created, Registry.insert, List.map_append, ← Registry.created, he.registry]
    rfl
  | fail name sort err _ herr =>
    rw [run_createVariable] at herr
    cases herr

end Recording

/-! ## Sessions -/

namespace Session

variable {B : Backend}

/-- The bindings of a session that is bound to `first` when it takes its turns, oldest first. -/
def bindings (first : B.State) : List (Turn B) → Session B → List (Binding B)
  | [], s => [⟨first, s.encoder.backend⟩]
  | .step step :: turns, s => bindings first turns (perform step s).state
  | .rebind next :: turns, s =>
    ⟨first, (Encoder.rebind next s.encoder).value⟩ ::
      bindings next turns (take (.rebind next) s).state

end Session

namespace Recording

/-- Over all bindings, the variables that are created are those that are registered, and while an
encoder is bound to a record every entry stays where it is. -/
theorem lockstep_takeAll {turns : List (Turn backend)} (hturns : ∀ turn ∈ turns, turn.Plain)
    {s : Session backend} {past : List (String × Object Handle)} {first : State}
    (h : Lockstep past first s.encoder) :
    past ++ (Session.bindings first turns s).flatMap Binding.creations =
        (Session.takeAll turns s).state.encoder.registry.created ∧
      ∀ binding ∈ Session.bindings first turns s,
        binding.first.entries <+: binding.last.entries := by
  induction turns generalizing s past first with
  | nil =>
    rw [Session.bindings, List.flatMap_singleton]
    exact ⟨h.registry.symm, List.forall_mem_singleton.mpr h.record⟩
  | cons turn turns ih =>
    obtain ⟨hturn, hrest⟩ := List.forall_mem_cons.mp hturns
    cases turn with
    | step step =>
      exact ih hrest (Session.keeps_perform Lockstep.move (fun _ _ he => ⟨he.1, he.2⟩) hturn h)
    | rebind next =>
      have hnext : Lockstep (past ++ Binding.creations ⟨first, s.encoder.backend⟩) next
          (Session.take (.rebind next) s).state.encoder := by
        rw [Session.encoder_rebind]
        exact .bind rfl h.registry
      obtain ⟨hcreated, hentries⟩ := ih hrest hnext
      rw [Session.bindings, Encoder.value_rebind, List.flatMap_cons, ← List.append_assoc]
      exact ⟨hcreated, List.forall_mem_cons.mpr ⟨h.record, hentries⟩⟩

/-- What is created over all the backends that a session is bound to are its registered variables,
each with the object it was created as, in the order of the registry; for backends that are bound
without entries these are all variables that their records ask for.  No variable is registered
twice.  Later turns leave every entry of the registry and of each record where it is, and refer to a
registered variable by its object, whatever else they create. -/
theorem one_creation_per_variable (record : State) (options : Options)
    (turns later : List (Turn backend)) (hturns : ∀ turn ∈ turns ++ later, turn.Plain) :
    let begun : Session backend := .start record options
    let reached := (Session.takeAll turns begun).state
    let ended := (Session.takeAll later reached).state
    let bindings := Session.bindings record turns begun
    bindings.flatMap Binding.creations = reached.encoder.registry.created ∧
    ((∀ binding ∈ bindings, binding.first.entries = []) →
      bindings.flatMap (fun binding => creations 0 binding.last.entries) =
        reached.encoder.registry.created) ∧
    reached.encoder.registry.registered.Nodup ∧
    reached.encoder.registry.entries <+: ended.encoder.registry.entries ∧
    (∀ binding ∈ bindings ++ Session.bindings reached.encoder.backend later reached,
      binding.first.entries <+: binding.last.entries) ∧
    ∀ v o, (v, o) ∈ reached.encoder.registry.entries →
      (∀ e, Encoder.Moves ended.encoder e → e.registry.get? v = some o) ∧
      ∀ step sort, step.reference? = some (v, sort) →
        (Session.perform step ended).value = (ended.encoder.refer v sort o).map some ∧
        (Session.perform step ended).state.encoder = ended.encoder := by
  intro begun reached ended bindings
  obtain ⟨hbefore, hlater⟩ := List.forall_mem_append.mp hturns
  have hbegun : Lockstep [] record begun.encoder := .bind rfl rfl
  obtain ⟨hcreated, hentries⟩ := lockstep_takeAll hbefore hbegun
  have hnodup : reached.encoder.registry.registered.Nodup :=
    Session.registered_nodup_takeAll hbefore List.nodup_nil
  have hgrows : reached.encoder.registry.entries <+: ended.encoder.registry.entries :=
    Session.registry_prefix_takeAll hlater reached
  refine ⟨hcreated, fun hnew => ?_, hnodup, hgrows, ?_, fun v o ho => ?_⟩
  · refine Eq.trans (List.flatMap_congr fun binding hbinding => ?_) hcreated
    rw [Binding.creations, hnew binding hbinding, List.length_nil]
  · exact List.forall_mem_append.mpr ⟨hentries, (lockstep_takeAll hlater (.bind rfl rfl)).2⟩
  · have hfound : ∀ e, Encoder.Moves ended.encoder e → e.registry.get? v = some o := by
      intro e he
      have hmoved : ended.encoder.registry.entries <+: e.registry.entries ∧
          e.registry.registered.Nodup :=
        he.keeps (P := fun e => ended.encoder.registry.entries <+: e.registry.entries ∧
            e.registry.registered.Nodup)
          (fun hmove h => ⟨h.1.trans hmove.registry_prefix, hmove.registered_nodup h.2⟩)
          ⟨List.prefix_rfl, Session.registered_nodup_takeAll hlater hnodup⟩
      exact Registry.get?_of_mem hmoved.2 ((hgrows.trans hmoved.1).subset ho)
    exact ⟨hfound, fun step sort => Session.perform_reference (hfound _ .refl)⟩

/-- A conjunction that fails behind its first literal, a variable that is refused, and another
backend. -/
def interrupted : List (Turn backend) :=
  [.step (.encode (.and [.literal ⟨"a", .bool⟩ true, .atLeast 1 []])),
    .step (.setCreateVariables false), .step (.encodeTerm (.var ⟨"x", .integer⟩)),
    .step (.setCreateVariables true), .rebind State.empty, .step (.declare ⟨"d", .double⟩)]

/-- A sum over a new variable and a registered one. -/
def resumed : List (Turn backend) :=
  [.step (.encodeTerm (.app .add [.var ⟨"x", .integer⟩, .var ⟨"d", .double⟩] .double))]

theorem one_creation_per_variable_interrupted :
    let begun : Session backend := .start State.empty {}
    let reached := (Session.takeAll interrupted begun).state
    let ended := (Session.takeAll resumed reached).state
    (∀ turn ∈ interrupted ++ resumed, turn.Plain) ∧
    (Session.bindings State.empty interrupted begun).flatMap Binding.creations =
      [("a", ⟨.bool, 0⟩), ("d", ⟨.real, 0⟩)] ∧
    (Session.perform (.encode (.literal ⟨"a", .bool⟩ true)) ended).value =
      .ok (some ⟨.bool, 0⟩) := by
  have hturns : ∀ turn ∈ interrupted ++ resumed, turn.Plain := by
    simp [interrupted, resumed, Turn.Plain, Step.Plain]
  obtain ⟨hcreated, _, _, _, _, hreferences⟩ :=
    one_creation_per_variable State.empty {} interrupted resumed hturns
  have ha := (hreferences ⟨"a", .bool⟩ ⟨.bool, 0⟩ (List.mem_of_getElem? (i := 0) rfl)).2
  refine ⟨hturns, hcreated.trans rfl, ?_⟩
  exact (ha (.encode (.literal ⟨"a", .bool⟩ true)) .bool rfl).1.trans rfl

end Recording

end SmtEncoding
