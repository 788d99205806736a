import SmtEncoding.Proofs.Moves
import SmtEncoding.Proofs.Naming
import SmtEncoding.Proofs.Occurrences

/-!
# Requested constants

On an SMT-LIB backend an encoder asks for a constant exactly where it registers a variable.  So what
it declares are the constants of the variables that it registers, in the order of the registry
(`requests_of_moves`).  A constant that is declared already is not declared again, so an encoder
that registers only variables whose constants are declared leaves the declarations as they are
(`declarations_eq_of_moves`).

Operations of the backend do not fail, so whether a consistent encoder succeeds is decided by the
walk of the rules (`Consistent.follows`).  `Encodes` gathers what comparisons of two encodings rest
on, for formulas and terms alike.
-/

namespace SmtEncoding.SmtLib

/-! ## Requests one after another -/

/-- The state after requests for constants, one after another. -/
def requestAll (keys : List (String × SolverSort)) (s : State) : State :=
  keys.foldl (fun s key => (constant key.1 key.2 s).state) s

theorem requestAll_append (first second : List (String × SolverSort)) (s : State) :
    requestAll (first ++ second) s = requestAll second (requestAll first s) :=
  List.foldl_append

/-- Requests for declared constants change nothing. -/
theorem requestAll_of_declared {keys : List (String × SolverSort)} {s : State}
    (h : ∀ key ∈ keys, key ∈ s.keys) : requestAll keys s = s := by
  induction keys with
  | nil => rfl
  | cons key keys ih =>
    obtain ⟨hkey, hkeys⟩ := List.forall_mem_cons.mp h
    have hfound : (constant key.1 key.2 s).state = s := by
      rcases constant_cases key.1 key.2 s with ⟨d, _, _, hc⟩ | ⟨hnew, _⟩
      · rw [hc]
      · exact absurd hkey hnew
    rw [requestAll, List.foldl_cons, hfound]
    exact ih hkeys

namespace Alike

variable {s t u : State}

theorem refl (s : State) : Alike s s := rfl

theorem trans (first : Alike s t) (second : Alike t u) : Alike s u := Eq.trans first second

theorem symm (h : Alike s t) : Alike t s := Eq.symm h

/-- The same requests leave alike what was alike. -/
theorem requestAll (h : Alike s t) (keys : List (String × SolverSort)) :
    Alike (requestAll keys s) (requestAll keys t) := by
  induction keys generalizing s t with
  | nil => exact h
  | cons key keys ih => exact ih (h.constant key.1 key.2).2

/-- A state that has grown and is still like it was declares nothing more. -/
theorem declarations_eq (h : Alike s t) (hgrows : s.Grows t) : t.declarations = s.declarations := by
  have hlength := congrArg List.length h
  rw [List.length_map, List.length_map] at hlength
  exact (hgrows.declarations.eq_of_length hlength).symm

end Alike

/-! ## Moves -/

/-- The name and the sort of the constant of a registered variable. -/
def constantKey (p : Variable × Object Obj) : String × SolverSort := (p.1.name, p.2.sort)

/-- The constant of a registered variable is declared. -/
theorem Interned.key_mem {e : Encoder backend} (h : Interned e) {p : Variable × Object Obj}
    (hp : p ∈ e.registry.entries) : constantKey p ∈ e.backend.keys := by
  obtain ⟨d, hd, hkey, _⟩ := h.declared p hp
  exact List.mem_map.mpr ⟨d, hd, hkey⟩

/-- If a variable is known under a sort, its constant is declared. -/
theorem Interned.key_mem_of_lookup {e : Encoder backend} (h : Interned e) {v : Variable}
    {sort : SolverSort} (hlookup : e.registeredSorts.lookup v = some sort) :
    (v.name, sort) ∈ e.backend.keys := by
  obtain ⟨before, after, hentries, _⟩ := List.lookup_eq_some_iff.mp hlookup
  have hmem : (v, sort) ∈ e.registeredSorts := by
    rw [hentries]
    exact List.mem_append_right _ List.mem_cons_self
  obtain ⟨p, hp, heq⟩ := List.mem_map.mp hmem
  cases heq
  exact h.key_mem hp

/-- From one encoder to another, variables are registered, and their constants are requested from
the backend in the same order. -/
def Requests (e f : Encoder backend) : Prop :=
  ∃ new, f.registry.entries = e.registry.entries ++ new ∧
    Alike f.backend (requestAll (new.map constantKey) e.backend)

variable {e f g : Encoder backend}

theorem Requests.refl (e : Encoder backend) : Requests e e := ⟨[], (List.append_nil _).symm, rfl⟩

theorem Requests.trans (first : Requests e f) (second : Requests f g) : Requests e g := by
  obtain ⟨new, hnew, hfirst⟩ := first
  obtain ⟨more, hmore, hsecond⟩ := second
  refine ⟨new ++ more, by rw [hmore, hnew, List.append_assoc], ?_⟩
  rw [List.map_append, requestAll_append]
  exact hsecond.trans (hfirst.requestAll _)

/-- An operation that asks for no constant declares none. -/
theorem alike_build {op : Operation Obj} (hop : op.request? = none) (s : State) :
    Alike (build op s).state s := by
  rcases build_cases op s with ⟨name, sort, hrequest, _⟩ | ⟨_, hb | hb⟩
  · rw [hop] at hrequest
    cases hrequest
  · rw [hb]
    exact .refl s
  · rw [hb]
    exact .refl s

/-- A move requests the constant of the variable that it registers, and no other. -/
theorem requests_of_move (h : Encoder.Move e f) : Requests e f := by
  cases h with
  | core op hop => exact ⟨[], (List.append_nil _).symm, alike_build hop e.backend⟩
  | rational op hop _ => exact ⟨[], (List.append_nil _).symm, alike_build hop e.backend⟩
  | create v sort x _ _ _ =>
    refine ⟨[(v, ⟨sort, x⟩)], rfl, ?_⟩
    rw [createVariable_eq, Action.run_lift]
    exact .refl _
  | fail name sort err _ herr =>
    rw [createVariable_eq] at herr
    exact absurd herr Action.value_lift_ne_error

/-- Moves request the constants of the variables that they register, in order. -/
theorem requests_of_moves (h : Encoder.Moves e f) : Requests e f :=
  h.keeps (P := Requests e) (fun hmove he => he.trans (requests_of_move hmove)) (.refl e)

/-- A move takes nothing back that is declared. -/
theorem grows_of_move (h : Encoder.Move e f) : e.backend.Grows f.backend := by
  cases h with
  | core op _ => exact grows_build e.backend (.core op)
  | rational op _ _ => exact grows_build e.backend (.rational op)
  | create v sort x _ _ _ =>
    rw [createVariable_eq, Action.run_lift]
    exact grows_constant e.backend v.name sort
  | fail name sort err _ herr =>
    rw [createVariable_eq] at herr
    exact absurd herr Action.value_lift_ne_error

theorem grows_of_moves (h : Encoder.Moves e f) : e.backend.Grows f.backend :=
  h.keeps (P := fun f => e.backend.Grows f.backend)
    (fun hmove he => he.trans (grows_of_move hmove)) (.refl e.backend)

/-- If the constants of all variables that are registered in the end are declared before, nothing is
declared in between. -/
theorem declarations_eq_of_moves (h : Encoder.Moves e f)
    (hkeys : ∀ p ∈ f.registry.entries, constantKey p ∈ e.backend.keys) :
    f.backend.declarations = e.backend.declarations := by
  obtain ⟨new, hnew, halike⟩ := requests_of_moves h
  rw [requestAll_of_declared] at halike
  · exact halike.symm.declarations_eq (grows_of_moves h)
  · intro key hkey
    obtain ⟨p, hp, rfl⟩ := List.mem_map.mp hkey
    exact hkeys p (hnew ▸ List.mem_append_right _ hp)

/-! ## Consistent encoders -/

/-- A property of states that operations keep is kept by encoding. -/
theorem upkeep_state {P : State → Prop}
    (hbuild : ∀ (op : Operation Obj) (s : State), P s → P (build op s).state) :
    Upkeep (B := backend) (fun e => P e.backend) (fun _ => True) (fun _ _ => True) := by
  have hcreate : ∀ (name : String) (sort : SolverSort) (s : State), P s →
      P ((backend.createVariable name sort).run s).state := fun name sort s =>
    Backend.keeps_createVariable (B := backend) (P := P) (fun op s => hbuild (.core op) s)
      (fun op s => hbuild (.rational op) s) name sort
  exact {
    core := fun op => .onBackend (fun e he => hbuild (.core op) e.backend he) fun _ _ _ => trivial
    rational := fun op =>
      .onBackend (fun e he => hbuild (.rational op) e.backend he) fun _ _ _ => trivial
    resolve := fun allow sort v _ => .resolve (fun _ _ _ _ _ => trivial) trivial
      (fun e _ he _ _ => hcreate v.name sort e.backend he)
      fun e _ he _ => ⟨hcreate v.name sort e.backend he, trivial⟩
    typed := fun _ => trivial
    raised := fun _ _ => trivial
    setCreateVariables := fun _ _ he => he
    renew := fun _ _ he => he }

theorem dependable_smtLib : backend.Dependable where
  core op s h := by
    have hcapabilities := (grows_build s (.core op)).capabilities
    exact (congrArg Capabilities.rationals hcapabilities).trans h
  rational op s h := by
    have hcapabilities := (grows_build s (.rational op)).capabilities
    exact ⟨⟨_, rfl⟩, (congrArg Capabilities.rationals hcapabilities).trans h⟩

theorem Consistent.new {s : State} (h : s.Wf) (options : Options) :
    Consistent (.new (B := backend) s options) :=
  ⟨⟨h, nofun⟩, rfl⟩

/-- A session keeps its encoder consistent. -/
theorem Consistent.performAll {s : Session backend} (h : Consistent s.encoder)
    (steps : List Step) : Consistent (Session.performAll steps s).state.encoder :=
  (upkeep_consistent.performAll steps (fun _ _ => trivial) h).1

/-- A consistent encoder follows its rules. -/
theorem Consistent.follows (h : Consistent e) : Follows e.rules e e.registeredSorts := by
  refine ⟨rfl, rfl, fun hr => ?_, fun _ => dependable_smtLib⟩
  rw [Encoder.rules, h.2] at hr
  exact hr

/-! ## Formulas and terms alike -/

/-- An action encodes what has the named term `a` and the given uses of variables, and `expr` is the
s-expression of what it answers with. -/
structure Encodes {α : Type} (f : Action (Encoder backend) α) (expr : α → SExpr) (a : NamedTerm)
    (uses : List (Variable × SolverSort)) : Prop where
  moves : ∀ e, Encoder.Moves e (f.run e).state
  keeps : ∀ {P : Encoder backend → Prop}, Upkeep P (fun _ => True) (fun _ _ => True) →
    ∀ {e}, P e → P (f.run e).state
  named : ∀ {e n}, Consistent e → (f.run e).value = .ok n →
    (f.run e).state.backend.named? (expr n) = some a
  /-- Whether the action succeeds is decided by a walk that meets the uses. -/
  judged : ∀ rationals, ∃ walk, Meets rationals uses walk ∧
    ∀ {e}, Consistent e → e.capabilities.rationals = rationals →
      ∃ V, Judged e.rules V e e.registeredSorts f (walk e.options.createVariables)

namespace Encodes

variable {α : Type} {g : Action (Encoder backend) α} {expr : α → SExpr} {a : NamedTerm}
  {uses : List (Variable × SolverSort)}

theorem consistent (h : Encodes g expr a uses) (he : Consistent e) : Consistent (g.run e).state :=
  h.keeps upkeep_consistent he

/-- What has succeeded once succeeds wherever all is known that was known after it, and then nothing
more is known. -/
theorem succeeds (h : Encodes g expr a uses) (he : Consistent e) {n : α}
    (hn : (g.run e).value = .ok n) (hf : Consistent f)
    (hrationals : f.capabilities.rationals = e.capabilities.rationals)
    (hwithin : KnownSorts.Within (g.run e).state.registeredSorts f.registeredSorts) :
    ∃ m, (g.run f).value = .ok m ∧ (g.run f).state.registeredSorts = f.registeredSorts := by
  obtain ⟨walk, hmeets, hjudged⟩ := h.judged e.capabilities.rationals
  obtain ⟨_, hfirst⟩ := hjudged he rfl
  obtain ⟨_, hagain⟩ := hjudged hf hrationals
  have hsettled := hmeets.again (hfirst.settled?_of_ok hn) hwithin f.options.createVariables
  obtain ⟨m, hm, hfollows⟩ := hagain.ok_of_settled? hsettled
  exact ⟨m, hm, hfollows.known_eq⟩

end Encodes

/-- A formula is encoded as its named term, with the uses of its variables. -/
theorem encodes_encode (x : Expr) : Encodes (Encoder.encode x) Node.expr x.named x.uses where
  moves _ := Moving.moves (Moving.encode x)
  keeps hP _ he := (hP.encode x fun _ _ => trivial).state he
  named he hn := he.named?_encode hn
  judged rationals := by
    refine ⟨_, Meets.judge x, fun {e} he hr => ?_⟩
    subst hr
    exact ⟨_, Judged.encode he.follows x⟩

/-- A term is encoded as its named term, with the uses of its variables. -/
theorem encodes_encodeTerm (t : Term) :
    Encodes (Encoder.encodeTerm t) (fun n => n.get.expr) t.named t.uses where
  moves _ := Moving.moves (Moving.encodeTerm t)
  keeps hP _ he := (hP.encodeTerm t).state he
  named he hn := he.named?_encodeTerm hn
  judged rationals := by
    refine ⟨_, Meets.judgeTerm t, fun {e} he hr => ?_⟩
    subst hr
    exact ⟨_, Judged.encodeTerm he.follows t⟩

end SmtEncoding.SmtLib
