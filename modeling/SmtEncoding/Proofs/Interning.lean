import SmtEncoding.Proofs.Constants
import SmtEncoding.Proofs.VariableSorts

/-!
# Registered variables as constants

On an SMT-LIB backend a variable passes two tables.  The registry holds one object per name and
declared type, and the backend declares one constant per name and sort that is asked for.  An
encoder is `Interned` if each registered object is the constant for the name of its variable and
the sort of the object.  Every step keeps this, and declarations differ in body as soon as they
differ in name or sort.

So two registered variables have one symbol exactly if they agree in name and in the sort of their
objects (`registered_symbols`).  The declared type decides the sort unless a literal is over a
number.  Where none is, different variables have different symbols.
-/

namespace SmtEncoding

theorem ValueType.sort_injective : Function.Injective ValueType.sort := by
  intro s t h
  cases s <;> cases t <;> first | rfl | cases h

theorem Variable.eq_of_name_of_sort {v w : Variable} (hname : v.name = w.name)
    (hsort : v.type.sort = w.type.sort) : v = w := by
  obtain ⟨name, type⟩ := v
  obtain ⟨name', type'⟩ := w
  cases hname
  cases ValueType.sort_injective hsort
  rfl

namespace SmtLib

/-! ## Interned encoders -/

/-- Every registered object is the constant that is declared for the name of its variable and its
sort. -/
structure Interned (e : Encoder backend) : Prop where
  wf : e.backend.Wf
  declared : ∀ p ∈ e.registry.entries,
    ∃ d ∈ e.backend.declarations, d.key = (p.1.name, p.2.sort) ∧ p.2.value = d.node

namespace Interned

variable {e : Encoder backend}

theorem grows (h : Interned e) {t : State} (ht : t.Wf) (hgrows : e.backend.Grows t) :
    Interned { e with backend := t } where
  wf := ht
  declared p hp := by
    obtain ⟨d, hd, hkey, hnode⟩ := h.declared p hp
    exact ⟨d, hgrows.declarations.subset hd, hkey, hnode⟩

/-- An operation of the backend keeps variables and their constants together. -/
theorem build (h : Interned e) (op : Operation Obj) :
    Interned { e with backend := (build op e.backend).state } :=
  h.grows (wf_build h.wf op) (grows_build e.backend op)

/-- The constant for the name of a variable and a sort may be entered for the variable. -/
theorem insert (h : Interned e) (v : Variable) (sort : SolverSort) :
    Interned { e with backend := (constant v.name sort e.backend).state,
                      registry := e.registry.insert v
                        ⟨sort, (constant v.name sort e.backend).value⟩ } where
  wf := wf_constant h.wf v.name sort
  declared p hp := by
    rcases List.mem_append.mp hp with hp | hp
    · have hgrows := grows_constant e.backend v.name sort
      exact (h.grows (wf_constant h.wf v.name sort) hgrows).declared p hp
    · obtain ⟨d, hd, hkey, hnode⟩ := constant_declared v.name sort e.backend
      rw [List.mem_singleton.mp hp]
      exact ⟨d, hd, hkey, hnode⟩

/-- Two registered variables have one symbol exactly if their names and the sorts of their objects
are the same. -/
theorem body_eq_iff (h : Interned e) {p q : Variable × Object Obj}
    (hp : p ∈ e.registry.entries) (hq : q ∈ e.registry.entries) :
    ∃ c ∈ e.backend.declarations, ∃ d ∈ e.backend.declarations,
      p.2.value = c.node ∧ q.2.value = d.node ∧
        (body c.symbol = body d.symbol ↔ p.1.name = q.1.name ∧ p.2.sort = q.2.sort) := by
  obtain ⟨c, hc, hckey, hcnode⟩ := h.declared p hp
  obtain ⟨d, hd, hdkey, hdnode⟩ := h.declared q hq
  refine ⟨c, hc, d, hd, hcnode, hdnode, fun hbody => ?_, fun ⟨hname, hsort⟩ => ?_⟩
  · have hcd : c = d := h.wf.eq_of_body_eq hc hd hbody
    rw [← hcd, hckey] at hdkey
    exact Prod.mk.inj hdkey
  · have hkey : c.key = d.key := by rw [hckey, hdkey, hname, hsort]
    rw [h.wf.eq_of_key_eq hc hd hkey]

end Interned

/-! ## Sessions -/

/-- A variable is created by a request for its constant. -/
theorem createVariable_eq (name : String) (sort : SolverSort) :
    backend.createVariable name sort = ExceptT.lift (constant name sort) := by
  cases sort <;> rfl

/-- Encoding keeps an encoder interned, under whatever sorts variables are looked up. -/
theorem upkeep_interned :
    Upkeep (B := backend) Interned (fun _ => True) (fun _ _ => True) where
  core op := .onBackend (fun _ he => he.build (.core op)) fun _ _ _ => trivial
  rational op := .onBackend (fun _ he => he.build (.rational op)) fun _ _ _ => trivial
  resolve allow sort v _ := by
    refine .resolve (fun _ _ _ _ _ => trivial) trivial ?_ ?_
    · intro e x he _ hx
      rw [createVariable_eq, Action.run_lift] at hx ⊢
      cases hx
      exact he.insert v sort
    · intro e err _ herr
      rw [createVariable_eq] at herr
      exact absurd herr Action.value_lift_ne_error
  typed _ := trivial
  raised _ _ := trivial
  setCreateVariables _ _ he := ⟨he.wf, he.declared⟩
  renew _ _ he := ⟨he.wf, nofun⟩

/-- After any session on an SMT-LIB backend, the objects of registered variables are declared
constants, and two of them have one symbol exactly if the variables agree in name and the objects
in sort.  If all literals of the session are over truth values, different variables have different
symbols. -/
theorem registered_symbols (capabilities : Capabilities) (first : Nat) (options : Options)
    (steps : List Step) :
    let encoder := (Session.performAll steps
      (.start (B := backend) (.empty capabilities first) options)).state.encoder
    ∀ p ∈ encoder.registry.entries, ∀ q ∈ encoder.registry.entries,
      ∃ c ∈ encoder.backend.declarations, ∃ d ∈ encoder.backend.declarations,
        p.2.value = c.node ∧ q.2.value = d.node ∧
        (body c.symbol = body d.symbol ↔ p.1.name = q.1.name ∧ p.2.sort = q.2.sort) ∧
        ((∀ v ∈ steps.flatMap Step.literals, v.type = .bool) → p.1 ≠ q.1 →
          body c.symbol ≠ body d.symbol) := by
  intro encoder p hp q hq
  let start : Session backend := .start (.empty capabilities first) options
  have hstart : Interned start.encoder := ⟨.empty capabilities first, nofun⟩
  obtain ⟨hinterned, _⟩ := upkeep_interned.performAll steps (fun _ _ => trivial) hstart
  obtain ⟨c, hc, d, hd, hcnode, hdnode, hiff⟩ := hinterned.body_eq_iff hp hq
  refine ⟨c, hc, d, hd, hcnode, hdnode, hiff, fun hbool hne hbody => ?_⟩
  -- A variable has the sort of its declared type, so the two agree in type as well.
  obtain ⟨hsorts, _⟩ := (upkeep_sorts neverMismatches_smtLib _).performAll steps
    (s := start) (fun v hv => .inr ⟨rfl, hv⟩) nofun
  obtain ⟨hname, hsort⟩ := hiff.mp hbody
  rw [(hsorts p hp).eq_of_forall_bool hbool, (hsorts q hq).eq_of_forall_bool hbool] at hsort
  exact hne (Variable.eq_of_name_of_sort hname hsort)

/-- Variables of one name and every declared type, under a literal, a term and a declaration. -/
def homonyms : List Step :=
  [.encode (.literal ⟨"x", .bool⟩ true), .encodeTerm (.var ⟨"x", .integer⟩),
    .declare ⟨"x", .double⟩]

theorem registered_symbols_homonyms :
    let encoder := (Session.performAll homonyms
      (.start (B := backend) (.empty {} 0) {})).state.encoder
    encoder.backend.declarations.map (fun d => d.symbol) = ["x", "x@Int", "x@Real"] ∧
      ∃ c ∈ encoder.backend.declarations, ∃ d ∈ encoder.backend.declarations,
        c.node = ⟨0, .atom "x"⟩ ∧ d.node = ⟨1, .atom "x@Int"⟩ ∧ body c.symbol ≠ body d.symbol := by
  intro encoder
  have hbool : (⟨"x", .bool⟩, ⟨.bool, ⟨0, .atom "x"⟩⟩) ∈ encoder.registry.entries :=
    List.mem_of_getElem? (i := 0) rfl
  have hint : (⟨"x", .integer⟩, ⟨.int, ⟨1, .atom "x@Int"⟩⟩) ∈ encoder.registry.entries :=
    List.mem_of_getElem? (i := 1) rfl
  obtain ⟨c, hc, d, hd, hcnode, hdnode, _, hne⟩ :=
    registered_symbols {} 0 {} homonyms _ hbool _ hint
  exact ⟨rfl, c, hc, d, hd, hcnode.symm, hdnode.symm, hne (by decide) nofun⟩

/-- Literals over a truth value and a number of one name are the same constant. -/
theorem registered_symbols_shared :
    let encoder := (Session.performAll
      [.encode (.literal ⟨"x", .bool⟩ true), .encode (.literal ⟨"x", .integer⟩ true)]
      (.start (B := backend) (.empty {} 0) {})).state.encoder
    ∃ p ∈ encoder.registry.entries, ∃ q ∈ encoder.registry.entries, p.1 ≠ q.1 ∧ p.2 = q.2 := by
  intro encoder
  refine ⟨(⟨"x", .bool⟩, ⟨.bool, ⟨0, .atom "x"⟩⟩), ?_,
    (⟨"x", .integer⟩, ⟨.bool, ⟨0, .atom "x"⟩⟩), ?_, nofun, rfl⟩
  · exact List.mem_of_getElem? (i := 0) rfl
  · exact List.mem_of_getElem? (i := 1) rfl

end SmtLib

end SmtEncoding
