import Mathlib.Data.Finset.Card
import SmtEncoding.Proofs.Registration

/-!
# Registries with an index

A registry finds a variable by its entries, oldest first.  An `IndexedRegistry` has an index beside
them, a hash map from variables to positions, and finds a variable by the entry at its position.
The two structures say the same thing twice, and nothing but the order of requests keeps them in
step.

They are in step if the index gives a position for a variable exactly where the variable stands
(`IndexedRegistry.Coherent`).  Then no variable is registered twice, every position is in range, and
what the index leads to is what the registry finds (`Coherent.get?_eq`).  Resolving a variable keeps
that (`Coherent.inStep`), so an indexed registry gives the answers of its registry, request by
request (`Request.answers_inStep`).

What one request does is the same in every state (`Request.atomic`).  `resolve_keeps_map` is about
the state that any requests leave: what the index and the entries say, which variables are
registered, and what more requests do.
-/

namespace SmtEncoding

deriving instance Hashable for ValueType, Variable

/-- A registry with an index. -/
structure IndexedRegistry (O : SolverSort → Type) where
  /-- The position of each variable among the entries. -/
  index : Std.HashMap Variable Nat
  /-- The entries. -/
  registry : Registry O

namespace IndexedRegistry

variable {O : SolverSort → Type} {σ : Type}

/-- The indexed registry without entries. -/
def empty : IndexedRegistry O := ⟨∅, .empty⟩

/-- The object of the entry that the index leads to. -/
def get? (r : IndexedRegistry O) (v : Variable) : Option (Object O) :=
  r.index[v]?.bind (r.registry.objects[·]?)

/-- The indexed registry with one more entry, which stands behind the others. -/
def insert (r : IndexedRegistry O) (v : Variable) (o : Object O) : IndexedRegistry O :=
  ⟨r.index.insert v r.registry.size, r.registry.insert v o⟩

/-- Creates the object for a name and notes the name. -/
def watch {α : Type} (create : String → Action σ α) (name : String) :
    Action (σ × List String) α := do
  modify fun p => (p.1, p.2 ++ [name])
  Action.zoom Prod.fst (fun s p => (s, p.2)) (create name)

/-- The object of a variable under a sort, as in a registry, but found by the index. -/
def resolve {sort : SolverSort} (create : String → Action σ (O sort)) (allow : Bool)
    (v : Variable) : Action (σ × IndexedRegistry O) (O sort) := do
  match (← get).2.get? v with
  | some found =>
    match found.as? sort with
    | some object => pure object
    | none => throw (.sortMismatch v.name sort found.sort)
  | none =>
    if allow then
      let object ← Action.zoom Prod.fst (fun s p => (s, p.2)) (create v.name)
      Action.note (.created v sort)
      modify fun p => (p.1, p.2.insert v ⟨sort, object⟩)
      pure object
    else throw (.variableNotPreregistered v.name)

/-! ## The index and the entries -/

/-- The index gives a position for a variable exactly if the variable stands there. -/
def Coherent (r : IndexedRegistry O) : Prop :=
  ∀ (v : Variable) (i : Nat), r.index[v]? = some i ↔ r.registry.registered[i]? = some v

variable {r : IndexedRegistry O} {v : Variable} {o : Object O}

theorem coherent_empty : (empty : IndexedRegistry O).Coherent := by
  intro v i
  simp [empty, Registry.empty, Registry.registered]

namespace Coherent

/-- A variable that stood at two positions would have two of them in the index. -/
theorem nodup (h : r.Coherent) : r.registry.registered.Nodup := by
  rw [List.nodup_iff_getElem?_ne_getElem?]
  intro i j hij hj heq
  have hv : r.registry.registered[j]? = some r.registry.registered[j] :=
    List.getElem?_eq_getElem hj
  have hi := (h _ i).mpr (heq.trans hv)
  rw [(h _ j).mpr hv] at hi
  exact absurd (Option.some.inj hi) hij.ne'

/-- The index leads nowhere exactly for variables that are not registered. -/
theorem index_eq_none_iff (h : r.Coherent) :
    r.index[v]? = none ↔ v ∉ r.registry.registered := by
  rw [Option.eq_none_iff_forall_ne_some, List.mem_iff_getElem?, not_exists]
  exact forall_congr' fun i => not_congr (h v i)

/-- A position in the index is that of an entry of the variable. -/
theorem entry_at (h : r.Coherent) {i : Nat} (hi : r.index[v]? = some i) :
    ∃ o, r.registry.entries[i]? = some (v, o) ∧ r.get? v = some o := by
  have hstands := (h v i).mp hi
  rw [Registry.registered, List.getElem?_map, Option.map_eq_some_iff] at hstands
  obtain ⟨⟨w, o⟩, hentry, rfl⟩ := hstands
  refine ⟨o, hentry, ?_⟩
  rw [get?, hi, Option.bind_some, Registry.objects, List.getElem?_map, hentry]
  rfl

/-- The index leads to the entry that the registry finds. -/
theorem get?_eq (h : r.Coherent) (v : Variable) : r.get? v = r.registry.get? v := by
  cases hi : r.index[v]? with
  | none =>
    rw [get?, hi, Option.bind_none]
    exact (Registry.get?_eq_none_iff.mpr (h.index_eq_none_iff.mp hi)).symm
  | some i =>
    obtain ⟨o, hentry, hget⟩ := h.entry_at hi
    rw [hget, Registry.get?_of_mem h.nodup (List.mem_of_getElem? hentry)]

/-- A variable that is not registered may be entered. -/
theorem insert (h : r.Coherent) (hnew : r.get? v = none) (o : Object O) :
    (r.insert v o).Coherent := by
  rw [h.get?_eq, Registry.get?_eq_none_iff] at hnew
  intro w i
  have hsize : r.registry.registered.length = r.registry.size := List.length_map _
  simp only [IndexedRegistry.insert, Std.HashMap.getElem?_insert, Registry.registered_insert,
    beq_iff_eq]
  by_cases hw : v = w
  · subst hw
    rw [if_pos rfl, Option.some_inj, List.getElem?_append, hsize]
    split
    · rename_i hlt
      refine ⟨fun heq => absurd (heq ▸ hlt) (lt_irrefl _), fun hstands => ?_⟩
      exact absurd (List.mem_of_getElem? hstands) hnew
    · rename_i hge
      rw [List.getElem?_singleton]
      constructor
      · rintro rfl
        simp
      · intro hstands
        split at hstands
        · omega
        · cases hstands
  · rw [if_neg hw, h w i, List.getElem?_append, hsize]
    split
    · rfl
    · rename_i hge
      rw [List.getElem?_eq_none (hsize.le.trans (not_lt.mp hge)), List.getElem?_singleton]
      split
      · simpa using hw
      · rfl

end Coherent

/-! ## One variable -/

variable {sort : SolverSort} {create : String → Action σ (O sort)} {s : σ} {allow : Bool}

theorem run_resolve_some {found : Object O} (h : r.get? v = some found) :
    (resolve create allow v).run (s, r) =
      ⟨match found.as? sort with
        | some x => .ok x
        | none => .error (.sortMismatch v.name sort found.sort), (s, r), []⟩ := by
  rw [resolve, Action.run_get_bind]
  simp only [h]
  cases found.as? sort <;> rfl

theorem run_resolve_none_false (h : r.get? v = none) :
    (resolve create false v).run (s, r) =
      ⟨.error (.variableNotPreregistered v.name), (s, r), []⟩ := by
  rw [resolve, Action.run_get_bind]
  simp only [h]
  rfl

theorem run_resolve_none_true (h : r.get? v = none) :
    (resolve create true v).run (s, r) =
      match ((create v.name).run s).value with
      | .ok x => ⟨.ok x, (((create v.name).run s).state, r.insert v ⟨sort, x⟩),
          ((create v.name).run s).log ++ [.created v sort]⟩
      | .error e =>
        ⟨.error e, (((create v.name).run s).state, r), ((create v.name).run s).log⟩ := by
  rw [resolve, Action.run_get_bind]
  simp only [h, if_true]
  rw [Action.run_bind, Action.run_zoom]
  cases ((create v.name).run s).value with
  | ok x => rfl
  | error e => rfl

theorem run_watch {α : Type} (create : String → Action σ α) (name : String) (names : List String) :
    (watch create name).run (s, names) =
      ⟨((create name).run s).value, (((create name).run s).state, names ++ [name]),
        ((create name).run s).log⟩ := by
  rw [watch, Action.run_bind_of_ok (a := ⟨⟩) (by rw [Action.run_modify]), Action.run_modify,
    Action.run_zoom, List.nil_append]

/-- The creation runs if the variable is not registered and may be created, with its name. -/
theorem run_resolve_watch (create : String → Action σ (O sort)) (allow : Bool) (v : Variable)
    (s : σ) (r : IndexedRegistry O) (names : List String) :
    (resolve (watch create) allow v).run ((s, names), r) =
      let reply := (resolve create allow v).run (s, r)
      let noted := if r.get? v = none ∧ allow = true then [v.name] else []
      ⟨reply.value, ((reply.state.1, names ++ noted), reply.state.2), reply.log⟩ := by
  cases hget : r.get? v with
  | some found =>
    rw [run_resolve_some hget, run_resolve_some hget]
    simp
  | none =>
    cases allow with
    | false =>
      rw [run_resolve_none_false hget, run_resolve_none_false hget]
      simp
    | true =>
      rw [run_resolve_none_true hget, run_resolve_none_true hget, run_watch]
      cases ((create v.name).run s).value with
      | ok x => simp
      | error err => simp

/-- In step with its index, a registry gives the answer and the state that it gives without. -/
theorem Coherent.inStep (h : r.Coherent) (create : String → Action σ (O sort)) (allow : Bool)
    (v : Variable) (s : σ) :
    (Registry.resolve create allow v).run (s, r.registry) =
        (let reply := (resolve create allow v).run (s, r)
        ⟨reply.value, (reply.state.1, reply.state.2.registry), reply.log⟩) ∧
      ((resolve create allow v).run (s, r)).state.2.Coherent := by
  cases hget : r.get? v with
  | some found =>
    rw [run_resolve_some hget, Registry.run_resolve_some (h.get?_eq v ▸ hget)]
    exact ⟨rfl, h⟩
  | none =>
    have hplain : r.registry.get? v = none := h.get?_eq v ▸ hget
    cases allow with
    | false =>
      rw [run_resolve_none_false hget, Registry.run_resolve_none_false hplain]
      exact ⟨rfl, h⟩
    | true =>
      rw [run_resolve_none_true hget, Registry.run_resolve_none_true hplain]
      cases ((create v.name).run s).value with
      | ok x => exact ⟨rfl, h.insert hget _⟩
      | error err => exact ⟨rfl, h⟩

end IndexedRegistry

/-! ## Requests -/

/-- A request for the object of a variable under a sort. -/
structure Request (σ : Type) (O : SolverSort → Type) where
  /-- The variable. -/
  v : Variable
  /-- The sort, which need not be that of the declared type. -/
  sort : SolverSort
  /-- Whether the variable may be created. -/
  allow : Bool
  /-- Creates an object for a name, or fails. -/
  create : String → Action σ (O sort)

namespace Request

variable {O : SolverSort → Type} {σ τ : Type}

/-- Asks a registry. -/
def ask (q : Request σ O) : Action (σ × Registry O) (Object O) :=
  (⟨q.sort, ·⟩) <$> Registry.resolve q.create q.allow q.v

/-- Asks an indexed registry. -/
def askIndexed (q : Request σ O) : Action (σ × IndexedRegistry O) (Object O) :=
  (⟨q.sort, ·⟩) <$> IndexedRegistry.resolve q.create q.allow q.v

/-- The request, but the creation notes the name that it is run with. -/
def watched (q : Request σ O) : Request (σ × List String) O where
  v := q.v
  sort := q.sort
  allow := q.allow
  create := IndexedRegistry.watch q.create

/-- Makes requests one after another, each with the state that those before it left.  One that fails
does not end the others.  The outcomes come with the variables asked for. -/
def answers (ask : Request σ O → Action τ (Object O)) (requests : List (Request σ O)) :
    Call τ (List (Variable × Except EncodeError (Object O))) :=
  requests.mapM fun q => (q.v, ·) <$> ExceptT.run (ask q)

/-- The variables that were asked for with success. -/
def resolved (outcomes : List (Variable × Except EncodeError (Object O))) : List Variable :=
  outcomes.filterMap fun p => p.2.toOption.map fun _ => p.1

/-! ### One request -/

variable {q : Request σ O} {s : σ} {r : IndexedRegistry O}

/-- What a request does to the state of its creation and to an indexed registry. -/
structure Atomic (q : Request σ O) (s : σ) (r : IndexedRegistry O) : Prop where
  /-- The creation runs if the variable is not registered and may be created, with its name. -/
  runs : ∀ names, q.watched.askIndexed.run ((s, names), r) =
    let reply := q.askIndexed.run (s, r)
    let noted := if r.get? q.v = none ∧ q.allow = true then [q.v.name] else []
    ⟨reply.value, ((reply.state.1, names ++ noted), reply.state.2), reply.log⟩
  /-- An error leaves the registry as it was. -/
  failed : ∀ err, (q.askIndexed.run (s, r)).value = .error err →
    (q.askIndexed.run (s, r)).state.2 = r
  /-- A registered variable answers with its object, if that has the sort, and changes nothing. -/
  found : ∀ o, r.get? q.v = some o → q.askIndexed.run (s, r) =
    ⟨if o.sort = q.sort then .ok o else .error (.sortMismatch q.v.name q.sort o.sort), (s, r), []⟩
  /-- A success on a variable that is not registered is that of the creation, and adds one entry. -/
  entered : r.get? q.v = none → ∀ o, (q.askIndexed.run (s, r)).value = .ok o →
    o.sort = q.sort ∧ ((q.create q.v.name).run s).value.map (⟨q.sort, ·⟩) = .ok o ∧
      (q.askIndexed.run (s, r)).state.2.registry.entries = r.registry.entries ++ [(q.v, o)]

theorem run_askIndexed (q : Request σ O) (s : σ) (r : IndexedRegistry O) :
    q.askIndexed.run (s, r) =
      ⟨((IndexedRegistry.resolve q.create q.allow q.v).run (s, r)).value.map (⟨q.sort, ·⟩),
        ((IndexedRegistry.resolve q.create q.allow q.v).run (s, r)).state,
        ((IndexedRegistry.resolve q.create q.allow q.v).run (s, r)).log⟩ :=
  Action.run_map ..

/-- A request is answered, or it fails and changes nothing but the state of the backend. -/
theorem atomic (q : Request σ O) (s : σ) (r : IndexedRegistry O) : q.Atomic s r where
  runs names := by
    have hresolve := IndexedRegistry.run_resolve_watch q.create q.allow q.v s r names
    rw [run_askIndexed, run_askIndexed]
    simp only [watched, hresolve]
  failed err herr := by
    rw [run_askIndexed] at herr ⊢
    cases hget : r.get? q.v with
    | some o => rw [IndexedRegistry.run_resolve_some hget]
    | none =>
      cases hallow : q.allow with
      | false => rw [IndexedRegistry.run_resolve_none_false hget]
      | true =>
        rw [hallow, IndexedRegistry.run_resolve_none_true hget] at herr
        rw [IndexedRegistry.run_resolve_none_true hget]
        cases hmade : ((q.create q.v.name).run s).value with
        | ok x =>
          rw [hmade] at herr
          cases herr
        | error err' => rfl
  found o hget := by
    rw [run_askIndexed, IndexedRegistry.run_resolve_some hget]
    cases hsort : o.as? q.sort with
    | some x =>
      obtain rfl := Object.as?_eq_some_iff.mp hsort
      simp [Except.map]
    | none => simp [Except.map, Object.as?_eq_none_iff.mp hsort]
  entered hget o ho := by
    rw [run_askIndexed] at ho ⊢
    cases hallow : q.allow with
    | false =>
      rw [hallow, IndexedRegistry.run_resolve_none_false hget] at ho
      cases ho
    | true =>
      rw [hallow, IndexedRegistry.run_resolve_none_true hget] at ho
      rw [IndexedRegistry.run_resolve_none_true hget]
      cases hmade : ((q.create q.v.name).run s).value with
      | ok x =>
        rw [hmade] at ho
        cases ho
        exact ⟨rfl, rfl, rfl⟩
      | error err =>
        rw [hmade] at ho
        cases ho

/-- A request fails, or it answers with what is registered, or it adds an entry and answers with
that. -/
theorem askIndexed_cases (q : Request σ O) (s : σ) (r : IndexedRegistry O) :
    (∃ err, (q.askIndexed.run (s, r)).value = .error err ∧
      (q.askIndexed.run (s, r)).state.2 = r) ∨
    (∃ o, (q.askIndexed.run (s, r)).value = .ok o ∧ r.get? q.v = some o ∧
      (q.askIndexed.run (s, r)).state.2 = r) ∨
    (∃ o, (q.askIndexed.run (s, r)).value = .ok o ∧ r.get? q.v = none ∧
      (q.askIndexed.run (s, r)).state.2.registry.entries = r.registry.entries ++ [(q.v, o)]) := by
  have h := q.atomic s r
  cases hvalue : (q.askIndexed.run (s, r)).value with
  | error err => exact .inl ⟨err, rfl, h.failed err hvalue⟩
  | ok o =>
    cases hget : r.get? q.v with
    | some found =>
      have hrun := h.found found hget
      rw [hrun] at hvalue ⊢
      split at hvalue
      · cases hvalue
        exact .inr (.inl ⟨o, rfl, rfl, rfl⟩)
      · cases hvalue
    | none => exact .inr (.inr ⟨o, rfl, rfl, (h.entered hget o hvalue).2.2⟩)

/-- In step with its index, a registry gives the answer that it gives without, and stays so. -/
theorem ask_inStep (q : Request σ O) (s : σ) {r : IndexedRegistry O} (h : r.Coherent) :
    q.ask.run (s, r.registry) =
        (let reply := q.askIndexed.run (s, r)
        ⟨reply.value, (reply.state.1, reply.state.2.registry), reply.log⟩) ∧
      (q.askIndexed.run (s, r)).state.2.Coherent := by
  obtain ⟨hresolve, hstays⟩ :=
    h.inStep q.create q.allow q.v s
  rw [ask, Action.run_map, run_askIndexed, hresolve]
  exact ⟨rfl, hstays⟩

/-! ### Requests one after another -/

theorem answers_cons (ask : Request σ O → Action τ (Object O)) (q : Request σ O)
    (requests : List (Request σ O)) (t : τ) :
    answers ask (q :: requests) t =
      ⟨(q.v, ((ask q).run t).value) :: (answers ask requests ((ask q).run t).state).value,
        (answers ask requests ((ask q).run t).state).state,
        ((ask q).run t).log ++ (answers ask requests ((ask q).run t).state).log⟩ := by
  rw [answers, List.mapM_cons]
  simp only [map_eq_pure_bind, Call.bind_apply, Call.pure_apply, List.append_nil]
  rfl

/-- Entries stay where they are. -/
theorem entries_prefix (requests : List (Request σ O)) (p : σ × IndexedRegistry O) :
    p.2.registry.entries <+: (answers askIndexed requests p).state.2.registry.entries := by
  induction requests generalizing p with
  | nil => exact List.prefix_rfl
  | cons q requests ih =>
    have hstep : p.2.registry.entries <+: (q.askIndexed.run p).state.2.registry.entries := by
      obtain ⟨_, _, hsame⟩ | ⟨_, _, _, hsame⟩ | ⟨o, _, _, hentries⟩ := q.askIndexed_cases p.1 p.2
      · rw [hsame]
      · rw [hsame]
      · rw [hentries]
        exact List.prefix_append _ _
    rw [answers_cons]
    exact hstep.trans (ih _)

/-- In step with its index, a registry gives the answers that it gives without, and stays so. -/
theorem answers_inStep (requests : List (Request σ O)) {p : σ × IndexedRegistry O}
    (h : p.2.Coherent) :
    answers ask requests (p.1, p.2.registry) =
        (let reply := answers askIndexed requests p
        ⟨reply.value, (reply.state.1, reply.state.2.registry), reply.log⟩) ∧
      (answers askIndexed requests p).state.2.Coherent := by
  induction requests generalizing p with
  | nil => exact ⟨rfl, h⟩
  | cons q requests ih =>
    obtain ⟨hask, hstays⟩ := q.ask_inStep p.1 h
    obtain ⟨hrest, hlast⟩ := ih hstays
    rw [answers_cons, answers_cons, hask, hrest]
    exact ⟨rfl, hlast⟩

theorem unseen_of_none_known (vs : List Variable) : unseen [] vs = vs.eraseDups := by
  simp [unseen, List.removeAll]

/-- What is registered are the variables that were asked for with success. -/
theorem registered_answers (requests : List (Request σ O)) {p : σ × IndexedRegistry O}
    (h : p.2.Coherent) :
    (answers askIndexed requests p).state.2.registry.registered =
      (resolved (answers askIndexed requests p).value).foldl enter p.2.registry.registered := by
  induction requests generalizing p with
  | nil => rfl
  | cons q requests ih =>
    rw [answers_cons]
    refine (ih (q.ask_inStep p.1 h).2).trans ?_
    obtain ⟨err, hvalue, hsame⟩ | ⟨o, hvalue, hget, hsame⟩ | ⟨o, hvalue, hget, hentries⟩ :=
      q.askIndexed_cases p.1 p.2
    · rw [hsame, hvalue]
      rfl
    · have hmem : q.v ∈ p.2.registry.registered := by
        rw [h.get?_eq] at hget
        exact List.mem_map_of_mem (Registry.mem_of_get? hget)
      rw [hsame, hvalue]
      exact congrArg (List.foldl enter · _) (enter_of_mem hmem).symm
    · have hnew : q.v ∉ p.2.registry.registered := by
        rwa [h.get?_eq, Registry.get?_eq_none_iff] at hget
      have hregistered : (q.askIndexed.run p).state.2.registry.registered =
          enter p.2.registry.registered q.v := by
        rw [enter_of_not_mem hnew, Registry.registered, hentries, List.map_append]
        rfl
      rw [hregistered, hvalue]
      rfl

end Request

/-! ## The map that requests leave -/

/-- The index and the entries describe one map. -/
structure IndexedRegistry.SameMap {O : SolverSort → Type} (r : IndexedRegistry O) : Prop where
  /-- A position in the index is that of an entry of the variable, which is what is found. -/
  leads : ∀ v i, r.index[v]? = some i →
    ∃ o, r.registry.entries[i]? = some (v, o) ∧ r.get? v = some o
  /-- An entry has its position in the index and is found. -/
  stands : ∀ v o i, r.registry.entries[i]? = some (v, o) →
    r.index[v]? = some i ∧ r.get? v = some o
  /-- No variable is registered twice. -/
  nodup : r.registry.registered.Nodup

theorem IndexedRegistry.Coherent.sameMap {O : SolverSort → Type} {r : IndexedRegistry O}
    (h : r.Coherent) : r.SameMap where
  leads _ _ := h.entry_at
  stands v o i hentry := by
    have hindex : r.index[v]? = some i := by
      rw [h v i, Registry.registered, List.getElem?_map, hentry]
      rfl
    obtain ⟨o', hentry', hget⟩ := h.entry_at hindex
    rw [hentry] at hentry'
    cases hentry'
    exact ⟨hindex, hget⟩
  nodup := h.nodup

open Request in
/-- Whatever requests are made of an empty registry, with whatever creations: the index and the
entries describe one map, of the variables that were asked for with success; one more request adds
at most one entry, and changes nothing if it fails; what is found stays, whatever follows; and a
registry without an index gives the same answers. -/
theorem resolve_keeps_map {O : SolverSort → Type} {σ : Type} (requests more : List (Request σ O))
    (s : σ) :
    let before := answers askIndexed requests (s, .empty)
    let r := before.state.2
    let after := (answers askIndexed more before.state).state.2
    r.SameMap ∧
      r.registry.registered = (resolved before.value).eraseDups ∧
      r.registry.size = (resolved before.value).toFinset.card ∧
      (∀ q : Request σ O, q.Atomic before.state.1 r) ∧
      r.registry.entries <+: after.registry.entries ∧
      (∀ v o, r.get? v = some o → after.get? v = some o) ∧
      answers ask requests (s, .empty) =
        ⟨before.value, (before.state.1, r.registry), before.log⟩ := by
  intro before r after
  obtain ⟨hplain, hr⟩ := answers_inStep requests (p := (s, .empty)) IndexedRegistry.coherent_empty
  have hafter : after.Coherent := (answers_inStep more hr).2
  have hkept : r.registry.entries <+: after.registry.entries := entries_prefix more before.state
  have hregistered : r.registry.registered = (resolved before.value).eraseDups := by
    have hfold := registered_answers requests (p := (s, .empty)) IndexedRegistry.coherent_empty
    have hempty : (IndexedRegistry.empty : IndexedRegistry O).registry.registered = [] := rfl
    rw [hempty, foldl_enter, List.nil_append, unseen_of_none_known] at hfold
    exact hfold
  have hcard : r.registry.size = (resolved before.value).toFinset.card := by
    have hsets : r.registry.registered.toFinset = (resolved before.value).toFinset := by
      ext v
      rw [List.mem_toFinset, List.mem_toFinset, hregistered, List.mem_eraseDups]
    rw [← hsets, List.toFinset_card_of_nodup hr.nodup, Registry.registered, List.length_map]
    rfl
  have hfound : ∀ v o, r.get? v = some o → after.get? v = some o := by
    intro v o hget
    rw [hr.get?_eq] at hget
    rw [hafter.get?_eq]
    exact Registry.get?_of_mem hafter.nodup (hkept.subset (Registry.mem_of_get? hget))
  exact ⟨hr.sameMap, hregistered, hcard, fun q => q.atomic before.state.1 r, hkept, hfound,
    hplain⟩

end SmtEncoding
