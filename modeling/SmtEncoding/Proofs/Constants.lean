import SmtEncoding.Proofs.Operation
import SmtEncoding.Proofs.Symbol
import SmtEncoding.SmtLib.Backend

/-!
# Declared constants

A state is well formed (`State.Wf`) if its declarations differ pairwise in each of three ways: in
their key, the name and sort that were asked for, in the body of their symbol, and in the number
of their node.  A declaration is added only for a key that has none, under a symbol whose body is
free and with a number that was never given.  So every operation keeps well-formedness, and it
leaves the older declarations where they were (`State.Grows`).

After any run of operations there is one declaration per key that was asked for, in the order of
the first requests (`keys_buildAll`), and each request was answered with the node of that
declaration (`buildAll_request`).  Keys, bodies and numbers therefore tell the same constants
apart (`constants_bijective`).
-/

namespace SmtEncoding.SmtLib

/-! ## Well-formed states -/

/-- The name and sort that a declaration answers. -/
def Declaration.key (d : Declaration) : String × SolverSort := (d.name, d.sort)

namespace State

/-- The names and sorts that were asked for, oldest first. -/
def keys (s : State) : List (String × SolverSort) := s.declarations.map Declaration.key

/-- The declarations of a state differ in key, in body and in number. -/
structure Wf (s : State) : Prop where
  /-- No key is declared twice. -/
  keys : s.keys.Nodup
  /-- No two symbols have the same body. -/
  bodies : s.bodies.Nodup
  /-- No two constants are the same node. -/
  ids : (s.declarations.map Declaration.id).Nodup
  /-- Numbers of new nodes are not taken. -/
  below : ∀ d ∈ s.declarations, d.id < s.nextId
  /-- Every symbol is an escaped name. -/
  escaped : ∀ d ∈ s.declarations, ∃ name, d.symbol = escape name

/-- What no operation takes back. -/
structure Grows (s t : State) : Prop where
  /-- The capabilities stay. -/
  capabilities : t.capabilities = s.capabilities
  /-- The older declarations stay in front. -/
  declarations : s.declarations <+: t.declarations
  /-- Numbers are not given again. -/
  nextId : s.nextId ≤ t.nextId

/-- What is found for a name and a sort is declared for them. -/
theorem mem_of_find? {s : State} {name : String} {sort : SolverSort} {d : Declaration}
    (h : s.find? name sort = some d) : d ∈ s.declarations ∧ d.key = (name, sort) := by
  have hkey := List.find?_some (p := fun d : Declaration => d.name == name && d.sort == sort) h
  rw [Bool.and_eq_true, beq_iff_eq, beq_iff_eq] at hkey
  exact ⟨List.mem_of_find?_eq_some h, Prod.ext hkey.1 hkey.2⟩

theorem Grows.refl (s : State) : s.Grows s := ⟨rfl, List.prefix_refl _, Nat.le_refl _⟩

theorem Grows.trans {s t u : State} (first : s.Grows t) (second : t.Grows u) : s.Grows u :=
  ⟨second.capabilities.trans first.capabilities, first.declarations.trans second.declarations,
    Nat.le_trans first.nextId second.nextId⟩

theorem Wf.empty (capabilities : Capabilities) (first : Nat) :
    (State.empty capabilities first).Wf :=
  ⟨.nil, .nil, .nil, nofun, nofun⟩

section Wf

variable {s : State} (h : s.Wf) {d e : Declaration} (hd : d ∈ s.declarations)
  (he : e ∈ s.declarations)

include h hd he

/-- The name and the sort tell declarations apart. -/
theorem Wf.eq_of_key_eq (hk : d.key = e.key) : d = e :=
  List.inj_on_of_nodup_map h.keys hd he hk

omit he in
/-- A declaration is found for its name and its sort. -/
theorem Wf.find?_of_mem : s.find? d.name d.sort = some d := by
  cases hfound : s.find? d.name d.sort with
  | none =>
    have hnot := List.find?_eq_none.mp hfound d hd
    simp at hnot
  | some e =>
    obtain ⟨hmem, hkey⟩ := mem_of_find? hfound
    rw [h.eq_of_key_eq hmem hd hkey]

theorem Wf.eq_of_body_eq (hb : body d.symbol = body e.symbol) : d = e :=
  List.inj_on_of_nodup_map (f := fun d : Declaration => body d.symbol) h.bodies hd he hb

theorem Wf.eq_of_id_eq (hi : d.id = e.id) : d = e :=
  List.inj_on_of_nodup_map h.ids hd he hi

end Wf

/-! ## What one operation does to a state -/

/-- The state after a new node that is not a constant. -/
def skip (s : State) : State := { s with nextId := s.nextId + 1 }

/-- The declaration that answers the first request for a name and a sort. -/
def nextDeclaration (s : State) (name : String) (sort : SolverSort) : Declaration :=
  ⟨name, sort, freeSymbol s.bodies name sort, s.nextId⟩

/-- The state after the first request for a name and a sort. -/
def declare (s : State) (name : String) (sort : SolverSort) : State :=
  { s with declarations := s.declarations ++ [s.nextDeclaration name sort],
           nextId := s.nextId + 1 }

@[simp] theorem keys_skip (s : State) : s.skip.keys = s.keys := rfl

@[simp] theorem keys_declare (s : State) (name : String) (sort : SolverSort) :
    (s.declare name sort).keys = s.keys ++ [(name, sort)] := by
  simp [keys, declare, nextDeclaration, Declaration.key]

@[simp] theorem bodies_declare (s : State) (name : String) (sort : SolverSort) :
    (s.declare name sort).bodies = s.bodies ++ [body (freeSymbol s.bodies name sort)] := by
  simp [bodies, declare, nextDeclaration]

/-- A new node that is no constant takes a number and nothing else. -/
theorem Wf.skip {s : State} (h : s.Wf) : s.skip.Wf :=
  ⟨h.keys, h.bodies, h.ids, fun d hd => Nat.lt_succ_of_lt (h.below d hd), h.escaped⟩

theorem grows_skip (s : State) : s.Grows s.skip :=
  ⟨rfl, List.prefix_refl _, Nat.le_succ _⟩

theorem nodup_concat {α : Type} {xs : List α} {x : α} (h : xs.Nodup) (hx : x ∉ xs) :
    (xs ++ [x]).Nodup := by
  rw [List.nodup_append]
  refine ⟨h, List.nodup_singleton x, fun y hy z hz => ?_⟩
  rw [List.mem_singleton.mp hz]
  exact fun hyx => hx (hyx ▸ hy)

/-- A declaration that is there after a request was there before it, or answers it. -/
theorem mem_declare {s : State} {name : String} {sort : SolverSort} {d : Declaration}
    (hd : d ∈ (s.declare name sort).declarations) :
    d ∈ s.declarations ∨ d = s.nextDeclaration name sort := by
  rcases List.mem_append.mp hd with hd | hd
  · exact Or.inl hd
  · exact Or.inr (List.mem_singleton.mp hd)

/-- A declaration for a new key clashes with none, as its symbol and its number are free. -/
theorem Wf.declare {s : State} (h : s.Wf) {name : String} {sort : SolverSort}
    (hkey : (name, sort) ∉ s.keys) : (s.declare name sort).Wf where
  keys := by
    rw [keys_declare]
    exact nodup_concat h.keys hkey
  bodies := by
    rw [bodies_declare]
    exact nodup_concat h.bodies (body_freeSymbol_not_mem _ _ _)
  ids := by
    rw [State.declare, List.map_append]
    refine nodup_concat h.ids fun hmem => ?_
    obtain ⟨d, hd, hid⟩ := List.mem_map.mp hmem
    exact Nat.ne_of_lt (h.below d hd) hid
  below := by
    intro d hd
    rcases mem_declare hd with hd | rfl
    · exact Nat.lt_succ_of_lt (h.below d hd)
    · exact Nat.lt_succ_self _
  escaped := by
    intro d hd
    rcases mem_declare hd with hd | rfl
    · exact h.escaped d hd
    · obtain ⟨j, _, hsymbol, _⟩ := freeSymbol_spec s.bodies name sort
      exact ⟨_, hsymbol⟩

theorem grows_declare (s : State) (name : String) (sort : SolverSort) :
    s.Grows (s.declare name sort) :=
  ⟨rfl, List.prefix_append _ _, Nat.le_succ _⟩

end State

/-- A constant is found again, or declared if its key is new. -/
theorem constant_cases (name : String) (sort : SolverSort) (s : State) :
    (∃ d ∈ s.declarations, d.key = (name, sort) ∧ constant name sort s = ⟨d.node, s, []⟩) ∨
      ((name, sort) ∉ s.keys ∧ constant name sort s =
        ⟨(s.nextDeclaration name sort).node, s.declare name sort,
          [.declaring (freeSymbol s.bodies name sort) sort]⟩) := by
  unfold constant
  cases hf : s.find? name sort with
  | some d =>
    obtain ⟨hd, hkey⟩ := State.mem_of_find? hf
    exact Or.inl ⟨d, hd, hkey, rfl⟩
  | none =>
    refine Or.inr ⟨fun hmem => ?_, rfl⟩
    obtain ⟨d, hd, hkey⟩ := List.mem_map.mp hmem
    have hne := List.find?_eq_none.mp hf d hd
    rw [Declaration.key, Prod.mk.injEq] at hkey
    simp [hkey] at hne

/-! ## Runs of operations -/

/-- Builds a node by an operation of either kind. -/
def build : Operation Obj → Call State Node
  | .core op => buildCore op
  | .rational op => buildRational op

/-- What an operator over any number of operands builds. -/
def combine (operator neutral : String) : List SExpr → SExpr
  | [] => .atom neutral
  | [x] => x
  | xs => .apply operator xs

section Fold

variable (operator neutral : String) (s : State)

/-- Operands are joined into the expression of the operator, the only one or the neutral element. -/
theorem expr_fold (xs : List Node) :
    (fold operator neutral xs s).value.expr = combine operator neutral (xs.map Node.expr) := by
  match xs with
  | [] => rfl
  | [_] => rfl
  | _ :: _ :: _ => rfl

/-- Joining operands builds one node or none. -/
theorem state_fold (xs : List Node) :
    (fold operator neutral xs s).state = s ∨ (fold operator neutral xs s).state = s.skip := by
  match xs with
  | [] => exact Or.inr rfl
  | [_] => exact Or.inl rfl
  | _ :: _ :: _ => exact Or.inr rfl

theorem foldReal_cons_cons (m n : Numeral Obj) (ns : List (Numeral Obj)) :
    foldReal operator neutral (m :: n :: ns) =
      fresh (.apply operator ((m :: n :: ns).map asReal)) := by
  cases m <;> rfl

/-- Operands are joined as reals, whether they are whole or not. -/
theorem expr_foldReal (ns : List (Numeral Obj)) :
    (foldReal operator neutral ns s).value.expr = combine operator neutral (ns.map asReal) := by
  match ns with
  | [] => rfl
  | [.integer _] => rfl
  | [.rational _] => rfl
  | m :: n :: ns =>
    rw [foldReal_cons_cons]
    rfl

/-- Joining operands as reals builds one node or none. -/
theorem state_foldReal (ns : List (Numeral Obj)) :
    (foldReal operator neutral ns s).state = s ∨
      (foldReal operator neutral ns s).state = s.skip := by
  match ns with
  | [] => exact Or.inr rfl
  | [.integer _] => exact Or.inr rfl
  | [.rational _] => exact Or.inl rfl
  | m :: n :: ns =>
    rw [foldReal_cons_cons]
    exact Or.inr rfl

end Fold

/-- An operation asks for a constant, or makes at most one new node that is none. -/
theorem build_cases (op : Operation Obj) (s : State) :
    (∃ name sort, op.request? = some (name, sort) ∧ build op s = constant name sort s) ∨
      (op.request? = none ∧ ((build op s).state = s ∨ (build op s).state = s.skip)) := by
  cases op with
  | core op =>
    cases op with
    | boolVar name => exact Or.inl ⟨name, .bool, rfl, rfl⟩
    | intVar name => exact Or.inl ⟨name, .int, rfl, rfl⟩
    | boolConstant value => cases value <;> exact Or.inr ⟨rfl, Or.inr rfl⟩
    | and xs => exact Or.inr ⟨rfl, state_fold _ _ s xs⟩
    | or xs => exact Or.inr ⟨rfl, state_fold _ _ s xs⟩
    | intAdd xs => exact Or.inr ⟨rfl, state_fold _ _ s xs⟩
    | intMultiply xs => exact Or.inr ⟨rfl, state_fold _ _ s xs⟩
    | not x => exact Or.inr ⟨rfl, Or.inr rfl⟩
    | implies x y => exact Or.inr ⟨rfl, Or.inr rfl⟩
    | iff x y => exact Or.inr ⟨rfl, Or.inr rfl⟩
    | intConstant value => exact Or.inr ⟨rfl, Or.inr rfl⟩
    | intCompare c x y => exact Or.inr ⟨rfl, Or.inr rfl⟩
  | rational op =>
    cases op with
    | var name => exact Or.inl ⟨name, .real, rfl, rfl⟩
    | add ns => exact Or.inr ⟨rfl, state_foldReal _ _ s ns⟩
    | multiply ns => exact Or.inr ⟨rfl, state_foldReal _ _ s ns⟩
    | constant value => exact Or.inr ⟨rfl, Or.inr rfl⟩
    | compare c m n => exact Or.inr ⟨rfl, Or.inr rfl⟩

/-- A request for a constant keeps the state well formed. -/
theorem wf_constant {s : State} (h : s.Wf) (name : String) (sort : SolverSort) :
    (constant name sort s).state.Wf := by
  rcases constant_cases name sort s with ⟨d, _, _, hc⟩ | ⟨hkey, hc⟩
  · rw [hc]
    exact h
  · rw [hc]
    exact h.declare hkey

/-- A request for a constant takes nothing back. -/
theorem grows_constant (s : State) (name : String) (sort : SolverSort) :
    s.Grows (constant name sort s).state := by
  rcases constant_cases name sort s with ⟨d, _, _, hc⟩ | ⟨_, hc⟩
  · rw [hc]
    exact .refl s
  · rw [hc]
    exact s.grows_declare name sort

/-- The constant for a key is the node of a declaration with that key. -/
theorem constant_declared (name : String) (sort : SolverSort) (s : State) :
    ∃ d ∈ (constant name sort s).state.declarations,
      d.key = (name, sort) ∧ (constant name sort s).value = d.node := by
  rcases constant_cases name sort s with ⟨d, hd, hkey, hc⟩ | ⟨_, hc⟩
  · rw [hc]
    exact ⟨d, hd, hkey, rfl⟩
  · rw [hc]
    exact ⟨_, List.mem_append_right _ (List.mem_singleton_self _), rfl, rfl⟩

/-- Every operation keeps the state well formed. -/
theorem wf_build {s : State} (h : s.Wf) (op : Operation Obj) : (build op s).state.Wf := by
  rcases build_cases op s with ⟨name, sort, _, hb⟩ | ⟨_, hb | hb⟩
  · rw [hb]
    exact wf_constant h name sort
  · rw [hb]
    exact h
  · rw [hb]
    exact h.skip

/-- No operation takes anything back. -/
theorem grows_build (s : State) (op : Operation Obj) : s.Grows (build op s).state := by
  rcases build_cases op s with ⟨name, sort, _, hb⟩ | ⟨_, hb | hb⟩
  · rw [hb]
    exact grows_constant s name sort
  · rw [hb]
    exact .refl s
  · rw [hb]
    exact s.grows_skip

/-- Carries out operations one after another and answers with the nodes that they build. -/
def buildAll : List (Operation Obj) → Call State (List Node)
  | [] => pure []
  | op :: ops => do
    let x ← build op
    let xs ← buildAll ops
    pure (x :: xs)

theorem buildAll_nil (s : State) : buildAll [] s = ⟨[], s, []⟩ := rfl

theorem state_buildAll_cons (op : Operation Obj) (ops : List (Operation Obj)) (s : State) :
    (buildAll (op :: ops) s).state = (buildAll ops (build op s).state).state := rfl

theorem value_buildAll_cons (op : Operation Obj) (ops : List (Operation Obj)) (s : State) :
    (buildAll (op :: ops) s).value =
      (build op s).value :: (buildAll ops (build op s).state).value := rfl

theorem length_buildAll (ops : List (Operation Obj)) (s : State) :
    (buildAll ops s).value.length = ops.length := by
  induction ops generalizing s with
  | nil => rfl
  | cons op ops ih => rw [value_buildAll_cons, List.length_cons, List.length_cons, ih]

/-- A run of operations keeps the state well formed. -/
theorem wf_buildAll (ops : List (Operation Obj)) {s : State} (h : s.Wf) :
    (buildAll ops s).state.Wf := by
  induction ops generalizing s with
  | nil => exact h
  | cons op ops ih => exact ih (wf_build h op)

/-- A run of operations takes nothing back. -/
theorem grows_buildAll (ops : List (Operation Obj)) (s : State) :
    s.Grows (buildAll ops s).state := by
  induction ops generalizing s with
  | nil => exact .refl s
  | cons op ops ih => exact (grows_build s op).trans (ih _)

/-- A run declares the keys that it asks for and that were not declared before, each once and in
the order of the first requests. -/
theorem keys_buildAll (ops : List (Operation Obj)) (s : State) :
    (buildAll ops s).state.keys =
      s.keys ++ ((ops.filterMap Operation.request?).removeAll s.keys).eraseDups := by
  induction ops generalizing s with
  | nil => simp [buildAll_nil, List.removeAll]
  | cons op ops ih =>
    rw [state_buildAll_cons, ih]
    rcases build_cases op s with ⟨name, sort, hreq, hb⟩ | ⟨hreq, hb⟩
    · rw [List.filterMap_cons_some hreq, hb]
      rcases constant_cases name sort s with ⟨d, hd, hkey, hc⟩ | ⟨hkey, hc⟩
      · have hmem : (name, sort) ∈ s.keys := hkey ▸ List.mem_map_of_mem hd
        simp [hc, List.removeAll, hmem]
      · simp [hc, List.removeAll, hkey, List.eraseDups_cons, List.filter_filter, beq_eq_decide,
          Bool.and_comm]
    · rw [List.filterMap_cons_none hreq]
      rcases hb with hb | hb <;> rw [hb]
      rw [State.keys_skip]

/-- A request in a run is answered with the node of the declaration of its key. -/
theorem buildAll_request (ops : List (Operation Obj)) (s : State) {i : Nat}
    {key : String × SolverSort} {x : Node} (hop : ops[i]?.bind Operation.request? = some key)
    (hx : (buildAll ops s).value[i]? = some x) :
    ∃ d ∈ (buildAll ops s).state.declarations, d.key = key ∧ x = d.node := by
  induction ops generalizing s i with
  | nil => cases hop
  | cons op ops ih =>
    rw [value_buildAll_cons] at hx
    rw [state_buildAll_cons]
    cases i with
    | zero =>
      simp only [List.getElem?_cons_zero, Option.bind_some, Option.some.injEq] at hop hx
      rcases build_cases op s with ⟨name, sort, hreq, hb⟩ | ⟨hreq, _⟩
      · obtain ⟨d, hd, hkey, hnode⟩ := constant_declared name sort s
        rw [hb] at hx ⊢
        have hgrows := grows_buildAll ops (constant name sort s).state
        refine ⟨d, hgrows.declarations.subset hd, ?_, hx ▸ hnode⟩
        rw [hkey]
        exact Option.some.inj (hreq.symm.trans hop)
      · rw [hreq] at hop
        cases hop
    | succ i => exact ih _ hop hx

/-! ## Constants and keys -/

/-- Constants are in bijection with the names and sorts that were asked for.  Every operation is
answered.  Two requests are answered with one node exactly if they have one key, and with symbols
of one body exactly then.  There is one declaration per key, in the order of the first requests,
and it holds the symbol that the requests are answered with. -/
theorem constants_bijective (capabilities : Capabilities) (first : Nat)
    (ops : List (Operation Obj)) :
    let reply := buildAll ops (.empty capabilities first)
    reply.value.length = ops.length ∧
    (∀ (i j : Nat) (k l : String × SolverSort) (x y : Node),
      ops[i]?.bind Operation.request? = some k → ops[j]?.bind Operation.request? = some l →
      reply.value[i]? = some x → reply.value[j]? = some y →
        (x.same y = true ↔ k = l) ∧ (x = y ↔ k = l) ∧
        ∃ a b, x.expr = .atom a ∧ y.expr = .atom b ∧ (body a = body b ↔ k = l)) ∧
    (∀ (i : Nat) (k : String × SolverSort) (x : Node),
      ops[i]?.bind Operation.request? = some k → reply.value[i]? = some x →
        ∃ d ∈ reply.state.declarations, d.name = k.1 ∧ d.sort = k.2 ∧ x.expr = .atom d.symbol) ∧
    reply.state.declarations.map (fun d => (d.name, d.sort)) =
      (ops.filterMap Operation.request?).eraseDups ∧
    (reply.state.declarations.map fun d => body d.symbol).Nodup := by
  intro reply
  have hwf : reply.state.Wf := wf_buildAll ops (.empty capabilities first)
  refine ⟨length_buildAll ops _, ?_, ?_, ?_, hwf.bodies⟩
  · intro i j k l x y hk hl hx hy
    obtain ⟨d, hd, rfl, rfl⟩ := buildAll_request ops _ hk hx
    obtain ⟨e, he, rfl, rfl⟩ := buildAll_request ops _ hl hy
    refine ⟨⟨fun hs => ?_, fun hkey => ?_⟩, ⟨fun hn => ?_, fun hkey => ?_⟩,
      d.symbol, e.symbol, rfl, rfl, fun hb => ?_, fun hkey => ?_⟩
    · rw [hwf.eq_of_id_eq hd he (beq_iff_eq.mp hs)]
    · rw [hwf.eq_of_key_eq hd he hkey]
      exact beq_self_eq_true _
    · rw [hwf.eq_of_id_eq hd he (congrArg Node.id hn)]
    · rw [hwf.eq_of_key_eq hd he hkey]
    · rw [hwf.eq_of_body_eq hd he hb]
    · rw [hwf.eq_of_key_eq hd he hkey]
  · intro i k x hk hx
    obtain ⟨d, hd, rfl, rfl⟩ := buildAll_request ops _ hk hx
    exact ⟨d, hd, rfl, rfl, rfl⟩
  · have hkeys := keys_buildAll ops (.empty capabilities first)
    have hempty : (State.empty capabilities first).keys = [] := rfl
    rw [hempty, List.nil_append] at hkeys
    refine hkeys.trans ?_
    simp [List.removeAll]

/-- A quoted name, a plain name with the same body, and the name that the second one is given. -/
def clashing : List (Operation Obj) :=
  [.core (.boolVar "a|b"), .core (.boolVar "a_b"), .core (.not ⟨7, .atom "a_b"⟩),
    .core (.boolVar "a_b@Bool"), .core (.boolVar "a|b")]

/-- Names that clash get nodes of their own, and the last request finds the first node again. -/
theorem constants_bijective_clashing :
    (buildAll clashing .empty).value[0]? = some ⟨0, .atom "|a_b|"⟩ ∧
    (buildAll clashing .empty).value[3]? = some ⟨3, .atom "a_b@Bool@Bool"⟩ ∧
    ((Node.same ⟨0, .atom "|a_b|"⟩ ⟨0, .atom "|a_b|"⟩ = true) ↔
      ("a|b", SolverSort.bool) = ("a|b", SolverSort.bool)) ∧
    ((Node.same ⟨0, .atom "|a_b|"⟩ ⟨3, .atom "a_b@Bool@Bool"⟩ = true) ↔
      ("a|b", SolverSort.bool) = ("a_b@Bool", SolverSort.bool)) := by
  have h₀ : (buildAll clashing .empty).value[0]? = some ⟨0, .atom "|a_b|"⟩ := by decide +kernel
  have h₃ : (buildAll clashing .empty).value[3]? = some ⟨3, .atom "a_b@Bool@Bool"⟩ := by
    decide +kernel
  have h₄ : (buildAll clashing .empty).value[4]? = some ⟨0, .atom "|a_b|"⟩ := by decide +kernel
  have hall := (constants_bijective {} 0 clashing).2.1
  exact ⟨h₀, h₃, (hall 0 4 _ _ _ _ rfl rfl h₀ h₄).1, (hall 0 3 _ _ _ _ rfl rfl h₀ h₃).1⟩

end SmtEncoding.SmtLib
