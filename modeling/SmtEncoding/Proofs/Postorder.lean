import SmtEncoding.Proofs.Creation
import SmtEncoding.Proofs.Unfolding

/-!
# Encoding in postorder

What is encoded is built node by node, operands first and from left to right, and the object of the
last node is the answer.  A variable is built where it occurs first, unless it is registered
already, and is that object wherever it occurs.  `Builds` says this of one action over a backend of
trees, where the object of a variable can only be its leaf (`Encoder.Leaves`), and it follows for
terms and formulas by induction (`Builds.encodeTerm`, `Builds.encode`).

A record unfolds to such trees.  So the position that a formula or a term is answered with unfolds
to its tree, and the entries that are added unfold to the nodes that are built
(`record_unfolds_to_tree`).
-/

namespace SmtEncoding

variable {α β : Type}

/-! ## Leaves -/

/-- The object of every registered variable is its leaf. -/
def Encoder.Leaves (e : Encoder Forest.backend) : Prop :=
  ∀ p ∈ e.registry.entries, p.2.value = .node (.var p.2.sort p.1.name) []

/-- The object of a new variable is its leaf. -/
theorem Forest.run_createVariable (name : String) (sort : SolverSort) (s : Forest.State) :
    (Forest.backend.createVariable name sort).run s =
      ⟨.ok (.node (.var sort name) []),
        { s with trees := s.trees ++ [.node (.var sort name) []] }, []⟩ := by
  cases sort <;> rfl

/-- A variable that is registered with its leaf leaves the others as they are. -/
theorem Encoder.Leaves.insert {e : Encoder Forest.backend} (h : e.Leaves) (v : Variable)
    (sort : SolverSort) (s : Forest.State) :
    Encoder.Leaves { e with
      backend := s, registry := e.registry.insert v ⟨sort, .node (.var sort v.name) []⟩ } := by
  intro p hp
  rcases List.mem_append.mp hp with hp | hp
  · exact h p hp
  · rw [List.mem_singleton.mp hp]

/-- Whatever is encoded, registered variables keep their leaves. -/
theorem upkeep_leaves :
    Upkeep (B := Forest.backend) Encoder.Leaves (fun _ => True) (fun _ _ => True) where
  core _ := .onBackend (fun _ he => he) fun _ _ _ => trivial
  rational _ := .onBackend (fun _ he => he) fun _ _ _ => trivial
  resolve allow sort v _ := by
    refine .resolve (fun _ _ _ _ _ => trivial) trivial (fun e x he _ hx => ?_)
      fun _ _ he _ => ⟨he, trivial⟩
    rw [Forest.run_createVariable] at hx
    cases hx
    exact he.insert v sort _
  typed _ := trivial
  raised _ _ := trivial
  setCreateVariables _ _ he := he
  renew _ _ _ := nofun

/-! ## Building -/

/-- From one state of an encoder to another, the given nodes are built in order, those apart that
are known variables. -/
structure Built (nodes : List (Tree Variable)) (e f : Encoder Forest.backend) : Prop where
  leaves : f.Leaves
  trees : f.backend.trees = e.backend.trees ++
    (Tree.introduced e.registry.registered nodes).map (Tree.map Variable.name)
  registered : f.registry.registered = Tree.met e.registry.registered nodes

theorem Built.nil {e : Encoder Forest.backend} (h : e.Leaves) : Built [] e e where
  leaves := h
  trees := (List.append_nil _).symm
  registered := (List.append_nil _).symm

/-- Nodes are built one after another, and a variable that is built among the first is known to the
others. -/
theorem Built.append {first second : List (Tree Variable)} {e f g : Encoder Forest.backend}
    (hef : Built first e f) (hfg : Built second f g) : Built (first ++ second) e g where
  leaves := hfg.leaves
  trees := by
    rw [hfg.trees, hef.trees, hef.registered, Tree.introduced_append, List.map_append,
      List.append_assoc]
  registered := by rw [hfg.registered, hef.registered, Tree.met_append]

/-- An action that does not fail builds the nodes, and `V` holds of its answer. -/
def Builds (nodes : List (Tree Variable)) (V : α → Prop)
    (f : Action (Encoder Forest.backend) α) : Prop :=
  ∀ ⦃e a⦄, e.Leaves → (f.run e).value = .ok a → V a ∧ Built nodes e (f.run e).state

namespace Builds

variable {nodes : List (Tree Variable)} {V : α → Prop} {W : β → Prop}
  {f : Action (Encoder Forest.backend) α}

theorem pure {a : α} (ha : V a) : Builds [] V (pure a) := by
  intro e b he hb
  rw [Action.run_pure] at hb ⊢
  cases hb
  exact ⟨ha, .nil he⟩

theorem throw (err : EncodeError) : Builds nodes V (throw err) := by
  intro e a _ ha
  rw [Action.run_throw] at ha
  cases ha

theorem ofExcept {r : Except EncodeError α} (hr : ∀ a, r = .ok a → V a) :
    Builds [] V (Action.ofExcept r) :=
  fun _ a he ha => ⟨hr a ha, .nil he⟩

/-- The nodes of the first action are built before those of the second. -/
theorem bind {more : List (Tree Variable)} {k : α → Action (Encoder Forest.backend) β}
    (h : Builds nodes V f) (hk : ∀ a, V a → Builds more W (k a)) :
    Builds (nodes ++ more) W (f >>= k) := by
  intro e b he hb
  cases hf : (f.run e).value with
  | ok a =>
    rw [Action.run_bind_of_ok hf] at hb ⊢
    obtain ⟨ha, hfirst⟩ := h he hf
    obtain ⟨hb, hsecond⟩ := hk a ha hfirst.leaves hb
    exact ⟨hb, hfirst.append hsecond⟩
  | error err =>
    rw [Action.run_bind_of_error hf] at hb
    cases hb

/-- An answer that builds nothing may follow. -/
theorem answer {φ : α → β} (h : Builds nodes V f) (hφ : ∀ a, V a → W (φ a)) :
    Builds nodes W (f >>= fun a => Pure.pure (φ a)) := by
  rw [← List.append_nil nodes]
  exact h.bind fun a ha => .pure (hφ a ha)

theorem map {φ : α → β} (h : Builds nodes V f) (hφ : ∀ a, V a → W (φ a)) :
    Builds nodes W (φ <$> f) := by
  rw [map_eq_pure_bind]
  exact h.answer hφ

theorem get_bind {k : Encoder Forest.backend → Action (Encoder Forest.backend) α}
    (h : ∀ e, Builds nodes V (k e)) : Builds nodes V (get >>= k) := by
  intro e a he ha
  rw [Action.run_get_bind] at ha ⊢
  exact h e he ha

theorem note_bind {event : LogEvent} {k : PUnit → Action (Encoder Forest.backend) α}
    (h : Builds nodes V (k ⟨⟩)) : Builds nodes V (Action.note event >>= k) := by
  intro e a he ha
  rw [Action.run_note_bind] at ha ⊢
  exact h he ha

/-- What builds nothing may come first. -/
theorem after {k : α → Action (Encoder Forest.backend) β} (h : Builds [] V f)
    (hk : ∀ a, V a → Builds nodes W (k a)) : Builds nodes W (f >>= k) :=
  h.bind hk

/-! ### Operations and variables -/

/-- An operation on the trees of the operands of a node builds the node. -/
theorem grow {node : Tree Variable} (hnode : node.var? = none)
    {op : Operation fun _ => Tree String}
    (hop : .node op.shape op.operands = node.map Variable.name) :
    Builds [node] (· = node.map Variable.name)
      (Encoder.onBackend (ExceptT.lift (Forest.grow op))) := by
  intro e a he ha
  rw [Encoder.onBackend, Action.run_zoom, Action.run_lift] at ha ⊢
  cases ha
  have hnew : ∀ v, node.var? = some v → v ∉ e.registry.registered := fun v hv => by
    rw [hnode] at hv
    cases hv
  refine ⟨hop, he, ?_, ?_⟩
  · rw [Tree.introduced_new hnew, Tree.introduced, List.map_singleton, ← hop]
    rfl
  · rw [Tree.met_new hnew, hnode, Tree.met, Tree.introduced, List.filterMap_nil]
    simp

/-- A variable is its leaf, which is built if the variable is not registered. -/
theorem resolve (allow : Bool) (sort : SolverSort) (v : Variable) :
    Builds [.node (.var sort v) []] (· = .node (.var sort v.name) [])
      (Encoder.resolve allow sort v) := by
  intro e a he ha
  cases hget : e.registry.get? v with
  | some found =>
    rw [Encoder.run_resolve_registered hget] at ha ⊢
    cases has : found.as? sort with
    | some x =>
      rw [has] at ha
      cases ha
      rw [Object.as?_eq_some_iff.mp has] at hget
      have hmem := Registry.mem_of_get? hget
      have hv : v ∈ e.registry.registered := List.mem_map_of_mem hmem
      refine ⟨he _ hmem, he, ?_, ?_⟩
      · rw [Tree.introduced_known rfl hv, Tree.introduced, List.map_nil, List.append_nil]
      · rw [Tree.met_known rfl hv, Tree.met, Tree.introduced, List.filterMap_nil, List.append_nil]
    | none =>
      rw [has] at ha
      cases ha
  | none =>
    have hnew := Registry.get?_eq_none_iff.mp hget
    cases allow with
    | false =>
      rw [Encoder.run_resolve_refused hget] at ha
      cases ha
    | true =>
      have hcreate := Forest.run_createVariable v.name sort e.backend
      rw [Encoder.run_resolve_created hget (by rw [hcreate]), hcreate] at ha ⊢
      cases ha
      have hfirst : ∀ w, (Tree.node (.var sort v) []).var? = some w →
          w ∉ e.registry.registered := by
        rintro w ⟨⟩
        exact hnew
      refine ⟨rfl, he.insert v sort _, ?_, ?_⟩
      · rw [Tree.introduced_new hfirst, Tree.introduced]
        rfl
      · rw [Tree.met_new hfirst, Tree.met, Tree.introduced, List.filterMap_nil, List.append_nil,
          Registry.registered_insert]
        rfl

theorem core {node : Tree Variable} (hnode : node.var? = none) {s : SolverSort}
    {op : CoreOp (fun _ => Tree String) s}
    (hop : .node (Operation.core op).shape (Operation.core op).operands =
      node.map Variable.name) :
    Builds [node] (· = node.map Variable.name) (Encoder.core op) :=
  grow hnode hop

theorem rational {node : Tree Variable} (hnode : node.var? = none) {s : SolverSort}
    {op : RationalOp (fun _ => Tree String) s}
    (hop : .node (Operation.rational op).shape (Operation.rational op).operands =
      node.map Variable.name) :
    Builds [node] (· = node.map Variable.name) (Encoder.rational op) :=
  grow hnode hop

theorem requireRationals : Builds [] (fun _ => True) Encoder.requireRationals :=
  .get_bind fun _ => .ofExcept fun _ _ => trivial

/-! ### Terms -/

/-- The numeral of a term: its tree, of the sort of its declared type. -/
structure OfTerm (t : Term) (n : Numeral fun _ => Tree String) : Prop where
  tree : n.get = t.tree.map Variable.name
  sort : n.sort = t.type.sort

/-- A variable in a term builds the leaf of its declared type. -/
theorem resolveNumeral (allow : Bool) (v : Variable) :
    Builds (Term.var v).tree.postorder (OfTerm (.var v)) (Encoder.resolveNumeral allow v) := by
  unfold Encoder.resolveNumeral
  cases htype : v.type with
  | bool => exact .throw _
  | integer =>
    have htree : (Term.var v).tree = .node (.var .int v) [] := by rw [Term.tree, htype]; rfl
    rw [htree]
    refine (resolve allow .int v).map fun a ha => ⟨?_, ?_⟩
    · rw [htree]
      exact ha
    · rw [Term.type, htype]
      rfl
  | double =>
    have htree : (Term.var v).tree = .node (.var .real v) [] := by rw [Term.tree, htype]; rfl
    rw [htree]
    refine requireRationals.after fun _ _ => (resolve allow .real v).map fun a ha => ⟨?_, ?_⟩
    · rw [htree]
      exact ha
    · rw [Term.type, htype]
      rfl

/-- A constant builds one node. -/
theorem encodeConstant (c : Constant) :
    Builds (Term.constant c).tree.postorder (OfTerm (.constant c)) (Encoder.encodeConstant c) := by
  cases c with
  | integer n => exact (core rfl rfl).map fun a ha => ⟨ha, rfl⟩
  | double x =>
    simp only [Encoder.encodeConstant]
    refine requireRationals.after fun _ _ => ?_
    cases hfinite : x.isFinite with
    | true =>
      rw [Double.toRat?_eq_some hfinite]
      exact (rational rfl rfl).map fun a ha => ⟨ha, rfl⟩
    | false =>
      rw [Double.toRat?, hfinite]
      exact .throw _

theorem map_get_of_expectIntegers {ns : List (Numeral fun _ => Tree String)}
    {xs : List (Tree String)} (h : Encoder.expectIntegers (B := Forest.backend) ns = .ok xs) :
    ns.map Numeral.get = xs := by
  rw [Encoder.eq_map_of_expectIntegers h, List.map_map]
  exact List.map_id xs

/-- A function is applied to trees that are built already, so it builds the node above them only. -/
theorem applyFunction (f : FunctionKind) (type : ValueType) {args : List Term}
    {ns : List (Numeral fun _ => Tree String)}
    (hns : ns.map Numeral.get = Tree.mapAll Variable.name (Term.trees args)) :
    Builds [(Term.app f args type).tree] (OfTerm (.app f args type))
      (Encoder.applyFunction (B := Forest.backend) f ns type) := by
  cases type with
  | bool => exact .throw _
  | integer =>
    have hexpect : Builds [] (fun xs => ns.map Numeral.get = xs)
        (Action.ofExcept (Encoder.expectIntegers (B := Forest.backend) ns)) :=
      .ofExcept fun _ => map_get_of_expectIntegers
    refine hexpect.after fun xs hxs => ?_
    have hoperands := hxs.symm.trans hns
    cases f with
    | add => exact (core rfl (congrArg _ hoperands)).map fun a ha => ⟨ha, rfl⟩
    | multiply => exact (core rfl (congrArg _ hoperands)).map fun a ha => ⟨ha, rfl⟩
    | divide => exact .throw _
  | double =>
    refine requireRationals.after fun _ _ => ?_
    cases f with
    | add => exact (rational rfl (congrArg _ hns)).map fun a ha => ⟨ha, rfl⟩
    | multiply => exact (rational rfl (congrArg _ hns)).map fun a ha => ⟨ha, rfl⟩
    | divide => exact .throw _

mutual

/-- A term builds its nodes in postorder, and the last one is its tree. -/
theorem encodeTerm : ∀ t : Term, Builds t.tree.postorder (OfTerm t) (Encoder.encodeTerm t)
  | .constant c => by
    simp only [Encoder.encodeTerm]
    exact encodeConstant c
  | .var v => by
    simp only [Encoder.encodeTerm]
    exact .get_bind fun _ => resolveNumeral _ v
  | .app f args type => by
    simp only [Encoder.encodeTerm]
    exact (encodeTerms args).bind fun ns hns => applyFunction f type hns

theorem encodeTerms : ∀ ts : List Term,
    Builds (Tree.postorderAll (Term.trees ts))
      (fun ns => ns.map Numeral.get = Tree.mapAll Variable.name (Term.trees ts))
      (Encoder.encodeTerms ts)
  | [] => by
    simp only [Encoder.encodeTerms]
    exact .pure rfl
  | t :: ts => by
    simp only [Encoder.encodeTerms]
    refine (encodeTerm t).bind fun n hn => (encodeTerms ts).answer fun ns hns => ?_
    rw [List.map_cons, Term.trees, Tree.mapAll, hn.tree, hns]

end

/-! ### Formulas -/

/-- A comparison of trees that are built already builds the node above them only. -/
theorem compareNumerals (c : Comparison) {l r : Term} {m n : Numeral fun _ => Tree String}
    (hm : OfTerm l m) (hn : OfTerm r n) :
    Builds [(Expr.compare c l r).tree] (· = (Expr.compare c l r).tree.map Variable.name)
      (Encoder.compareNumerals (B := Forest.backend) c m n) := by
  refine .get_bind fun e => ?_
  have hdouble : l.type = .double ∨ r.type = .double ↔ (m.isRational || n.isRational) = true := by
    rw [Bool.or_eq_true, Numeral.isRational_iff hm.sort, Numeral.isRational_iff hn.sort]
  split
  · rename_i hrational
    rw [Bool.and_eq_true] at hrational
    have hsort : l.comparedAs r = .real := if_pos (hdouble.mpr hrational.1)
    refine rational rfl ?_
    rw [Expr.tree, hsort, Tree.map, Tree.mapAll, Tree.mapAll, Tree.mapAll, ← hm.tree, ← hn.tree]
    rfl
  · refine (Builds.ofExcept fun x => Encoder.eq_integer_of_expectInteger).after fun x hx => ?_
    refine (Builds.ofExcept fun y => Encoder.eq_integer_of_expectInteger).after fun y hy => ?_
    subst hx hy
    have hsort : l.comparedAs r = .int := if_neg fun h => nomatch hdouble.mp h
    refine core rfl ?_
    rw [Expr.tree, hsort, Tree.map, Tree.mapAll, Tree.mapAll, Tree.mapAll, ← hm.tree, ← hn.tree]
    rfl

theorem checkTerm (t : Term) : Builds [] (fun _ => True) (Encoder.checkTerm t) :=
  .get_bind fun _ => .ofExcept fun _ _ => trivial

/-- A comparison builds the nodes of its left side, those of its right side and itself. -/
theorem encodeComparison (c : Comparison) (l r : Term) :
    Builds (Expr.compare c l r).tree.postorder (· = (Expr.compare c l r).tree.map Variable.name)
      (Encoder.encodeComparison c l r) := by
  rw [Expr.tree, Tree.postorder_binary, ← Expr.tree]
  refine (checkTerm l).after fun _ _ => (checkTerm r).after fun _ _ => ?_
  exact (encodeTerm l).bind fun m hm => (encodeTerm r).bind fun n hn => compareNumerals c hm hn

/-- A literal builds the leaf of its variable, and then its negation if it is negative. -/
theorem encodeLiteral (v : Variable) (positive : Bool) :
    Builds (Expr.literal v positive).tree.postorder
      (· = (Expr.literal v positive).tree.map Variable.name)
      (Encoder.encodeLiteral v positive) := by
  refine .get_bind fun e => ?_
  cases positive with
  | true => exact (resolve _ .bool v).answer fun _ hx => hx
  | false => exact (resolve _ .bool v).bind fun x hx => core rfl (by rw [hx]; rfl)

/-- A refusal gives no answer, so nothing has to be built for it. -/
theorem refuse (kind : NodeKind) {nodes : List (Tree Variable)} {V : Tree String → Prop} :
    Builds nodes V (Encoder.refuse (B := Forest.backend) kind) :=
  .note_bind (.throw _)

mutual

/-- A formula builds its nodes in postorder, and the last one is its tree. -/
theorem encode : ∀ x : Expr,
    Builds x.tree.postorder (· = x.tree.map Variable.name) (Encoder.encode x)
  | .constant value => by
    simp only [Encoder.encode]
    exact .note_bind (core rfl rfl)
  | .not x => by
    simp only [Encoder.encode, Expr.tree, Tree.postorder_unary]
    exact .note_bind ((encode x).bind fun a ha => core rfl (by rw [ha]; rfl))
  | .and xs => by
    simp only [Encoder.encode]
    exact .note_bind ((encodeAll xs).bind fun as has => core rfl (by rw [has]; rfl))
  | .or xs => by
    simp only [Encoder.encode]
    exact .note_bind ((encodeAll xs).bind fun as has => core rfl (by rw [has]; rfl))
  | .implies l r => by
    simp only [Encoder.encode, Expr.tree, Tree.postorder_binary]
    refine .note_bind ((encode l).bind fun a ha => ?_)
    exact (encode r).bind fun b hb => core rfl (by rw [ha, hb]; rfl)
  | .iff l r => by
    simp only [Encoder.encode, Expr.tree, Tree.postorder_binary]
    refine .note_bind ((encode l).bind fun a ha => ?_)
    exact (encode r).bind fun b hb => core rfl (by rw [ha, hb]; rfl)
  | .literal v positive => by
    simp only [Encoder.encode]
    exact .note_bind (encodeLiteral v positive)
  | .compare c l r => by
    simp only [Encoder.encode]
    exact .note_bind (encodeComparison c l r)
  | .atLeast _ _ => by
    simp only [Encoder.encode]
    exact refuse _
  | .atMost _ _ => by
    simp only [Encoder.encode]
    exact refuse _
  | .between _ _ _ => by
    simp only [Encoder.encode]
    exact refuse _
  | .choose _ _ => by
    simp only [Encoder.encode]
    exact refuse _
  | .exist _ _ => by
    simp only [Encoder.encode]
    exact refuse _
  | .forAll _ _ => by
    simp only [Encoder.encode]
    exact refuse _

theorem encodeAll : ∀ xs : List Expr,
    Builds (Tree.postorderAll (Expr.trees xs)) (· = Tree.mapAll Variable.name (Expr.trees xs))
      (Encoder.encodeAll xs)
  | [] => by
    simp only [Encoder.encodeAll]
    exact .pure rfl
  | x :: xs => by
    simp only [Encoder.encodeAll]
    refine (encode x).bind fun a ha => (encodeAll xs).answer fun as has => ?_
    rw [Expr.trees, Tree.mapAll, ha, has]

end

end Builds

/-! ## Records of sessions -/

/-- Where recording is in step with building, the record that is left unfolds to the nodes that are
built. -/
theorem Builds.unfold {nodes : List (Tree Variable)} {W : β → Prop}
    {V : Encoder Recording.backend → Encoder Forest.backend → α → β → Prop}
    {e : Encoder Recording.backend} {g : Encoder Forest.backend}
    {f : Action (Encoder Recording.backend) α} {k : Action (Encoder Forest.backend) β}
    (h : InStep unfolding.encoders V e g f k) (hk : Builds nodes W k) (hg : g.Leaves) {a : α}
    (ha : (f.run e).value = .ok a) :
    ∃ b, V (f.run e).state (k.run g).state a b ∧ W b ∧
      (k.run g).state.backend.trees = g.backend.trees ++
        (Tree.introduced g.registry.registered nodes).map (Tree.map Variable.name) ∧
      Recording.unfold (f.run e).state.backend.entries =
        some (k.run g).state.backend.trees := by
  have houtcome := h.outcome
  generalize hb : (k.run g).value = y at houtcome
  rw [ha] at houtcome
  cases houtcome with
  | ok hab =>
    obtain ⟨hW, hbuilt⟩ := hk hg hb
    exact ⟨_, hab, hW, hbuilt.trees, h.state.backend.2⟩

/-- However a session on one recording backend goes, its record unfolds: the tree of an entry is
that of its operation over the trees at the positions of its operands, which all stand before it.
If a formula or a term is encoded, the position that it is answered with unfolds to its tree, and
the entries that are added unfold to the nodes of that tree in postorder, without the variables that
are registered or stand before. -/
theorem record_unfolds_to_tree (capabilities : Capabilities) (options : Options)
    (steps : List Step) :
    let reached := (Session.performAll steps
      (.start (B := Recording.backend) (.empty capabilities) options)).state.encoder
    let built := fun (t : Tree Variable) =>
      (Tree.introduced reached.registry.registered t.postorder).map (Tree.map Variable.name)
    ∃ trees, Recording.unfold reached.backend.entries = some trees ∧
      (∀ (i : Nat) (entry : Recording.Entry), reached.backend.entries[i]? = some entry →
        ∃ operands, trees[i]? = some (.node entry.shape operands) ∧
          List.Forall₂ (fun j t => j < i ∧ trees[j]? = some t) entry.operands operands) ∧
      (∀ x i, ((Encoder.encode x).run reached).value = .ok i →
        let ended := ((Encoder.encode x).run reached).state.backend
        reached.backend.entries <+: ended.entries ∧
        Recording.unfold ended.entries = some (trees ++ built x.tree) ∧
        (trees ++ built x.tree)[(i : Nat)]? = some (x.tree.map Variable.name)) ∧
      ∀ t n, ((Encoder.encodeTerm t).run reached).value = .ok n →
        let ended := ((Encoder.encodeTerm t).run reached).state.backend
        reached.backend.entries <+: ended.entries ∧
        Recording.unfold ended.entries = some (trees ++ built t.tree) ∧
        (trees ++ built t.tree)[n.get]? = some (t.tree.map Variable.name) := by
  intro reached built
  have hempty : unfolds.state (.empty capabilities) ⟨capabilities, []⟩ := ⟨rfl, rfl⟩
  obtain ⟨hsessions, -, -⟩ := Simulation.sessions_performAll steps
    (Simulation.Sessions.start (R := unfolding) hempty options)
  have hencoders := hsessions.encoder
  have hleaves := (upkeep_leaves.performAll steps (s := .start ⟨capabilities, []⟩ options)
    (fun _ _ => trivial) nofun).1
  refine ⟨_, hencoders.backend.2, fun i entry => Recording.unfold_getElem? hencoders.backend.2,
    fun x i hi => ?_, fun t n hn => ?_⟩
  · obtain ⟨b, hib, hb, htrees, hunfold⟩ :=
      Builds.unfold (Simulation.inStep_encode hencoders x) (.encode x) hleaves hi
    rw [← hencoders.registered] at htrees
    refine ⟨Recording.entries_prefix_of_moves (Moving.moves (Moving.encode x)),
      hunfold.trans (congrArg some htrees), ?_⟩
    rw [← hb, ← htrees]
    exact hib
  · obtain ⟨m, hnm, hm, htrees, hunfold⟩ :=
      Builds.unfold (Simulation.inStep_encodeTerm hencoders t) (.encodeTerm t) hleaves hn
    rw [← hencoders.registered] at htrees
    refine ⟨Recording.entries_prefix_of_moves (Moving.moves (Moving.encodeTerm t)),
      hunfold.trans (congrArg some htrees), ?_⟩
    rw [← hm.tree, ← htrees]
    exact hnm.get

/-- A declared variable, and a formula that fails behind a new one. -/
def declaredBefore : List Step :=
  [.declare ⟨"n", .integer⟩, .encode (.or [.literal ⟨"a", .bool⟩ true, .choose 1 []])]

/-- A formula over both variables and a new one, each of which occurs twice or is negated. -/
def sharedVariables : Expr :=
  let half := .constant (.double ⟨0x3fe0000000000000⟩)
  let sum := .app .add [.var ⟨"n", .integer⟩, .var ⟨"n", .integer⟩, .var ⟨"d", .double⟩] .double
  .implies (.literal ⟨"a", .bool⟩ false)
    (.compare .lessEqual (.app .multiply [.var ⟨"d", .double⟩, half] .double) sum)

theorem record_unfolds_to_tree_shared :
    let reached := (Session.performAll declaredBefore
      (.start (B := Recording.backend) (.empty {}) {})).state.encoder
    let built := (Tree.introduced reached.registry.registered
      sharedVariables.tree.postorder).map (Tree.map Variable.name)
    ((Encoder.encode sharedVariables).run reached).value = .ok (8 : Nat) ∧ built.length = 7 ∧
    ∃ trees, Recording.unfold reached.backend.entries = some trees ∧ trees.length = 2 ∧
      (trees ++ built)[8]? = some (sharedVariables.tree.map Variable.name) := by
  dsimp only
  obtain ⟨trees, hunfold, _, hformulas, _⟩ := record_unfolds_to_tree {} {} declaredBefore
  obtain ⟨_, _, htree⟩ := hformulas sharedVariables (8 : Nat) rfl
  exact ⟨rfl, rfl, trees, hunfold, Recording.length_unfold hunfold, htree⟩

end SmtEncoding
