import SmtEncoding.Proofs.Interning
import SmtEncoding.Proofs.Postorder
import SmtEncoding.Proofs.Reading
import SmtEncoding.Proofs.Replay

/-!
# Terms by name

Which symbol a constant has depends on what was declared before it.  Which name and sort it was
declared for does not.  So an s-expression is also read as a `NamedTerm`, in which each constant is
replaced by its name and sort (`State.named?`).  The symbols give the s-expression back
(`expr_eq_of_named?`), so in one state it is the only one with that reading.

The named term of a formula is a function of its tree (`Tree.named`).  In whatever state an encoder
is, what it answers a formula with is read as the named term of the formula, and so for terms
(`Consistent.named?_encode`, `Consistent.named?_encodeTerm`).
-/

namespace SmtEncoding

/-! ## Named terms -/

/-- A term in which constants are given by the names and the sorts that they were declared for. -/
inductive NamedTerm where
  | literal (text : String)
  | constant (name : String) (sort : SolverSort)
  | apply (operator : String) (operands : List NamedTerm)
deriving Repr

namespace NamedTerm

mutual

/-- The term with symbols for its constants. -/
def expr (symbol : String → SolverSort → String) : NamedTerm → SExpr
  | literal text => .atom text
  | constant name sort => .atom (symbol name sort)
  | apply operator operands => .apply operator (exprs symbol operands)

/-- The terms with symbols for their constants. -/
def exprs (symbol : String → SolverSort → String) : List NamedTerm → List SExpr
  | [] => []
  | t :: ts => expr symbol t :: exprs symbol ts

end

theorem exprs_eq_map (symbol : String → SolverSort → String) (ts : List NamedTerm) :
    exprs symbol ts = ts.map (expr symbol) := by
  induction ts with
  | nil => rw [exprs, List.map_nil]
  | cons t ts ih => rw [exprs, ih, List.map_cons]

/-! ### Building named terms -/

/-- A term, negated if asked for. -/
def signed (negative : Bool) (magnitude : NamedTerm) : NamedTerm :=
  if negative then .apply "-" [magnitude] else magnitude

/-- A whole number of sort `Int`. -/
def intLiteral (n : Int) : NamedTerm := signed (n < 0) (.literal (toString n.natAbs))

/-- A whole number of sort `Real` without a sign. -/
def wholeReal (n : Nat) : NamedTerm := .literal (toString n ++ ".0")

/-- A rational number. -/
def realLiteral (q : Rat) : NamedTerm :=
  signed (q.num < 0)
    (if q.den = 1 then wholeReal q.num.natAbs
    else .apply "/" [wholeReal q.num.natAbs, wholeReal q.den])

/-- What an operator over any number of operands builds. -/
def combine (operator neutral : String) : List NamedTerm → NamedTerm
  | [] => .literal neutral
  | [t] => t
  | ts => .apply operator ts

/-- A term of a sort as a rational. -/
def asReal : SolverSort × NamedTerm → NamedTerm
  | (.int, t) => .apply "to_real" [t]
  | (_, t) => t

end NamedTerm

/-! ## Reading terms by name -/

namespace SExpr

mutual

/-- If atoms and lists are read as themselves, so is every s-expression. -/
theorem eq_of_read? : ∀ x y : SExpr,
    x.read? (some <| .atom ·) (fun operator xs => some (.apply operator xs)) = some y → y = x
  | .atom text, y, h => by
    rw [read?] at h
    exact (Option.some.inj h).symm
  | .list (.atom operator :: operands), y, h => by
    rw [read?] at h
    obtain ⟨xs, hxs, h⟩ := Option.bind_eq_some_iff.mp h
    rw [← Option.some.inj h, eq_of_readAll? operands xs hxs]
    rfl
  | .list [], y, h => by
    rw [read?] at h
    · cases h
    · nofun
  | .list (.list _ :: _), y, h => by
    rw [read?] at h
    · cases h
    · nofun

/-- Expressions that are read into themselves are read unchanged. -/
theorem eq_of_readAll? : ∀ xs ys : List SExpr,
    readAll? (some <| .atom ·) (fun operator xs => some (.apply operator xs)) xs = some ys →
      ys = xs
  | [], ys, h => by
    rw [readAll?] at h
    exact (Option.some.inj h).symm
  | x :: xs, ys, h => by
    rw [readAll?] at h
    obtain ⟨y, hy, h⟩ := Option.bind_eq_some_iff.mp h
    obtain ⟨zs, hzs, rfl⟩ := Option.map_eq_some_iff.mp h
    rw [eq_of_read? x y hy, eq_of_readAll? xs zs hzs]

end

end SExpr

namespace SmtLib

namespace State

/-- The named term that an atom among the operands is read as. -/
def atomNamed? (s : State) (text : String) : Option NamedTerm :=
  if (literal? text).isSome then some (.literal text)
  else (s.declared? text).map fun d => .constant d.name d.sort

/-- An s-expression with each constant replaced by the name and the sort that it was declared for,
if every atom among the operands is a literal or a declared constant. -/
def named? (s : State) (x : SExpr) : Option NamedTerm :=
  x.read? s.atomNamed? fun operator ts => some (.apply operator ts)

/-- The symbol of the constant that is declared for a name and a sort. -/
def symbol (s : State) (name : String) (sort : SolverSort) : String :=
  ((s.find? name sort).map Declaration.symbol).getD name

variable {s t : State} {x y : SExpr} {a : NamedTerm}

/-- Declaring more does not change what a term is read as. -/
theorem Grows.named? (hg : s.Grows t) (hs : s.Wf) (ht : t.Wf) (h : s.named? x = some a) :
    t.named? x = some a := by
  refine SExpr.read?_map (φ := id) (fun text a ha => ?_) (fun operator as a ha => ?_) x a h
  · unfold atomNamed? at ha ⊢
    split
    · rename_i hliteral
      rw [if_pos hliteral] at ha
      exact ha
    · rename_i hliteral
      rw [if_neg hliteral] at ha
      obtain ⟨d, hd, rfl⟩ := Option.map_eq_some_iff.mp ha
      rw [hg.declared? hs ht hd]
      rfl
  · rw [List.map_id]
    exact ha

/-! ### Back to symbols -/

/-- A state gives each of its constants the symbol of its declaration. -/
theorem Wf.symbol_eq (h : s.Wf) {d : Declaration} (hd : d ∈ s.declarations) :
    s.symbol d.name d.sort = d.symbol := by
  rw [symbol, h.find?_of_mem hd]
  rfl

/-- Alike states give all constants the same symbols. -/
theorem symbol_eq_of_alike (h : Alike s t) : s.symbol = t.symbol := by
  have hsymbol : ∀ (s : State) (name : String) (sort : SolverSort), s.symbol name sort =
      (((s.find? name sort).map Declaration.shape).map fun p => p.2.2).getD name := by
    intro s name sort
    rw [Option.map_map]
    rfl
  funext name sort
  rw [hsymbol, hsymbol, h.find?]

/-- If declarations have the given symbols, these give back what a term is read as. -/
theorem expr_eq_of_named? {symbol : String → SolverSort → String}
    (hsymbol : ∀ d ∈ s.declarations, d.symbol = symbol d.name d.sort) (hs : s.Wf)
    (h : s.named? x = some a) : a.expr symbol = x := by
  refine SExpr.eq_of_read? x _ ?_
  refine SExpr.read?_map (φ := NamedTerm.expr symbol) (fun text b hb => ?_)
    (fun operator bs b hb => ?_) x a h
  · unfold atomNamed? at hb
    split at hb
    · cases hb
      rw [NamedTerm.expr]
    · obtain ⟨d, hd, rfl⟩ := Option.map_eq_some_iff.mp hb
      obtain ⟨hmem, rfl⟩ := (declared?_eq_some_iff hs).mp hd
      rw [NamedTerm.expr, hsymbol d hmem]
  · cases hb
    rw [NamedTerm.expr, NamedTerm.exprs_eq_map]

/-- Under the same symbols, terms that are read as the same are the same. -/
theorem eq_of_named? (hs : s.Wf) (ht : t.Wf) (hsymbol : s.symbol = t.symbol)
    (hx : s.named? x = some a) (hy : t.named? y = some a) : x = y := by
  rw [← expr_eq_of_named? (fun d hd => (hs.symbol_eq hd).symm) hs hx,
    ← expr_eq_of_named? (fun d hd => (ht.symbol_eq hd).symm) ht hy, hsymbol]

/-! ### Single terms -/

theorem named?_literal {text : String} (h : (literal? text).isSome) :
    s.named? (.atom text) = some (.literal text) := by
  rw [named?, SExpr.read?, atomNamed?, if_pos h]

/-- The symbol of a constant is read as its name and its sort. -/
theorem named?_declared (h : s.Wf) {d : Declaration} (hd : d ∈ s.declarations) :
    s.named? (.atom d.symbol) = some (.constant d.name d.sort) := by
  obtain ⟨name, hname⟩ := h.escaped d hd
  have hliteral : ¬ (literal? d.symbol).isSome := by
    rw [hname, literal?_escape]
    nofun
  rw [named?, SExpr.read?, atomNamed?, if_neg hliteral,
    (declared?_eq_some_iff h).mpr ⟨hd, rfl⟩, Option.map_some]

theorem named?_apply (operator : String) {xs : List SExpr} {as : List NamedTerm}
    (h : List.Forall₂ (fun x a => s.named? x = some a) xs as) :
    s.named? (.apply operator xs) = some (.apply operator as) := by
  rw [named?, SExpr.read?_apply, SExpr.readAll?_of_forall₂ h, Option.bind_some]

theorem named?_signed (h : s.named? x = some a) (negative : Bool) :
    s.named? (signed negative x) = some (.signed negative a) := by
  cases negative with
  | false => exact h
  | true => exact named?_apply "-" (.cons h .nil)

theorem named?_intLiteral (n : Int) : s.named? (intLiteral n) = some (.intLiteral n) :=
  named?_signed (named?_literal (by rw [literal?_nat]; rfl)) _

theorem named?_wholeReal (n : Nat) : s.named? (wholeReal n) = some (.wholeReal n) :=
  named?_literal (by rw [literal?_wholeReal]; rfl)

theorem named?_realLiteral (q : Rat) : s.named? (realLiteral q) = some (.realLiteral q) := by
  refine named?_signed ?_ _
  split
  · exact named?_wholeReal _
  · exact named?_apply "/" (.cons (named?_wholeReal _) (.cons (named?_wholeReal _) .nil))

/-- What joins operands is read as what joins their readings. -/
theorem named?_combine (operator : String) {neutral : String} (hneutral : (literal? neutral).isSome)
    {xs : List SExpr} {as : List NamedTerm}
    (h : List.Forall₂ (fun x a => s.named? x = some a) xs as) :
    s.named? (combine operator neutral xs) = some (.combine operator neutral as) := by
  cases h with
  | nil => exact named?_literal hneutral
  | cons hx hs =>
    cases hs with
    | nil => exact hx
    | cons hy hs => exact named?_apply operator (.cons hx (.cons hy hs))

end State

end SmtLib

/-! ## Trees by name -/

/-- The sort of what is built as a node. -/
def Shape.sort {V : Type} : Shape V → SolverSort
  | var sort _ => sort
  | intConstant _ => .int
  | rationalConstant _ => .real
  | function _ sort => sort
  | _ => .bool

/-- The named term of a node over operands of given sorts.  Quotients and refused nodes are never
built. -/
def Shape.named : Shape String → List (SolverSort × NamedTerm) → NamedTerm
  | boolConstant value, _ => .literal (toString value)
  | var sort name, _ => .constant name sort
  | not, ts => .apply "not" (ts.map Prod.snd)
  | and, ts => .combine "and" "true" (ts.map Prod.snd)
  | or, ts => .combine "or" "false" (ts.map Prod.snd)
  | implies, ts => .apply "=>" (ts.map Prod.snd)
  | iff, ts => .apply "=" (ts.map Prod.snd)
  | intConstant n, _ => .intLiteral n
  | rationalConstant q, _ => .realLiteral q
  | function .add .real, ts => .combine "+" "0.0" (ts.map NamedTerm.asReal)
  | function .multiply .real, ts => .combine "*" "1.0" (ts.map NamedTerm.asReal)
  | function .add _, ts => .combine "+" "0" (ts.map Prod.snd)
  | function .multiply _, ts => .combine "*" "1" (ts.map Prod.snd)
  | function .divide _, ts => .apply "/" (ts.map Prod.snd)
  | compare c .real, ts => .apply c.symbol (ts.map NamedTerm.asReal)
  | compare c _, ts => .apply c.symbol (ts.map Prod.snd)
  | refused _, _ => .literal ""

namespace Tree

mutual

/-- The sort and the named term of a tree. -/
def named : Tree String → SolverSort × NamedTerm
  | node shape operands => (shape.sort, shape.named (namedAll operands))

/-- The sorts and the named terms of trees. -/
def namedAll : List (Tree String) → List (SolverSort × NamedTerm)
  | [] => []
  | t :: ts => named t :: namedAll ts

end

theorem namedAll_eq_map (ts : List (Tree String)) : namedAll ts = ts.map named := by
  induction ts with
  | nil => rw [namedAll, List.map_nil]
  | cons t ts ih => rw [namedAll, ih, List.map_cons]

/-- The named term of a node has the sort of its shape and joins those of its operands. -/
theorem named_node (shape : Shape String) (operands : List (Tree String)) :
    (node shape operands).named = (shape.sort, shape.named (operands.map named)) := by
  rw [named, namedAll_eq_map]

end Tree

/-- The named term of a formula. -/
def Expr.named (x : Expr) : NamedTerm := (x.tree.map Variable.name).named.2

/-- The named term of a term. -/
def Term.named (t : Term) : NamedTerm := (t.tree.map Variable.name).named.2

namespace SmtLib

/-! ## Building by name -/

/-- A node is read as the named term of a tree of a sort. -/
def Names (s : State) (sort : SolverSort) (x : Node) (t : Tree String) : Prop :=
  t.named.1 = sort ∧ s.named? x.expr = some t.named.2

variable {s : State}

theorem forall₂_named? {sort : SolverSort} {xs : List Node} {ts : List (Tree String)}
    (h : List.Forall₂ (Names s sort) xs ts) :
    List.Forall₂ (fun x a => s.named? x = some a) (xs.map Node.expr)
      ((ts.map Tree.named).map Prod.snd) := by
  rw [List.map_map, List.forall₂_map_left_iff, List.forall₂_map_right_iff]
  exact h.imp fun _ _ hx => hx.2

/-- A numeral as a real is read as the named term of its tree, as a real. -/
theorem named?_asReal {m : Numeral Obj} {n : Numeral fun _ => Tree String}
    (h : Numeral.Rel (Names s) m n) : s.named? (asReal m) = some (.asReal n.get.named) := by
  cases h with
  | @integer x t h =>
    obtain ⟨hsort, hnamed⟩ := h
    have hreal : NamedTerm.asReal t.named = .apply "to_real" [t.named.2] := by
      rw [← Prod.mk.eta (p := t.named), hsort]
      rfl
    rw [Numeral.get, hreal]
    exact State.named?_apply "to_real" (.cons hnamed .nil)
  | @rational x t h =>
    obtain ⟨hsort, hnamed⟩ := h
    have hreal : NamedTerm.asReal t.named = t.named.2 := by
      rw [← Prod.mk.eta (p := t.named), hsort]
      rfl
    rw [Numeral.get, hreal]
    exact hnamed

theorem named?_get {m : Numeral Obj} {n : Numeral fun _ => Tree String}
    (h : Numeral.Rel (Names s) m n) : s.named? m.get.expr = some n.get.named.2 := by
  cases h with
  | integer h => exact h.2
  | rational h => exact h.2

theorem forall₂_named?_asReal {ms : List (Numeral Obj)} {ns : List (Numeral fun _ => Tree String)}
    (h : List.Forall₂ (Numeral.Rel (Names s)) ms ns) :
    List.Forall₂ (fun x a => s.named? x = some a) (ms.map asReal)
      (((ns.map Numeral.get).map Tree.named).map NamedTerm.asReal) := by
  rw [List.map_map, List.map_map, List.forall₂_map_left_iff, List.forall₂_map_right_iff]
  exact h.imp fun _ _ hm => named?_asReal hm

/-- A constant that is asked for is read as its name and its sort. -/
theorem named?_constant (h : s.Wf) (name : String) (sort : SolverSort) :
    Names (constant name sort s).state sort (constant name sort s).value
      (.node (.var sort name) []) := by
  obtain ⟨d, hd, hkey, hnode⟩ := constant_declared name sort s
  cases hkey
  rw [Names, Tree.named_node, hnode]
  exact ⟨rfl, State.named?_declared (wf_constant h d.name d.sort) hd⟩

/-- Joined nodes are read as the joined named terms of their trees. -/
theorem named?_fold (operator : String) {neutral : String} (hneutral : (literal? neutral).isSome)
    {sort : SolverSort} {xs : List Node} {ts : List (Tree String)}
    (h : List.Forall₂ (Names s sort) xs ts) :
    s.named? (fold operator neutral xs s).value.expr =
      some (.combine operator neutral ((ts.map Tree.named).map Prod.snd)) := by
  rw [expr_fold]
  exact State.named?_combine operator hneutral (forall₂_named? h)

/-- Nodes that are joined as reals are read as the named terms of their trees, joined as reals. -/
theorem named?_foldReal (operator : String) {neutral : String}
    (hneutral : (literal? neutral).isSome) {ms : List (Numeral Obj)}
    {ns : List (Numeral fun _ => Tree String)}
    (h : List.Forall₂ (Numeral.Rel (Names s)) ms ns) :
    s.named? (foldReal operator neutral ms s).value.expr =
      some (.combine operator neutral
        (((ns.map Numeral.get).map Tree.named).map NamedTerm.asReal)) := by
  rw [expr_foldReal]
  exact State.named?_combine operator hneutral (forall₂_named?_asReal h)

/-- An operation builds a node that is read as the named term of its tree. -/
theorem names_build (h : s.Wf) {op : Operation Obj} {op' : Operation fun _ => Tree String}
    (hop : Operation.Rel (Names s) op op') :
    Names (build op s).state op.sort (build op s).value (.node op'.shape op'.operands) := by
  rw [Names, Tree.named_node]
  -- Operands are read in `s`.  Only a constant may be new in the state that is reached.
  have hlater : ∀ {a}, s.named? (build op s).value.expr = some a →
      (build op s).state.named? (build op s).value.expr = some a :=
    fun ha => (grows_build s op).named? h (wf_build h op) ha
  cases hop with
  | core hop =>
    cases hop with
    | boolConstant value => cases value <;> exact ⟨rfl, hlater (State.named?_literal rfl)⟩
    | boolVar name => exact named?_constant h name .bool
    | not hx => exact ⟨rfl, hlater (State.named?_apply "not" (.cons hx.2 .nil))⟩
    | and hs => exact ⟨rfl, hlater (named?_fold "and" rfl hs)⟩
    | or hs => exact ⟨rfl, hlater (named?_fold "or" rfl hs)⟩
    | implies hx hy =>
      exact ⟨rfl, hlater (State.named?_apply "=>" (.cons hx.2 (.cons hy.2 .nil)))⟩
    | iff hx hy => exact ⟨rfl, hlater (State.named?_apply "=" (.cons hx.2 (.cons hy.2 .nil)))⟩
    | intConstant n => exact ⟨rfl, hlater (State.named?_intLiteral n)⟩
    | intVar name => exact named?_constant h name .int
    | intAdd hs => exact ⟨rfl, hlater (named?_fold "+" rfl hs)⟩
    | intMultiply hs => exact ⟨rfl, hlater (named?_fold "*" rfl hs)⟩
    | intCompare c hx hy =>
      exact ⟨rfl, hlater (State.named?_apply c.symbol (.cons hx.2 (.cons hy.2 .nil)))⟩
  | rational hop =>
    cases hop with
    | constant q => exact ⟨rfl, hlater (State.named?_realLiteral q)⟩
    | var name => exact named?_constant h name .real
    | add hs => exact ⟨rfl, hlater (named?_foldReal "+" rfl hs)⟩
    | multiply hs => exact ⟨rfl, hlater (named?_foldReal "*" rfl hs)⟩
    | compare c hm hn =>
      exact ⟨rfl, hlater (State.named?_apply c.symbol
        (.cons (named?_asReal hm) (.cons (named?_asReal hn) .nil)))⟩

/-! ## Building nodes and trees -/

/-- Nodes and the trees that they are read as the named terms of. -/
def naming : Correspondence State Forest.State Obj (fun _ => Tree String) where
  state s f := s.Wf ∧ s.capabilities = f.capabilities
  obj s _ := Names s

/-- Building a node is in step with building its tree. -/
theorem inStep_names {f : Forest.State} (h : naming.state s f) {op : Operation Obj}
    {op' : Operation fun _ => Tree String} (hop : Operation.Rel (Names s) op op') :
    InStep naming (fun s f => naming.obj s f op.sort) s f
      (ExceptT.lift (build op)) (ExceptT.lift (Forest.grow op')) := by
  obtain ⟨hwf, hcapabilities⟩ := h
  have hgrows := grows_build s op
  refine ⟨?_, ?_, ?_⟩ <;> rw [Action.run_lift, Action.run_lift]
  · exact ⟨wf_build hwf op, hgrows.capabilities.trans hcapabilities⟩
  · exact fun _ _ _ hx => ⟨hx.1, hgrows.named? hwf (wf_build hwf op) hx.2⟩
  · exact .ok (names_build hwf hop)

/-- Building SMT-LIB terms simulates building trees. -/
def growing : Simulation backend Forest.backend True where
  toCorrespondence := naming
  capabilities h := h.2
  core h hop := inStep_names h (.core hop)
  rational _ _ _ _ _ _ h hop := inStep_names h (.rational hop)

/-! ## Encoders -/

/-- The constant of a registered variable is read as the leaf of the variable. -/
theorem Interned.names {e : Encoder backend} (h : Interned e) {p : Variable × Object Obj}
    (hp : p ∈ e.registry.entries) :
    Names e.backend p.2.sort p.2.value (.node (.var p.2.sort p.1.name) []) := by
  obtain ⟨d, hd, hkey, hnode⟩ := h.declared p hp
  obtain ⟨hname, hsort⟩ := Prod.mk.inj hkey
  rw [Names, Tree.named_node, hnode, ← hname, ← hsort]
  exact ⟨rfl, State.named?_declared h.wf hd⟩

/-- An interned encoder that knows what its backend can express. -/
def Consistent (e : Encoder backend) : Prop :=
  Interned e ∧ e.capabilities = e.backend.capabilities

/-- Encoding keeps an encoder consistent. -/
theorem upkeep_consistent :
    Upkeep (B := backend) Consistent (fun _ => True) (fun _ _ => True) :=
  upkeep_interned.and <| upkeep_backend (B := backend) (Q := fun c s => c = s.capabilities)
    (fun op s h => h.trans (grows_build s (.core op)).capabilities.symm)
    (fun op s h => h.trans (grows_build s (.rational op)).capabilities.symm) fun _ => rfl

/-- The encoder that holds a leaf where the given one holds a constant. -/
def twin (e : Encoder backend) : Encoder Forest.backend where
  backend := ⟨e.capabilities, []⟩
  capabilities := e.capabilities
  options := e.options
  registry :=
    ⟨e.registry.entries.map fun p => (p.1, ⟨p.2.sort, .node (.var p.2.sort p.1.name) []⟩)⟩

theorem leaves_twin (e : Encoder backend) : (twin e).Leaves := by
  intro p hp
  obtain ⟨q, _, rfl⟩ := List.mem_map.mp hp
  rfl

namespace Consistent

variable {e : Encoder backend}

theorem encoders_twin (h : Consistent e) : growing.Encoders e (twin e) where
  backend := ⟨h.1.wf, h.2.symm⟩
  capabilities := rfl
  covered _ := trivial
  options := rfl
  registry := by
    refine List.forall₂_map_right_iff.mpr (List.forall₂_same.mpr fun p hp => ⟨rfl, ?_⟩)
    have hnames := h.1.names hp
    obtain ⟨v, sort, x⟩ := p
    exact .mk hnames

/-- A formula is encoded as a term that is read as its named term. -/
theorem named?_encode (h : Consistent e) {x : Expr} {n : Node}
    (hn : ((Encoder.encode x).run e).value = .ok n) :
    ((Encoder.encode x).run e).state.backend.named? n.expr = some x.named := by
  have houtcome := (Simulation.inStep_encode h.encoders_twin x).outcome
  generalize htree : ((Encoder.encode x).run (twin e)).value = r at houtcome
  rw [hn] at houtcome
  cases houtcome with
  | ok hnames =>
    rw [(Builds.encode x (leaves_twin e) htree).1] at hnames
    exact hnames.2

/-- A term is encoded as a numeral that is read as its named term. -/
theorem named?_encodeTerm (h : Consistent e) {t : Term} {n : Numeral Obj}
    (hn : ((Encoder.encodeTerm t).run e).value = .ok n) :
    ((Encoder.encodeTerm t).run e).state.backend.named? n.get.expr = some t.named := by
  have houtcome := (Simulation.inStep_encodeTerm h.encoders_twin t).outcome
  generalize htree : ((Encoder.encodeTerm t).run (twin e)).value = r at houtcome
  rw [hn] at houtcome
  cases houtcome with
  | @ok _ m hnames =>
    have hnamed : _ = some m.get.named.2 := named?_get hnames
    rw [(Builds.encodeTerm t (leaves_twin e) htree).1.tree] at hnamed
    exact hnamed

end Consistent

end SmtLib

end SmtEncoding
