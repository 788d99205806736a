import SmtEncoding.Proofs.History

/-!
# One text for formulas and their encodings

Formulas and s-expressions are different trees, each with a printer of its own.  An encoding may be
written otherwise than its formula: a number gets an operator for its sign, a conjunction of one
operand is that operand, and a name may need bars or another name in its place.  Where none of this
happens the two texts are the same.

`Term.Common` and `Expr.Common` say which formulas have only what is written alike.  Such a formula
is judged by the uses of its variables alone (`Expr.Common.settled?`), so it is encoded where
nothing is registered (`SmtLib.encode_common`).  Its named term, with names for symbols, has its
text (`Expr.Common.text_named`).  Names that stand for themselves, each under one sort, do not
clash, so the symbols are the names (`State.KeepsNames.symbol_eq`).  `SmtLib.text_encode_common`
puts the three together.
-/

namespace SmtEncoding

/-! ## The common fragment -/

/-- Terms on whole numbers that are written alike: constants without a sign, variables, and sums and
products of two or more terms. -/
inductive Term.Common : Term → Prop where
  | constant {n : Int} : 0 ≤ n → Common (.constant (.integer n))
  | var {v : Variable} : v.type = .integer → Common (.var v)
  | app {f : FunctionKind} {args : List Term} :
    f ≠ .divide → 2 ≤ args.length → (∀ t ∈ args, Common t) → Common (.app f args .integer)

/-- Formulas that are written alike: no counting connectives and quantifiers, no conjunctions and
disjunctions of fewer than two, literals over truth values, and comparisons of terms on whole
numbers. -/
inductive Expr.Common : Expr → Prop where
  | constant (value : Bool) : Common (.constant value)
  | not {x : Expr} : Common x → Common (.not x)
  | and {xs : List Expr} : 2 ≤ xs.length → (∀ x ∈ xs, Common x) → Common (.and xs)
  | or {xs : List Expr} : 2 ≤ xs.length → (∀ x ∈ xs, Common x) → Common (.or xs)
  | implies {l r : Expr} : Common l → Common r → Common (.implies l r)
  | iff {l r : Expr} : Common l → Common r → Common (.iff l r)
  | literal {v : Variable} (positive : Bool) : v.type = .bool → Common (.literal v positive)
  | compare (c : Comparison) {l r : Term} : l.Common → r.Common → Common (.compare c l r)

/-- Common terms are whole numbers. -/
theorem Term.Common.type_eq {t : Term} (h : t.Common) : t.type = .integer := by
  cases h with
  | constant _ => rfl
  | var hv => exact hv
  | app _ _ _ => rfl

/-- No subterm is a double. -/
theorem Term.Common.type_subterms {t : Term} (h : t.Common) :
    ∀ u ∈ t.subterms, u.type = .integer := by
  induction h with
  | @constant n _ => exact List.forall_mem_singleton.mpr rfl
  | @var v hv => exact List.forall_mem_singleton.mpr hv
  | app _ _ _ ih =>
    rw [Term.subterms, Term.subtermsAll_eq_flatMap]
    refine List.forall_mem_cons.mpr ⟨rfl, fun u hu => ?_⟩
    obtain ⟨t, ht, hu⟩ := List.mem_flatMap.mp hu
    exact ih t ht u hu

/-! ### The walk of the rules -/

section Walk

variable {creation : Bool} {known : KnownSorts} {uses more : List (Variable × SolverSort)}

theorem meetAll?_append : meetAll? creation known (uses ++ more) =
    (meetAll? creation known uses).bind (meetAll? creation · more) :=
  List.foldlM_append

theorem meetAll?_singleton (use : Variable × SolverSort) :
    meetAll? creation known [use] = meet? creation known use := by
  rw [meetAll?_cons]
  exact Option.bind_fun_some _

end Walk

variable {rules : Rules}

/-- Terms that are judged by their uses one by one are so judged together. -/
theorem settled?_judgeTerms {ts : List Term}
    (h : ∀ t ∈ ts, ∀ known,
      settled? (rules.judgeTerm t) known = meetAll? rules.creation known t.uses)
    (known : KnownSorts) :
    settled? (rules.judgeTerms ts) known = meetAll? rules.creation known (Term.usesAll ts) := by
  induction ts generalizing known with
  | nil => rfl
  | cons t ts ih =>
    obtain ⟨ht, hts⟩ := List.forall_mem_cons.mp h
    rw [Rules.judgeTerms, settled?_bind, ht, Term.usesAll, meetAll?_append]
    exact congrArg _ (funext (ih hts))

/-- A common term is judged by the uses of its variables alone. -/
theorem Term.Common.settled? {t : Term} (h : t.Common) (known : KnownSorts) :
    settled? (rules.judgeTerm t) known = meetAll? rules.creation known t.uses := by
  induction h generalizing known with
  | constant _ => rfl
  | @var v hv =>
    rw [Rules.judgeTerm, Rules.judgeVariable, hv, Term.uses, meetAll?_singleton, hv]
    exact settled?_meet rules.creation .int v
  | @app f args hf _ hargs ih =>
    have hint : .double ∉ args.map Term.type := fun hmem => by
      obtain ⟨t, ht, htype⟩ := List.mem_map.mp hmem
      rw [(hargs t ht).type_eq] at htype
      cases htype
    have hfunction : ∀ known, SmtEncoding.settled?
        (rules.judgeFunction f (args.map Term.type) .integer) known = some known := by
      intro known
      rw [Rules.judgeFunction, settled?_bind, settled?_need, if_pos (decide_eq_true hint),
        Option.bind_some, settled?_need, if_pos (decide_eq_true hf)]
    rw [Rules.judgeTerm, settled?_bind, settled?_judgeTerms ih, Term.uses, funext hfunction]
    exact Option.bind_fun_some _

theorem settled?_judgeAll {xs : List Expr}
    (h : ∀ x ∈ xs, ∀ known,
      settled? (rules.judge x) known = meetAll? rules.creation known x.uses)
    (known : KnownSorts) :
    settled? (rules.judgeAll xs) known = meetAll? rules.creation known (Expr.usesAll xs) := by
  induction xs generalizing known with
  | nil => rfl
  | cons x xs ih =>
    obtain ⟨hx, hxs⟩ := List.forall_mem_cons.mp h
    rw [Rules.judgeAll, settled?_bind, hx, Expr.usesAll, meetAll?_append]
    exact congrArg _ (funext (ih hxs))

/-- A common formula is judged by the uses of its variables alone. -/
theorem Expr.Common.settled? {x : Expr} (h : x.Common) (known : KnownSorts) :
    settled? (rules.judge x) known = meetAll? rules.creation known x.uses := by
  induction h generalizing known with
  | constant _ => rfl
  | not _ ih => exact ih known
  | and _ _ ih => exact settled?_judgeAll ih known
  | or _ _ ih => exact settled?_judgeAll ih known
  | implies _ _ ihl ihr =>
    rw [Rules.judge, settled?_bind, ihl, Expr.uses, meetAll?_append]
    exact congrArg _ (funext ihr)
  | iff _ _ ihl ihr =>
    rw [Rules.judge, settled?_bind, ihl, Expr.uses, meetAll?_append]
    exact congrArg _ (funext ihr)
  | @literal v _ _ =>
    rw [Rules.judge, settled?_meet, Expr.uses, meetAll?_singleton]
  | @compare c l r hl hr =>
    have hint : (l.subterms ++ r.subterms).all (·.type ≠ .double) = true := by
      refine List.all_eq_true.mpr fun u hu => decide_eq_true ?_
      have htype : u.type = .integer :=
        (List.mem_append.mp hu).elim (hl.type_subterms u) (hr.type_subterms u)
      rw [htype]
      nofun
    rw [Rules.judge, Rules.judgeComparison, hint, Bool.or_true, settled?_bind, settled?_need,
      if_pos rfl, Option.bind_some, settled?_bind, hl.settled?, Expr.uses, meetAll?_append]
    exact congrArg _ (funext hr.settled?)

/-! ### Uses of variables -/

theorem Expr.literalsAll_eq_flatMap (xs : List Expr) :
    Expr.literalsAll xs = xs.flatMap Expr.literals := by
  induction xs with
  | nil => rfl
  | cons x xs ih => rw [Expr.literalsAll, ih, List.flatMap_cons]

/-- The literals of a common formula are over variables that are declared as truth values. -/
theorem Expr.Common.type_literals {x : Expr} (h : x.Common) : ∀ v ∈ x.literals, v.type = .bool := by
  have hall {xs : List Expr} (h : ∀ x ∈ xs, ∀ v ∈ x.literals, v.type = .bool) :
      ∀ v ∈ Expr.literalsAll xs, v.type = .bool := by
    intro v hv
    rw [Expr.literalsAll_eq_flatMap] at hv
    obtain ⟨x, hx, hv⟩ := List.mem_flatMap.mp hv
    exact h x hx v hv
  induction h with
  | constant _ => exact nofun
  | not _ ih => exact ih
  | and _ _ ih => exact hall ih
  | or _ _ ih => exact hall ih
  | implies _ _ ihl ihr => exact List.forall_mem_append.mpr ⟨ihl, ihr⟩
  | iff _ _ ihl ihr => exact List.forall_mem_append.mpr ⟨ihl, ihr⟩
  | literal _ hv => exact List.forall_mem_singleton.mpr hv
  | compare _ _ _ => exact nofun

/-! ### Texts -/

theorem SExpr.texts_eq_map (xs : List SExpr) : SExpr.texts xs = xs.map SExpr.text := by
  induction xs with
  | nil => rfl
  | cons x xs ih => rw [SExpr.texts, ih, List.map_cons]

theorem Term.texts_eq_map (ts : List Term) : Term.texts ts = ts.map Term.text := by
  induction ts with
  | nil => rfl
  | cons t ts ih => rw [Term.texts, ih, List.map_cons]

theorem Expr.texts_eq_map (xs : List Expr) : Expr.texts xs = xs.map Expr.text := by
  induction xs with
  | nil => rfl
  | cons x xs ih => rw [Expr.texts, ih, List.map_cons]

/-- The text of an operator applied to operands. -/
theorem SExpr.text_apply (operator : String) (xs : List SExpr) :
    (SExpr.apply operator xs).text = applicationText operator (xs.map SExpr.text) := by
  rw [SExpr.apply, SExpr.text, SExpr.texts, SExpr.texts_eq_map]
  rfl

namespace NamedTerm

/-- The text of a named term in which every constant has its name for a symbol. -/
def text (t : NamedTerm) : String := (t.expr fun name _ => name).text

theorem text_apply (operator : String) (ts : List NamedTerm) :
    (apply operator ts).text = applicationText operator (ts.map text) := by
  rw [text, expr, SExpr.text_apply, exprs_eq_map, List.map_map]
  rfl

/-- A whole number that is not negative has its digits for a text. -/
theorem text_intLiteral {n : Int} (h : 0 ≤ n) : (intLiteral n).text = toString n := by
  obtain ⟨m, rfl⟩ := Int.eq_ofNat_of_zero_le h
  rw [intLiteral, decide_eq_false (not_lt.mpr h)]
  rfl

theorem combine_of_two {operator neutral : String} {ts : List NamedTerm} (h : 2 ≤ ts.length) :
    combine operator neutral ts = .apply operator ts := by
  match ts with
  | _ :: _ :: _ => rfl

end NamedTerm

theorem Term.trees_eq_map (ts : List Term) : Term.trees ts = ts.map Term.tree := by
  induction ts with
  | nil => rfl
  | cons t ts ih => rw [Term.trees, ih, List.map_cons]

theorem Expr.trees_eq_map (xs : List Expr) : Expr.trees xs = xs.map Expr.tree := by
  induction xs with
  | nil => rfl
  | cons x xs ih => rw [Expr.trees, ih, List.map_cons]

theorem Tree.map_node {V W : Type} (φ : V → W) (shape : Shape V) (ts : List (Tree V)) :
    (Tree.node shape ts).map φ = .node (shape.map φ) (ts.map (Tree.map φ)) := by
  have hall : ∀ ts : List (Tree V), Tree.mapAll φ ts = ts.map (Tree.map φ) := by
    intro ts
    induction ts with
    | nil => rfl
    | cons t ts ih => rw [Tree.mapAll, ih, List.map_cons]
  rw [Tree.map, hall]

/-- A node that combines two or more operands applies its operator to them. -/
theorem Tree.named_of_combine {shape : Shape Variable} {operator neutral : String}
    (hshape : ∀ ts, (shape.map Variable.name).named ts =
      .combine operator neutral (ts.map Prod.snd))
    {ts : List (Tree Variable)} (h : 2 ≤ ts.length) :
    ((Tree.node shape ts).map Variable.name).named.2 =
      .apply operator (ts.map fun t => (t.map Variable.name).named.2) := by
  rw [Tree.map_node, Tree.named_node, hshape, List.map_map, List.map_map]
  exact NamedTerm.combine_of_two (by rwa [List.length_map])

/-- A sum or product of two terms or more is named by its operator and its arguments. -/
theorem Term.named_app {f : FunctionKind} (hf : f ≠ .divide) {args : List Term}
    (h : 2 ≤ args.length) :
    (Term.app f args .integer).named = .apply f.symbol (args.map Term.named) := by
  have hlength : 2 ≤ (args.map Term.tree).length := by rwa [List.length_map]
  rw [Term.named, Term.tree, Term.trees_eq_map]
  cases f with
  | add => rw [Tree.named_of_combine (fun _ => rfl) hlength, List.map_map]; rfl
  | multiply => rw [Tree.named_of_combine (fun _ => rfl) hlength, List.map_map]; rfl
  | divide => exact absurd rfl hf

/-- A conjunction of two formulas or more is named by its operands. -/
theorem Expr.named_and {xs : List Expr} (h : 2 ≤ xs.length) :
    (Expr.and xs).named = .apply "and" (xs.map Expr.named) := by
  have hlength : 2 ≤ (xs.map Expr.tree).length := by rwa [List.length_map]
  rw [Expr.named, Expr.tree, Expr.trees_eq_map, Tree.named_of_combine (fun _ => rfl) hlength,
    List.map_map]
  rfl

theorem Expr.named_or {xs : List Expr} (h : 2 ≤ xs.length) :
    (Expr.or xs).named = .apply "or" (xs.map Expr.named) := by
  have hlength : 2 ≤ (xs.map Expr.tree).length := by rwa [List.length_map]
  rw [Expr.named, Expr.tree, Expr.trees_eq_map, Tree.named_of_combine (fun _ => rfl) hlength,
    List.map_map]
  rfl

/-- A comparison of whole numbers is named by its sides. -/
theorem Expr.named_compare (c : Comparison) {l r : Term} (hl : l.type = .integer)
    (hr : r.type = .integer) : (Expr.compare c l r).named = .apply c.symbol [l.named, r.named] := by
  have hsort : l.comparedAs r = .int := by
    rw [Term.comparedAs, hl, hr]
    rfl
  rw [Expr.named, Expr.tree, hsort]
  rfl

/-- A common term has one text. -/
theorem Term.Common.text_named {t : Term} (h : t.Common) : t.named.text = t.text := by
  induction h with
  | constant hn => exact NamedTerm.text_intLiteral hn
  | var _ => rfl
  | app hf hlength _ ih =>
    rw [Term.named_app hf hlength, NamedTerm.text_apply, Term.text, Term.texts_eq_map, List.map_map]
    exact congrArg _ (List.map_congr_left ih)

/-- A common formula has one text. -/
theorem Expr.Common.text_named {x : Expr} (h : x.Common) : x.named.text = x.text := by
  induction h with
  | constant value => cases value <;> rfl
  | @not x _ ih =>
    rw [Expr.text, ← ih]
    exact NamedTerm.text_apply "not" [x.named]
  | and hlength _ ih =>
    rw [Expr.named_and hlength, NamedTerm.text_apply, Expr.text, Expr.texts_eq_map, List.map_map]
    exact congrArg _ (List.map_congr_left ih)
  | or hlength _ ih =>
    rw [Expr.named_or hlength, NamedTerm.text_apply, Expr.text, Expr.texts_eq_map, List.map_map]
    exact congrArg _ (List.map_congr_left ih)
  | @implies l r _ _ ihl ihr =>
    rw [Expr.text, ← ihl, ← ihr]
    exact NamedTerm.text_apply "=>" [l.named, r.named]
  | @iff l r _ _ ihl ihr =>
    rw [Expr.text, ← ihl, ← ihr]
    exact NamedTerm.text_apply "=" [l.named, r.named]
  | literal positive _ => cases positive <;> rfl
  | compare c hl hr =>
    rw [Expr.named_compare c hl.type_eq hr.type_eq, NamedTerm.text_apply, Expr.text,
      ← hl.text_named, ← hr.text_named]
    rfl

namespace SmtLib

/-! ## Names that stay -/

/-- A name that stands for itself has nothing in it that is replaced. -/
theorem map_quotedChar_of_escape {name : String} (h : escape name = name) :
    name.toList.map quotedChar = name.toList := by
  rcases toList_escape name with ⟨hshape, _⟩ | hbars
  · exact map_quotedChar_of_hasSymbolShape hshape
  · -- The bars would make the name longer than it is.
    have hlength := congrArg List.length hbars
    rw [h] at hlength
    simp at hlength
    omega

/-- Where names stand for themselves, and none is declared under two sorts, each constant has its
name for a symbol. -/
theorem State.KeepsNames.symbol_eq {s : State} (h : s.KeepsNames)
    (hnames : ∀ k ∈ s.keys, escape k.1 = k.1)
    (honce : ∀ k ∈ s.keys, ∀ l ∈ s.keys, k.1 = l.1 → k = l) :
    ∀ d ∈ s.declarations, d.symbol = d.name := by
  have hapart : s.NamesApart := by
    intro k hk l hl heq
    refine honce k hk l hl (String.toList_inj.mp ?_)
    rw [← map_quotedChar_of_escape (hnames k hk), ← map_quotedChar_of_escape (hnames l hl), heq]
  intro d hd
  exact (h hapart d hd).trans (hnames d.key (List.mem_map_of_mem hd))

/-- Every declared constant is that of a registered variable. -/
def KeysRegistered (e : Encoder backend) : Prop :=
  ∀ k ∈ e.backend.keys, ∃ p ∈ e.registry.entries, constantKey p = k

variable {e f : Encoder backend}

/-- An operation that asks for no constant declares none. -/
theorem keys_build {op : Operation Obj} (hop : op.request? = none) (s : State) :
    (build op s).state.keys = s.keys := by
  rcases build_cases op s with ⟨_, _, hrequest, _⟩ | ⟨_, hb | hb⟩
  · rw [hop] at hrequest
    cases hrequest
  · rw [hb]
  · rw [hb, State.keys_skip]

/-- A move declares the constant of a variable only together with an entry for it. -/
theorem KeysRegistered.move (h : Encoder.Move e f) (he : KeysRegistered e) : KeysRegistered f := by
  cases h with
  | core op hop =>
    intro k hk
    exact he k (keys_build hop e.backend ▸ hk)
  | rational op hop _ =>
    intro k hk
    exact he k (keys_build hop e.backend ▸ hk)
  | create v sort x _ _ _ =>
    have hold : ∀ k ∈ e.backend.keys,
        ∃ p ∈ (e.registry.insert v ⟨sort, x⟩).entries, constantKey p = k := by
      intro k hk
      obtain ⟨p, hp, hkey⟩ := he k hk
      exact ⟨p, List.mem_append_left _ hp, hkey⟩
    intro k hk
    rw [createVariable_eq, Action.run_lift] at hk
    rcases constant_cases v.name sort e.backend with ⟨_, _, _, hc⟩ | ⟨_, hc⟩
    · rw [hc] at hk
      exact hold k hk
    · rw [hc, State.keys_declare] at hk
      rcases List.mem_append.mp hk with hk | hk
      · exact hold k hk
      · exact ⟨(v, ⟨sort, x⟩), List.mem_append_right _ List.mem_cons_self,
          (List.mem_singleton.mp hk).symm⟩
  | fail name sort err _ herr =>
    rw [createVariable_eq] at herr
    exact absurd herr Action.value_lift_ne_error

/-! ## Encodings -/

/-- Where nothing is registered, a common formula is encoded, and its variables are registered under
the sorts of their types. -/
theorem encode_common (he : Consistent e) (hempty : e.registry = .empty)
    (hcreate : e.options.createVariables = true) {x : Expr} (hx : x.Common) :
    ∃ n, ((Encoder.encode x).run e).value = .ok n ∧
      ((Encoder.encode x).run e).state.registeredSorts =
        x.occurrences.eraseDups.map Variable.typed := by
  have hnone : ∀ p ∈ ([] : KnownSorts), p.2 = p.1.type.sort := List.forall_mem_nil _
  have hknown : e.registeredSorts = [] := by
    rw [Encoder.registeredSorts, hempty]
    rfl
  have hsettled : settled? (e.rules.judge x) e.registeredSorts =
      some (x.occurrences.eraseDups.map Variable.typed) := by
    rw [hx.settled?, hknown, Encoder.rules, hcreate]
    refine (meetAll?_typed hnone (Expr.sort_of_uses hx.type_literals)).trans ?_
    simp [List.removeAll, Expr.occurrences]
  obtain ⟨n, hn, hfollows⟩ := (Judged.encode he.follows x).ok_of_settled? hsettled
  exact ⟨n, hn, hfollows.known_eq⟩

/-- On a backend without declarations, a common formula whose names stand for themselves, each under
one type, is encoded, and the text of its encoding is its own text. -/
theorem text_encode_common (capabilities : Capabilities) (first : Nat) {x : Expr} (hx : x.Common)
    (hnames : ∀ v ∈ x.occurrences, escape v.name = v.name)
    (htypes : ∀ v ∈ x.occurrences, ∀ w ∈ x.occurrences, v.name = w.name → v.type = w.type) :
    ∃ n : Node,
      ((Encoder.encode x).run (.new (B := backend) (.empty capabilities first))).value = .ok n ∧
        n.expr.text = x.text := by
  let start : Encoder backend := .new (.empty capabilities first)
  have hconsistent : Consistent start := .new (.empty capabilities first) {}
  have hnamed : Named start := ⟨hconsistent, fun _ => nofun⟩
  obtain ⟨n, hn, hsorts⟩ := encode_common hconsistent rfl rfl hx
  let s := ((Encoder.encode x).run start).state
  obtain ⟨⟨⟨hwf, _⟩, _⟩, hkeeps⟩ : Named s := (encodes_encode x).keeps upkeep_named hnamed
  have hregistered : KeysRegistered s :=
    ((encodes_encode x).moves start).keeps KeysRegistered.move nofun
  -- So every declared name is that of a variable of the formula, with the sort of its type.
  have hkeys : ∀ k ∈ s.backend.keys, ∃ v ∈ x.occurrences, k = (v.name, v.type.sort) := by
    intro k hk
    obtain ⟨p, hp, rfl⟩ := hregistered k hk
    have hmem : (p.1, p.2.sort) ∈ s.registeredSorts := List.mem_map_of_mem hp
    rw [hsorts] at hmem
    obtain ⟨v, hv, htyped⟩ := List.mem_map.mp hmem
    obtain ⟨hvariable, hsort⟩ := Prod.mk.inj htyped
    exact ⟨v, List.mem_eraseDups.mp hv, by rw [constantKey, ← hvariable, ← hsort]⟩
  have hsymbol : ∀ d ∈ s.backend.declarations, d.symbol = d.name := by
    refine hkeeps.symbol_eq ?_ ?_
    · intro k hk
      obtain ⟨v, hv, rfl⟩ := hkeys k hk
      exact hnames v hv
    · intro k hk l hl heq
      obtain ⟨v, hv, rfl⟩ := hkeys k hk
      obtain ⟨w, hw, rfl⟩ := hkeys l hl
      exact Prod.ext heq (congrArg ValueType.sort (htypes v hv w hw heq))
  have hexpr : x.named.expr (fun name _ => name) = n.expr :=
    State.expr_eq_of_named? hsymbol hwf (hconsistent.named?_encode hn)
  refine ⟨n, hn, ?_⟩
  rw [← hexpr]
  exact hx.text_named

/-- A sum with a product in it. -/
def sumOfProduct : Term :=
  .app .add [.var ⟨"n", .integer⟩, .constant (.integer 0),
    .app .multiply [.constant (.integer 3), .var ⟨"m!", .integer⟩] .integer] .integer

/-- A formula with most of what is written alike. -/
def plainBounds : Expr :=
  .implies (.and [.literal ⟨"p", .bool⟩ false,
      .compare .lessEqual sumOfProduct (.constant (.integer 12))])
    (.iff (.constant true) (.or [.literal ⟨"q", .bool⟩ true, .not (.literal ⟨"p", .bool⟩ true)]))

theorem common_plainBounds : plainBounds.Common := by
  have hsum : sumOfProduct.Common := by
    refine .app nofun (by decide) (List.forall_mem_cons.mpr ⟨.var rfl, ?_⟩)
    refine List.forall_mem_cons.mpr ⟨.constant (by decide), List.forall_mem_singleton.mpr ?_⟩
    refine .app nofun (by decide) (List.forall_mem_cons.mpr ⟨.constant (by decide), ?_⟩)
    exact List.forall_mem_singleton.mpr (.var rfl)
  refine .implies (.and le_rfl ?_) (.iff (.constant true) (.or le_rfl ?_))
  · refine List.forall_mem_cons.mpr ⟨.literal false rfl, List.forall_mem_singleton.mpr ?_⟩
    exact .compare .lessEqual hsum (.constant (by decide))
  · refine List.forall_mem_cons.mpr ⟨.literal true rfl, List.forall_mem_singleton.mpr ?_⟩
    exact .not (.literal true rfl)

/-- The formula is written alike, and this is how. -/
theorem text_encode_common_bounds :
    plainBounds.Common ∧ (∀ v ∈ plainBounds.occurrences, escape v.name = v.name) ∧
    (∀ v ∈ plainBounds.occurrences, ∀ w ∈ plainBounds.occurrences,
      v.name = w.name → v.type = w.type) ∧
    ∃ n : Node, ((Encoder.encode plainBounds).run (.new (B := backend) .empty)).value = .ok n ∧
      n.expr.text = "(=> (and (not p) (<= (+ n 0 (* 3 m!)) 12)) (= true (or q (not p))))" := by
  have hnames : ∀ v ∈ plainBounds.occurrences, escape v.name = v.name := by decide
  have htypes : ∀ v ∈ plainBounds.occurrences, ∀ w ∈ plainBounds.occurrences,
      v.name = w.name → v.type = w.type := by decide
  have htext : plainBounds.text =
      "(=> (and (not p) (<= (+ n 0 (* 3 m!)) 12)) (= true (or q (not p))))" := by decide +kernel
  obtain ⟨n, hn, hprinted⟩ := text_encode_common {} 0 common_plainBounds hnames htypes
  exact ⟨common_plainBounds, hnames, htypes, n, hn, hprinted.trans htext⟩

end SmtLib

end SmtEncoding
