import SmtEncoding.Proofs.Meaning
import SmtEncoding.Proofs.Reading

/-!
# Soundness of SMT-LIB terms

Building SMT-LIB terms is in simulation with computing values (`evaluation`): a node corresponds to
its value under a valuation.  Each operation builds a term with the value of the operation on the
values of the operands (`value?_build`), and since declarations only grow, terms keep their values.

Two results about sessions follow.  A formula that is encoded becomes a term with the truth value
of the formula under every valuation, and so for terms (`encoding_preserves_meaning`).  And every
answer of a session is a term of the sort it is tagged with, when it is given and ever after
(`answers_wellSorted`).
-/

namespace SmtEncoding

/-- The value of an operation, with its sort. -/
def Operation.value (val : Valuation) : Operation Carrier → Value
  | core op => ⟨_, op.value val⟩
  | rational op => ⟨_, op.value val⟩

namespace SmtLib

/-! ## Values of operators over any number of operands -/

section Many

variable {sort : SolverSort}

/-- A value tagged with its sort. -/
abbrev tag (sort : SolverSort) (a : Carrier sort) : Value := ⟨sort, a⟩

theorem mapM_as?_map_tag (as : List (Carrier sort)) :
    (as.map (tag sort)).mapM (·.as? sort) = some as := by
  induction as with
  | nil => rfl
  | cons a as ih =>
    have ha : (tag sort a).as? sort = some a := Object.as?_eq_some_iff.mpr rfl
    rw [List.map_cons, List.mapM_cons, ih, ha]
    rfl

/-- Two or more values of a sort are read under it. -/
theorem many?_map_tag {as : List (Carrier sort)} (h : 2 ≤ as.length) :
    many? sort (as.map (tag sort)) = some as := by
  rw [many?, List.length_map, if_pos h, mapM_as?_map_tag]

/-- Values of a sort are not read under another one. -/
theorem many?_map_tag_ne {other : SolverSort} (hne : sort ≠ other) {as : List (Carrier sort)}
    (h : 2 ≤ as.length) : many? other (as.map (tag sort)) = none := by
  match as with
  | a :: b :: as =>
    have ha : (tag sort a).as? other = none := Object.as?_eq_none_iff.mpr hne
    rw [many?, List.length_map, if_pos h, List.map_cons, List.mapM_cons, ha]
    rfl

variable {s : State} {val : Valuation}

/-- An operator over any number of operands of a sort, alone and without operands too, has the
values of a function. -/
structure Folds (operator neutral : String) (sort : SolverSort)
    (φ : List (Carrier sort) → Carrier sort) : Prop where
  /-- Without operands it is the neutral element. -/
  nil : literal? neutral = some (tag sort (φ []))
  /-- Alone it is the operand. -/
  one : ∀ a, φ [a] = a
  /-- With two operands or more it is the operator. -/
  many : ∃ op, Operator.ofSymbol? operator = some op ∧
    ∀ as, 2 ≤ as.length → op.value? (as.map (tag sort)) = some (tag sort (φ as))

/-- Joined operands have the value of the function on their values, however many they are. -/
theorem Folds.value? {operator neutral : String} {φ : List (Carrier sort) → Carrier sort}
    (h : Folds operator neutral sort φ) {xs : List SExpr} {as : List (Carrier sort)}
    (hs : List.Forall₂ (fun x a => s.value? val x = some (tag sort a)) xs as) :
    s.value? val (combine operator neutral xs) = some (tag sort (φ as)) := by
  cases hs with
  | nil => exact State.value?_literal h.nil
  | @cons x a xs as hx hs =>
    cases hs with
    | nil =>
      rw [h.one]
      exact hx
    | @cons y b xs as hy hs =>
      obtain ⟨op, hop, hmany⟩ := h.many
      rw [← hmany (a :: b :: as) (Nat.le_add_left 2 as.length)]
      refine State.value?_apply op hop ?_
      exact List.forall₂_map_right_iff.mpr (.cons hx (.cons hy hs))

theorem folds_and : Folds "and" "true" .bool fun as => List.all as id where
  nil := rfl
  one a := Bool.and_true a
  many := ⟨.and, rfl, fun as h => by rw [Operator.value?, many?_map_tag h]; rfl⟩

theorem folds_or : Folds "or" "false" .bool fun as => List.any as id where
  nil := rfl
  one a := Bool.or_false a
  many := ⟨.or, rfl, fun as h => by rw [Operator.value?, many?_map_tag h]; rfl⟩

theorem folds_intAdd : Folds "+" "0" .int fun ns => List.sum (α := Int) ns where
  nil := rfl
  one n := Int.add_zero n
  many := ⟨.add, rfl, fun ns h => by rw [Operator.value?, many?_map_tag h]; rfl⟩

theorem folds_intMultiply : Folds "*" "1" .int fun ns => List.prod (α := Int) ns where
  nil := rfl
  one n := Int.mul_one n
  many := ⟨.multiply, rfl, fun ns h => by rw [Operator.value?, many?_map_tag h]; rfl⟩

theorem folds_add : Folds "+" "0.0" .real fun qs => List.sum (α := Rat) qs where
  nil := literal?_wholeReal 0
  one q := Rat.add_zero q
  many := ⟨.add, rfl, fun qs h => by
    have hne : SolverSort.real ≠ .int := nofun
    rw [Operator.value?, many?_map_tag_ne hne h, many?_map_tag h]
    rfl⟩

theorem folds_multiply : Folds "*" "1.0" .real fun qs => List.prod (α := Rat) qs where
  nil := literal?_wholeReal 1
  one q := Rat.mul_one q
  many := ⟨.multiply, rfl, fun qs h => by
    have hne : SolverSort.real ≠ .int := nofun
    rw [Operator.value?, many?_map_tag_ne hne h, many?_map_tag h]
    rfl⟩

end Many

/-! ## Values of operations -/

/-- A node has a value in a state. -/
def HasValue (s : State) (val : Valuation) (sort : SolverSort) (x : Node) (a : Carrier sort) :
    Prop :=
  s.value? val x.expr = some ⟨sort, a⟩

variable {s : State} {val : Valuation}

theorem value?_asReal {m : Numeral Obj} {n : Numeral Carrier}
    (h : Numeral.Rel (HasValue s val) m n) :
    s.value? val (asReal m) = some ⟨.real, n.toRat⟩ := by
  cases h with
  | integer h => exact State.value?_apply .toReal rfl (.cons h .nil)
  | rational h => exact h

/-- A constant that is asked for has the value of its name under its sort. -/
theorem value?_constant (h : s.Wf) (name : String) (sort : SolverSort) :
    HasValue (constant name sort s).state val sort (constant name sort s).value
      (val sort name) := by
  obtain ⟨d, hd, hkey, hnode⟩ := constant_declared name sort s
  cases hkey
  rw [HasValue, hnode]
  exact State.value?_declared (wf_constant h d.name d.sort) hd

/-- Joined nodes have the value of the function on the values of the nodes. -/
theorem value?_fold {operator neutral : String} {sort : SolverSort}
    {φ : List (Carrier sort) → Carrier sort} (h : Folds operator neutral sort φ) {xs : List Node}
    {as : List (Carrier sort)} (hs : List.Forall₂ (HasValue s val sort) xs as) :
    s.value? val (fold operator neutral xs s).value.expr = some ⟨sort, φ as⟩ := by
  rw [expr_fold]
  exact h.value? (List.forall₂_map_left_iff.mpr hs)

/-- Nodes that are joined as reals have the value of the function on their values as rationals. -/
theorem value?_foldReal {operator neutral : String} {φ : List Rat → Rat}
    (h : Folds operator neutral .real φ) {ms : List (Numeral Obj)} {ns : List (Numeral Carrier)}
    (hs : List.Forall₂ (Numeral.Rel (HasValue s val)) ms ns) :
    s.value? val (foldReal operator neutral ms s).value.expr =
      some ⟨.real, φ (ns.map Numeral.toRat)⟩ := by
  rw [expr_foldReal]
  refine h.value? ?_
  rw [List.forall₂_map_left_iff, List.forall₂_map_right_iff]
  exact hs.imp fun _ _ hmn => value?_asReal hmn

/-- An operation builds a term with the value of the operation. -/
theorem value?_build (h : s.Wf) {op : Operation Obj} {op' : Operation Carrier}
    (hop : Operation.Rel (HasValue s val) op op') :
    (build op s).state.value? val (build op s).value.expr = some (op'.value val) := by
  -- Operands have their values in `s`.  Only a constant may be new in the state that is reached.
  have hlater : ∀ {v}, s.value? val (build op s).value.expr = some v →
      (build op s).state.value? val (build op s).value.expr = some v :=
    fun hv => (grows_build s op).value? h (wf_build h op) hv
  cases hop with
  | core hop =>
    cases hop with
    | boolConstant value => cases value <;> exact hlater (State.value?_literal rfl)
    | boolVar name => exact value?_constant h name .bool
    | not hx => exact hlater (State.value?_apply .not rfl (.cons hx .nil))
    | and hs => exact hlater (value?_fold folds_and hs)
    | or hs => exact hlater (value?_fold folds_or hs)
    | implies hx hy => exact hlater (State.value?_apply .implies rfl (.cons hx (.cons hy .nil)))
    | iff hx hy =>
      exact hlater (State.value?_apply (.compare .equals) rfl (.cons hx (.cons hy .nil)))
    | intConstant n => exact hlater (State.value?_intLiteral n)
    | intVar name => exact value?_constant h name .int
    | intAdd hs => exact hlater (value?_fold folds_intAdd hs)
    | intMultiply hs => exact hlater (value?_fold folds_intMultiply hs)
    | intCompare c hx hy =>
      have hop := Operator.ofSymbol?_comparison c
      exact hlater (State.value?_apply (.compare c) hop (.cons hx (.cons hy .nil)))
  | rational hop =>
    cases hop with
    | constant q => exact hlater (State.value?_realLiteral q)
    | var name => exact value?_constant h name .real
    | add hs => exact hlater (value?_foldReal folds_add hs)
    | multiply hs => exact hlater (value?_foldReal folds_multiply hs)
    | compare c hm hn =>
      have hop := Operator.ofSymbol?_comparison c
      exact hlater (State.value?_apply (.compare c) hop
        (.cons (value?_asReal hm) (.cons (value?_asReal hn) .nil)))

/-! ## Building and evaluating -/

/-- Nodes and their values under a valuation. -/
def evaluating (val : Valuation) : Correspondence State Capabilities Obj Carrier where
  state s c := s.Wf ∧ s.capabilities = c
  obj s _ := HasValue s val

/-- Building an operation is in step with its value. -/
theorem inStep_build {c : Capabilities} (h : (evaluating val).state s c) {op : Operation Obj}
    {op' : Operation Carrier} (hop : Operation.Rel (HasValue s val) op op')
    {sort : SolverSort} {a : Carrier sort} (ha : op'.value val = ⟨sort, a⟩) :
    InStep (evaluating val) (fun s c => (evaluating val).obj s c sort) s c
      (ExceptT.lift (build op)) (pure a) := by
  obtain ⟨hwf, hcapabilities⟩ := h
  have hgrows := grows_build s op
  refine ⟨?_, ?_, ?_⟩ <;> rw [Action.run_lift, Action.run_pure]
  · exact ⟨wf_build hwf op, hgrows.capabilities.trans hcapabilities⟩
  · exact fun _ _ _ hx => hgrows.value? hwf (wf_build hwf op) hx
  · refine .ok ?_
    have hvalue := value?_build hwf hop
    rw [ha] at hvalue
    exact hvalue

/-- Building terms simulates computing values. -/
def evaluation (val : Valuation) : Simulation backend (meaning val) True where
  toCorrespondence := evaluating val
  capabilities h := h.2
  core h hop := inStep_build h (.core hop) rfl
  rational _ _ _ _ _ _ h hop := inStep_build h (.rational hop) rfl

/-! ## Sessions -/

theorem evaluation_performAll (capabilities : Capabilities) (first : Nat) (options : Options)
    (steps : List Step) (val : Valuation) :
    let built := Session.performAll steps
      (.start (B := backend) (.empty capabilities first) options)
    let evaluated := Session.performAll steps (.start (B := meaning val) capabilities options)
    (evaluation val).Sessions built.state evaluated.state ∧
      Agrees val evaluated.state.encoder ∧
      List.Forall₂ ((evaluation val).outcomes built.state evaluated.state)
        built.value evaluated.value := by
  have hstart : (evaluation val).state (.empty capabilities first) capabilities :=
    ⟨.empty capabilities first, rfl⟩
  obtain ⟨hsessions, _, houtcomes⟩ := Simulation.sessions_performAll steps
    (Simulation.Sessions.start hstart options)
  exact ⟨hsessions, agrees_performAll steps nofun, houtcomes⟩

/-- After any session on an SMT-LIB backend, a formula that is encoded has a truth value under every
valuation, and the term that it is encoded as is read as that truth value.  In the same way a term
that is encoded is read as its number. -/
theorem encoding_preserves_meaning (capabilities : Capabilities) (first : Nat) (options : Options)
    (steps : List Step) (val : Valuation) :
    let encoder := (Session.performAll steps
      (.start (B := backend) (.empty capabilities first) options)).state.encoder
    (∀ (e : Expr) (x : Node), ((Encoder.encode e).run encoder).value = .ok x →
      ∃ b, e.truth? val = some b ∧
        ((Encoder.encode e).run encoder).state.backend.value? val x.expr = some ⟨.bool, b⟩) ∧
    (∀ (t : Term) (n : Numeral Obj), ((Encoder.encodeTerm t).run encoder).value = .ok n →
      ∃ m, t.number? val = some m ∧
        ((Encoder.encodeTerm t).run encoder).state.backend.value? val n.toObject.value.expr =
          some m.toObject) := by
  intro encoder
  obtain ⟨hsessions, hagrees, _⟩ :=
    evaluation_performAll capabilities first options steps val
  constructor
  · intro e x hx
    have houtcome := (Simulation.inStep_encode hsessions.encoder e).outcome
    rw [hx] at houtcome
    generalize hy : ((Encoder.encode e).run _).value = y at houtcome
    cases houtcome with
    | @ok _ b hb => exact ⟨b, (evaluates_encode e).value hagrees hy, hb⟩
  · intro t n hn
    have houtcome := (Simulation.inStep_encodeTerm hsessions.encoder t).outcome
    rw [hn] at houtcome
    generalize hy : ((Encoder.encodeTerm t).run _).value = y at houtcome
    cases houtcome with
    | @ok _ m hm =>
      refine ⟨m, (evaluates_encodeTerm t).value hagrees hy, ?_⟩
      cases hm with
      | integer hm => exact hm
      | rational hm => exact hm

/-- A whole number and a double, added as doubles. -/
def mixedSum : Term :=
  .app .add [.var ⟨"x", .integer⟩, .constant (.double ⟨0x3ff8000000000000⟩)] .double

/-- A truth value and a whole number of one name. -/
def mixed : Expr :=
  .and [.literal ⟨"x", .bool⟩ true, .compare .lessEqual mixedSum (.constant (.integer (-3)))]

/-- What the sum is encoded as where `x` is a whole number. -/
def mixedSumTerm : SExpr :=
  .apply "+" [.apply "to_real" [.atom "x"], .apply "/" [.atom "3.0", .atom "2.0"]]

/-- What the formula is encoded as where `x` is a whole number. -/
def mixedTerm : SExpr :=
  .apply "and" [.atom "x@Bool",
    .apply "<=" [mixedSumTerm, .apply "to_real" [.apply "-" [.atom "3"]]]]

/-- An encoder with `x` declared as a whole number. -/
def declaringEncoder : Encoder backend :=
  (Session.performAll [.declare ⟨"x", .integer⟩]
    (.start (B := backend) (.empty {} 0) {})).state.encoder

/-- Where the whole number is declared first, the truth value gets another symbol. -/
theorem encoding_preserves_meaning_mixed :
    (((Encoder.encode mixed).run declaringEncoder).value = .ok ⟨6, mixedTerm⟩ ∧
      ∃ b, mixed.truth? .zero = some b ∧
        ((Encoder.encode mixed).run declaringEncoder).state.backend.value? .zero mixedTerm =
          some ⟨.bool, b⟩) ∧
    ((Encoder.encodeTerm mixedSum).run declaringEncoder).value =
        .ok (.rational ⟨2, mixedSumTerm⟩) ∧
      ∃ m, mixedSum.number? .zero = some m ∧
        ((Encoder.encodeTerm mixedSum).run declaringEncoder).state.backend.value? .zero
          mixedSumTerm = some m.toObject := by
  have hformula : ((Encoder.encode mixed).run declaringEncoder).value = .ok ⟨6, mixedTerm⟩ := by
    rfl
  have hsum : ((Encoder.encodeTerm mixedSum).run declaringEncoder).value =
      .ok (.rational ⟨2, mixedSumTerm⟩) := by
    rfl
  have h := encoding_preserves_meaning {} 0 {} [.declare ⟨"x", .integer⟩] .zero
  have hformulas := h.1 mixed ⟨6, mixedTerm⟩ hformula
  have hterms := h.2 mixedSum (.rational ⟨2, mixedSumTerm⟩) hsum
  exact ⟨⟨hformula, hformulas⟩, hsum, hterms⟩

/-- Every answer of a session on an SMT-LIB backend is a term of the sort that it is tagged with,
in every state that the session reaches from then on. -/
theorem answers_wellSorted (capabilities : Capabilities) (first : Nat) (options : Options)
    (steps later : List Step) :
    let reached := Session.performAll steps
      (.start (B := backend) (.empty capabilities first) options)
    ∀ o : Object Obj, .ok (some o) ∈ reached.value →
      (Session.performAll later reached.state).state.encoder.backend.sort? o.value.expr =
        some o.sort := by
  intro reached o ho
  obtain ⟨hsessions, _, houtcomes⟩ :=
    evaluation_performAll capabilities first options steps .zero
  obtain ⟨y, _, hy⟩ := exists_rel_of_mem houtcomes ho
  -- The steps that follow keep the value that the answer has when it is given.
  have hkeeps := (Simulation.sessions_performAll later hsessions).2.1
  have hlater := hy.mono hkeeps
  cases hlater with
  | ok hop =>
    cases hop with
    | some hop =>
      cases hop with
      | mk hvalue => exact State.sort?_of_value? hvalue

/-- Numerals of both sorts, and their sum by an operation of the backend. -/
def summing : List Step :=
  [.encodeTerm (.var ⟨"x", .integer⟩), .encodeTerm (.constant (.double ⟨0x3ff8000000000000⟩)),
    .operation (.rational (.add [.integer 0, .rational 1]))]

/-- The sum stays a term of sort `Real` when its name is declared under another sort. -/
theorem answers_wellSorted_summing :
    let reached := Session.performAll summing (.start (B := backend) (.empty {} 0) {})
    .ok (some ⟨.real, ⟨2, mixedSumTerm⟩⟩) ∈ reached.value ∧
      (Session.performAll [.declare ⟨"x", .bool⟩] reached.state).state.encoder.backend.sort?
        mixedSumTerm = some .real := by
  intro reached
  have hmem : .ok (some ⟨.real, ⟨2, mixedSumTerm⟩⟩) ∈ reached.value :=
    List.mem_of_getElem? (i := 2) rfl
  exact ⟨hmem, answers_wellSorted {} 0 {} summing [.declare ⟨"x", .bool⟩] _ hmem⟩

end SmtLib

end SmtEncoding
