import Mathlib.Data.Finset.Card
import SmtEncoding.Proofs.SymbolSearch

/-!
# Declarations with their index

A state keeps one list of declarations and reads everything off it.  An `IndexedState` keeps three
collections apart: the declared symbols in order, the constant of each name and sort, and the bodies
of the declared symbols.  A constant is found in the second one, its symbol is searched for among
the bodies, and a new constant is entered into all three.

The collections are in step if they mirror one state (`IndexedState.Mirrors`).  Then the search ends
at the symbol that the state chooses (`Mirrors.symbol_eq`), and a constant is answered alike and
keeps the collections in step (`Mirrors.constant_inStep`).  So does every operation, and every run
(`Mirrors.buildAll_inStep`).  `collections_inStep` says what that means for the collections
themselves.
-/

namespace SmtEncoding.SmtLib

deriving instance Hashable for SolverSort

/-- What an SMT-LIB backend remembers, with what is known of the declarations in collections of
their own. -/
structure IndexedState where
  /-- What the solver can express. -/
  capabilities : Capabilities
  /-- The declared symbols with their sorts, oldest first. -/
  declarations : List (String × SolverSort)
  /-- The constant of each name and sort that was asked for. -/
  constants : Std.HashMap (String × SolverSort) Node
  /-- The bodies of the declared symbols. -/
  symbols : Std.HashSet String
  /-- The number of the next node. -/
  nextId : Nat

namespace IndexedState

/-- A state without declarations that numbers its nodes from `first` on. -/
def empty (capabilities : Capabilities := {}) (first : Nat := 0) : IndexedState :=
  ⟨capabilities, [], ∅, ∅, first⟩

/-- The search for a symbol before the first round. -/
def start (symbols : Std.HashSet String) (name : String) (sort : SolverSort) : Search :=
  let symbol := escape name
  if symbols.contains (body symbol) then ⟨escape (name ++ "@" ++ sort.name), 1⟩ else ⟨symbol, 1⟩

/-- Rounds as long as the body of the symbol is taken, and `steps` of them at most. -/
def loop (symbols : Std.HashSet String) (name : String) (sort : SolverSort) (search : Search) :
    Nat → Search
  | 0 => search
  | steps + 1 =>
    if symbols.contains (body search.symbol) then
      loop symbols name sort (search.round name sort) steps
    else search

/-- The symbol for a new constant.  As many rounds as there are declarations are enough. -/
def symbol (r : IndexedState) (name : String) (sort : SolverSort) : String :=
  (loop r.symbols name sort (start r.symbols name sort) r.declarations.length).symbol

/-- The state with one more constant, which is entered into all collections. -/
def declare (r : IndexedState) (name : String) (sort : SolverSort) (x : Node) (symbol : String) :
    IndexedState :=
  { r with
    declarations := r.declarations ++ [(symbol, sort)]
    constants := r.constants.insert (name, sort) x
    symbols := r.symbols.insert (body symbol)
    nextId := r.nextId + 1 }

/-- The constant for a name and a sort, declared if it is asked for the first time. -/
def constant (name : String) (sort : SolverSort) : Call IndexedState Node := fun r =>
  match r.constants[(name, sort)]? with
  | some existing => ⟨existing, r, []⟩
  | none =>
    let symbol := r.symbol name sort
    let x : Node := ⟨r.nextId, .atom symbol⟩
    ⟨x, r.declare name sort x symbol, [.declaring symbol sort]⟩

/-- Builds a node by an operation of either kind.  Only constants look at the collections. -/
def build (op : Operation Obj) : Call IndexedState Node :=
  match op.request? with
  | some (name, sort) => constant name sort
  | none => Call.zoom (fun r => .empty r.capabilities r.nextId)
    (fun s r => { r with nextId := s.nextId }) (SmtLib.build op)

/-- Carries out operations one after another and answers with the nodes that they build. -/
def buildAll : List (Operation Obj) → Call IndexedState (List Node)
  | [] => pure []
  | op :: ops => do
    let x ← build op
    let xs ← buildAll ops
    pure (x :: xs)

/-! ## Collections in step -/

/-- The collections say of the declarations what a state says. -/
structure Mirrors (r : IndexedState) (s : State) : Prop where
  capabilities : r.capabilities = s.capabilities
  declarations : r.declarations = s.declarations.map fun d => (d.symbol, d.sort)
  constants : ∀ name sort, r.constants[(name, sort)]? = (s.find? name sort).map Declaration.node
  symbols : ∀ b, r.symbols.contains b = true ↔ b ∈ s.bodies
  nextId : r.nextId = s.nextId

variable {r : IndexedState} {s : State} {name : String} {sort : SolverSort}

theorem Mirrors.empty (capabilities : Capabilities) (first : Nat) :
    (IndexedState.empty capabilities first).Mirrors (.empty capabilities first) where
  capabilities := rfl
  declarations := rfl
  constants _ _ := Std.HashMap.getElem?_empty
  symbols b := by simp [IndexedState.empty, State.empty, State.bodies]
  nextId := rfl

/-! ### The search for a symbol -/

/-- The loop ends after the first rounds that lead to a free symbol, if it may take as many. -/
theorem loop_eq (symbols : Std.HashSet String) {search : Search} {rounds steps : Nat}
    (hle : rounds ≤ steps)
    (htaken : ∀ n < rounds, symbols.contains (body ((Search.round name sort)^[n] search).symbol))
    (hfree : ¬symbols.contains (body ((Search.round name sort)^[rounds] search).symbol)) :
    loop symbols name sort search steps = (Search.round name sort)^[rounds] search := by
  induction rounds generalizing search steps with
  | zero =>
    cases steps with
    | zero => rfl
    | succ steps => exact if_neg hfree
  | succ rounds ih =>
    cases steps with
    | zero => exact absurd hle (Nat.not_succ_le_zero rounds)
    | succ steps =>
      have hfirst : symbols.contains (body search.symbol) = true := htaken 0 (Nat.succ_pos rounds)
      rw [loop, if_pos hfirst, Function.iterate_succ_apply]
      exact ih (Nat.le_of_succ_le_succ hle) (fun n hn => htaken (n + 1) (Nat.succ_lt_succ hn)) hfree

/-- The search ends at the symbol that the state chooses. -/
theorem Mirrors.symbol_eq (h : r.Mirrors s) (name : String) (sort : SolverSort) :
    r.symbol name sort = freeSymbol s.bodies name sort := by
  obtain ⟨rounds, hle, htaken, hsymbol⟩ := exists_rounds s.bodies name sort
  have hstart : start r.symbols name sort = .start s.bodies name sort := by
    rw [start, Search.start]
    exact if_congr (h.symbols _) rfl rfl
  have hsteps : rounds ≤ r.declarations.length := by
    rw [h.declarations, List.length_map]
    refine hle.trans ((List.toFinset_card_le s.bodies).trans ?_)
    exact (List.length_map _).le
  have hloop := loop_eq r.symbols hsteps
    (fun n hn => (h.symbols _).mpr (htaken n hn)) fun hcontains => by
      have hmem := (h.symbols _).mp hcontains
      rw [← Search.after, hsymbol] at hmem
      exact body_freeSymbol_not_mem s.bodies name sort hmem
  rw [symbol, hstart, hloop]
  exact hsymbol

/-! ### Constants -/

theorem find?_declare (s : State) (name other : String) (sort sort' : SolverSort) :
    (s.declare name sort).find? other sort' =
      (s.find? other sort').or
        (if (name, sort) = (other, sort') then some (s.nextDeclaration name sort) else none) := by
  rw [State.find?, State.declare, List.find?_append, ← State.find?, List.find?_singleton]
  congr 2
  simp [State.nextDeclaration]

/-- A new constant keeps the collections in step. -/
theorem Mirrors.declare (h : r.Mirrors s) (hnew : s.find? name sort = none) :
    (r.declare name sort (s.nextDeclaration name sort).node
      (freeSymbol s.bodies name sort)).Mirrors (s.declare name sort) where
  capabilities := h.capabilities
  declarations := by
    rw [IndexedState.declare, State.declare, List.map_append, ← h.declarations]
    rfl
  constants other sort' := by
    rw [IndexedState.declare, Std.HashMap.getElem?_insert, find?_declare, h.constants]
    by_cases hkey : (name, sort) = (other, sort')
    · cases hkey
      simp [hnew]
    · simp only [beq_iff_eq, if_neg hkey, Option.or_none]
  symbols b := by
    rw [IndexedState.declare, Std.HashSet.contains_insert, State.bodies_declare, Bool.or_eq_true,
      h.symbols, beq_iff_eq, List.mem_append, List.mem_singleton, or_comm, eq_comm]
  nextId := congrArg (· + 1) h.nextId

/-- In step with a state, a constant is answered as the state answers it, and the collections stay
in step. -/
theorem Mirrors.constant_inStep (h : r.Mirrors s) (name : String) (sort : SolverSort) :
    (constant name sort r).value = (SmtLib.constant name sort s).value ∧
      (constant name sort r).log = (SmtLib.constant name sort s).log ∧
      (constant name sort r).state.Mirrors (SmtLib.constant name sort s).state := by
  have hconstant := h.constants name sort
  cases hfind : s.find? name sort with
  | some d =>
    have hplain : SmtLib.constant name sort s = ⟨d.node, s, []⟩ := by rw [SmtLib.constant, hfind]
    have hrun : constant name sort r = ⟨d.node, r, []⟩ := by
      rw [constant, hconstant, hfind]
      rfl
    rw [hplain, hrun]
    exact ⟨rfl, rfl, h⟩
  | none =>
    let d := s.nextDeclaration name sort
    have hplain : SmtLib.constant name sort s =
        ⟨d.node, s.declare name sort, [.declaring d.symbol sort]⟩ := by
      rw [SmtLib.constant, hfind]
      rfl
    have hrun : constant name sort r =
        ⟨d.node, r.declare name sort d.node d.symbol, [.declaring d.symbol sort]⟩ := by
      rw [constant, hconstant, hfind]
      simp only [Option.map_none, h.symbol_eq, h.nextId]
      rfl
    rw [hplain, hrun]
    exact ⟨rfl, rfl, h.declare hfind⟩

/-! ### Operations -/

/-- A call that looks at the number of the next node only, and at nothing declared. -/
def NumbersOnly (call : Call State Node) : Prop :=
  ∀ s : State, call s =
    let reply := call (.empty s.capabilities s.nextId)
    ⟨reply.value, { s with nextId := reply.state.nextId }, reply.log⟩

theorem numbersOnly_fold (operator neutral : String) (xs : List Node) :
    NumbersOnly (fold operator neutral xs) := by
  intro s
  match xs with
  | [] => rfl
  | [_] => rfl
  | _ :: _ :: _ => rfl

theorem numbersOnly_foldReal (operator neutral : String) (ns : List (Numeral Obj)) :
    NumbersOnly (foldReal operator neutral ns) := by
  intro s
  match ns with
  | [] => rfl
  | [.integer _] => rfl
  | [.rational _] => rfl
  | m :: n :: ns =>
    rw [foldReal_cons_cons]
    rfl

/-- Only operations that ask for a constant look at what is declared. -/
theorem numbersOnly_build {op : Operation Obj} (hop : op.request? = none) :
    NumbersOnly (SmtLib.build op) := by
  cases op with
  | core op =>
    cases op with
    | boolVar name => cases hop
    | intVar name => cases hop
    | boolConstant value => cases value <;> exact fun _ => rfl
    | and xs => exact numbersOnly_fold _ _ xs
    | or xs => exact numbersOnly_fold _ _ xs
    | intAdd xs => exact numbersOnly_fold _ _ xs
    | intMultiply xs => exact numbersOnly_fold _ _ xs
    | not x => exact fun _ => rfl
    | implies x y => exact fun _ => rfl
    | iff x y => exact fun _ => rfl
    | intConstant value => exact fun _ => rfl
    | intCompare c x y => exact fun _ => rfl
  | rational op =>
    cases op with
    | var name => cases hop
    | add ns => exact numbersOnly_foldReal _ _ ns
    | multiply ns => exact numbersOnly_foldReal _ _ ns
    | constant value => exact fun _ => rfl
    | compare c m n => exact fun _ => rfl

/-- In step with a state, an operation is answered as the state answers it, and the collections stay
in step. -/
theorem Mirrors.build_inStep (h : r.Mirrors s) (op : Operation Obj) :
    (build op r).value = (SmtLib.build op s).value ∧
      (build op r).log = (SmtLib.build op s).log ∧
      (build op r).state.Mirrors (SmtLib.build op s).state := by
  rcases build_cases op s with ⟨name, sort, hop, hbuild⟩ | ⟨hop, _⟩
  · rw [hbuild, build, hop]
    exact h.constant_inStep name sort
  · rw [build, hop, numbersOnly_build hop s, ← h.capabilities, ← h.nextId]
    exact ⟨rfl, rfl, rfl, h.declarations, h.constants, h.symbols, rfl⟩

/-- In step with a state, operations are answered as the state answers them, and the collections
stay in step. -/
theorem Mirrors.buildAll_inStep (h : r.Mirrors s) (ops : List (Operation Obj)) :
    (buildAll ops r).value = (SmtLib.buildAll ops s).value ∧
      (buildAll ops r).log = (SmtLib.buildAll ops s).log ∧
      (buildAll ops r).state.Mirrors (SmtLib.buildAll ops s).state := by
  induction ops generalizing r s with
  | nil => exact ⟨rfl, rfl, h⟩
  | cons op ops ih =>
    obtain ⟨hvalue, hlog, hstate⟩ := h.build_inStep op
    obtain ⟨hvalues, hlogs, hlast⟩ := ih hstate
    rw [buildAll, SmtLib.buildAll]
    simp only [Call.bind_apply, Call.pure_apply]
    rw [hvalue, hlog, hvalues, hlogs]
    exact ⟨rfl, rfl, hlast⟩

end IndexedState

/-- Whatever operations are carried out on an empty state, with its collections apart: they are
answered and reported as without, and the declarations are the same.  The collections agree with one
another.  The bodies are those of the declared symbols, which differ, and the constants are the
symbols that were declared under their sorts. -/
theorem collections_inStep (capabilities : Capabilities) (first : Nat)
    (ops : List (Operation Obj)) :
    let plain := buildAll ops (.empty capabilities first)
    let reply := IndexedState.buildAll ops (.empty capabilities first)
    let r := reply.state
    reply.value = plain.value ∧
    reply.log = plain.log ∧
    r.declarations = plain.state.declarations.map (fun d => (d.symbol, d.sort)) ∧
    (∀ b, r.symbols.contains b = true ↔ b ∈ r.declarations.map fun p => body p.1) ∧
    (r.declarations.map fun p => body p.1).Nodup ∧
    (∀ (name : String) (sort : SolverSort) (x : Node), r.constants[(name, sort)]? = some x →
      ∃ symbol, (symbol, sort) ∈ r.declarations ∧ x.expr = .atom symbol) ∧
    ∀ (symbol : String) (sort : SolverSort), (symbol, sort) ∈ r.declarations →
      ∃ (name : String) (x : Node), r.constants[(name, sort)]? = some x ∧
        x.expr = .atom symbol := by
  intro plain reply r
  have hinStep := (IndexedState.Mirrors.empty capabilities first).buildAll_inStep ops
  obtain ⟨hvalue, hlog, hr⟩ : reply.value = plain.value ∧ reply.log = plain.log ∧
    r.Mirrors plain.state := hinStep
  have hwf : plain.state.Wf := wf_buildAll ops (.empty capabilities first)
  have hbodies : (r.declarations.map fun p => body p.1) = plain.state.bodies := by
    rw [hr.declarations, List.map_map]
    rfl
  refine ⟨hvalue, hlog, hr.declarations, ?_, ?_, ?_, ?_⟩
  · rw [hbodies]
    exact hr.symbols
  · rw [hbodies]
    exact hwf.bodies
  · intro name sort x hx
    rw [hr.constants, Option.map_eq_some_iff] at hx
    obtain ⟨d, hfind, rfl⟩ := hx
    obtain ⟨hmem, hkey⟩ := State.mem_of_find? hfind
    cases hkey
    refine ⟨d.symbol, ?_, rfl⟩
    rw [hr.declarations]
    exact List.mem_map_of_mem hmem
  · intro symbol sort hmem
    rw [hr.declarations, List.mem_map] at hmem
    obtain ⟨d, hd, heq⟩ := hmem
    cases heq
    refine ⟨d.name, d.node, ?_, rfl⟩
    rw [hr.constants, hwf.find?_of_mem hd]
    rfl

end SmtEncoding.SmtLib
