import SmtEncoding.SmtLib.SExpr
import SmtEncoding.SmtLib.Symbol
import SmtEncoding.Solver.Action

/-!
# Declared constants

The state of an SMT-LIB backend: the constants declared so far, one for each name and sort that was
asked for, and the number of the next node.  A constant is declared when it is first asked for and
found again later.  Every other node is new.
-/

namespace SmtEncoding.SmtLib

/-- A declared constant. -/
structure Declaration where
  /-- The name that was asked for. -/
  name : String
  /-- The sort that was asked for. -/
  sort : SolverSort
  /-- The symbol chosen for the two. -/
  symbol : String
  /-- The number of the node of the constant. -/
  id : Nat
deriving DecidableEq, Repr

/-- The node of a declared constant. -/
def Declaration.node (d : Declaration) : Node := ⟨d.id, .atom d.symbol⟩

/-- What an SMT-LIB backend remembers. -/
structure State where
  /-- What the solver can express. -/
  capabilities : Capabilities
  /-- The declared constants, oldest first. -/
  declarations : List Declaration
  /-- The number of the next node. -/
  nextId : Nat
deriving DecidableEq, Repr

namespace State

/-- A state without declarations that numbers its nodes from `first` on. -/
def empty (capabilities : Capabilities := {}) (first : Nat := 0) : State :=
  ⟨capabilities, [], first⟩

/-- The constant declared for a name and a sort. -/
def find? (s : State) (name : String) (sort : SolverSort) : Option Declaration :=
  s.declarations.find? fun d => d.name == name && d.sort == sort

/-- The bodies of the declared symbols. -/
def bodies (s : State) : List String := s.declarations.map fun d => body d.symbol

end State

/-- A new node. -/
def fresh (x : SExpr) : Call State Node := fun s =>
  ⟨⟨s.nextId, x⟩, { s with nextId := s.nextId + 1 }, []⟩

/-- The constant for a name and a sort, declared if it is asked for the first time. -/
def constant (name : String) (sort : SolverSort) : Call State Node := fun s =>
  match s.find? name sort with
  | some d => ⟨d.node, s, []⟩
  | none =>
    let d : Declaration := ⟨name, sort, freeSymbol s.bodies name sort, s.nextId⟩
    ⟨d.node, { s with declarations := s.declarations ++ [d], nextId := s.nextId + 1 },
      [.declaring d.symbol sort]⟩

end SmtEncoding.SmtLib
