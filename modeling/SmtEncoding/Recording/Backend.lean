import SmtEncoding.Solver.Backend

/-!
# Recording backends

A recording backend builds nothing.  It keeps the operations that it was asked for, in order, and
the object that an operation builds is its position.  Operands are positions too, so the record
shows the whole structure that was built.

`Recording.backend` records every operation.  `Recording.minimal` records core operations only and
fails at each rational one, whatever capabilities it claims.
-/

namespace SmtEncoding.Recording

/-- The objects of a recording backend: positions in its record. -/
abbrev Handle : SolverSort → Type := fun _ => Nat

/-- A recorded operation. -/
abbrev Entry : Type := Operation Handle

/-- What a recording backend remembers. -/
structure State where
  /-- The capabilities that it claims. -/
  capabilities : Capabilities
  /-- The recorded operations, oldest first. -/
  entries : List Entry

/-- A state without entries. -/
def State.empty (capabilities : Capabilities := {}) : State := ⟨capabilities, []⟩

/-- Records an operation and answers with its position. -/
def record (entry : Entry) : Call State Nat := fun s =>
  ⟨s.entries.length, { s with entries := s.entries ++ [entry] }, []⟩

/-- The backend that records every operation. -/
@[reducible] def backend : Backend where
  State := State
  Obj := Handle
  capabilities := State.capabilities
  describe := fun (position : Nat) => toString position
  core := fun op => record (.core op)
  rational := fun op => ExceptT.lift (record (.rational op))

/-- The backend that records core operations and has no rational ones. -/
@[reducible] def minimal : Backend where
  State := State
  Obj := Handle
  capabilities := State.capabilities
  describe := fun (position : Nat) => toString position
  core := fun op => record (.core op)

end SmtEncoding.Recording
