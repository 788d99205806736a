import SmtEncoding.Options
import SmtEncoding.Registry
import SmtEncoding.Solver.Backend

/-!
# Encoders

An encoder holds a backend, what that backend can express, the options and a registry.  It gives
variables their objects.  Literals ask for the truth value of a variable and terms for its number,
so the sort that is asked for follows from the use, and for a term from the declared type.

`declare` enters a variable whatever the options say.  `rebind` replaces the backend and keeps the
registry.
-/

namespace SmtEncoding

/-- An encoder over a backend. -/
structure Encoder (B : Backend) where
  /-- The backend. -/
  backend : B.State
  /-- The features of the backend. -/
  capabilities : Capabilities
  /-- The options. -/
  options : Options
  /-- The objects of the variables met so far. -/
  registry : Registry B.Obj

namespace Encoder

variable {B : Backend} {α : Type}

/-- An encoder over a backend, with no variable registered. -/
def new (backend : B.State) (options : Options := {}) : Encoder B :=
  ⟨backend, B.capabilities backend, options, .empty⟩

/-- The encoder with the creation of variables allowed or not. -/
def setCreateVariables (allow : Bool) (e : Encoder B) : Encoder B :=
  { e with options := { e.options with createVariables := allow } }

/-! ## Operations of the backend -/

/-- Runs an action on the backend. -/
def onBackend (f : Action B.State α) : Action (Encoder B) α :=
  Action.zoom Encoder.backend (fun s e => { e with backend := s }) f

/-- Builds an object by a core operation. -/
def core {s : SolverSort} (op : CoreOp B.Obj s) : Action (Encoder B) (B.Obj s) :=
  onBackend (ExceptT.lift (B.core op))

/-- Builds an object by a rational operation. -/
def rational {s : SolverSort} (op : RationalOp B.Obj s) : Action (Encoder B) (B.Obj s) :=
  onBackend (B.rational op)

/-- Fails unless the backend has rationals. -/
def requireRationals : Action (Encoder B) Unit := do
  Action.ofExcept (← get).capabilities.requireRationals

/-! ## Variables -/

/-- The object of a variable under a sort, created if `allow` is set. -/
def resolve (allow : Bool) (sort : SolverSort) (v : Variable) : Action (Encoder B) (B.Obj sort) :=
  Action.zoom (fun e => (e.backend, e.registry))
    (fun p e => { e with backend := p.1, registry := p.2 })
    (Registry.resolve (fun name => B.createVariable name sort) allow v)

/-- The truth value of a variable.  Its declared type does not matter. -/
def resolveBool (allow : Bool) (v : Variable) : Action (Encoder B) (B.Obj .bool) :=
  resolve allow .bool v

/-- The number of a variable, by its declared type. -/
def resolveNumeral (allow : Bool) (v : Variable) : Action (Encoder B) (Numeral B.Obj) :=
  match v.type with
  | .integer => .integer <$> resolve allow .int v
  | .double => do
    requireRationals
    .rational <$> resolve allow .real v
  | .bool => throw (.unsupportedType .bool)

/-- Enters a variable under the sort of its declared type, whatever the options say. -/
def declare (v : Variable) : Action (Encoder B) (Object B.Obj) :=
  match v.type with
  | .bool => (⟨.bool, ·⟩) <$> resolveBool true v
  | _ => Numeral.toObject <$> resolveNumeral true v

/-! ## Another backend -/

/-- Replaces the backend and answers with the one before.  The registry is kept. -/
def rebind (next : B.State) : Call (Encoder B) B.State := do
  let e ← get
  if !e.registry.isEmpty then Call.note (.rebinding e.registry.size)
  let capabilities := B.capabilities next
  Call.note (.rebound capabilities)
  set { e with backend := next, capabilities := capabilities }
  pure e.backend

end Encoder

end SmtEncoding
