import SmtEncoding.Solver.Capabilities

/-!
# Log events

What encoding reports while it runs.  Each event has a level and a text.
-/

namespace SmtEncoding

/-- The weight of an event. -/
inductive LogLevel where
  | trace
  | debug
  | warn
deriving DecidableEq, Repr

/-- The name of a level. -/
def LogLevel.name : LogLevel → String
  | trace => "TRACE"
  | debug => "DEBUG"
  | warn => "WARN"

/-- Something worth reporting. -/
inductive LogEvent where
  /-- The encoding of a node of a formula begins. -/
  | encoding (kind : NodeKind)
  /-- A constant is declared under a symbol. -/
  | declaring (symbol : String) (sort : SolverSort)
  /-- A variable got an object of the given sort. -/
  | created (v : Variable) (sort : SolverSort)
  /-- A backend is replaced while variables of it are registered. -/
  | rebinding (registered : Nat)
  /-- A backend has been replaced by one with the given capabilities. -/
  | rebound (capabilities : Capabilities)
deriving DecidableEq, Repr

namespace LogEvent

/-- The level of an event. -/
def level : LogEvent → LogLevel
  | encoding _ => .trace
  | declaring _ _ => .trace
  | created _ _ => .debug
  | rebinding _ => .warn
  | rebound _ => .debug

/-- The text of an event. -/
def text : LogEvent → String
  | encoding kind => "translating " ++ kind.name ++ " node"
  | declaring symbol sort => "declaring " ++ symbol ++ " as " ++ sort.name
  | created v sort => "created backend variable for " ++ v.text ++ " as " ++ sort.name
  | rebinding n =>
    "rebinding translator with " ++ toString n ++ " registered variables from the previous context"
  | rebound c => "rebound translator, capabilities " ++ c.text

/-- The line that reports an event. -/
def line (e : LogEvent) : String := e.level.name ++ " " ++ e.text

end LogEvent

end SmtEncoding
