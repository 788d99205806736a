import SmtEncoding.Solver.Action
import SmtEncoding.Solver.Object
import SmtEncoding.Text.Quoted

/-!
# Registries

A registry keeps one object per variable, in the order in which the variables were first met.
Nothing is ever removed or replaced.

`Registry.resolve` answers with the object of a variable under a sort.  A registered variable
answers with its object if that has the sort, and fails otherwise.  One that is not registered is
created and entered, or refused if creation is not allowed.
-/

namespace SmtEncoding

/-- The objects of variables. -/
structure Registry (O : SolverSort → Type) where
  /-- The variables with their objects, oldest first. -/
  entries : List (Variable × Object O)

namespace Registry

variable {O : SolverSort → Type} {σ : Type}

/-- The registry without entries. -/
def empty : Registry O := ⟨[]⟩

/-- The number of registered variables. -/
def size (r : Registry O) : Nat := r.entries.length

/-- Whether no variable is registered. -/
def isEmpty (r : Registry O) : Bool := r.entries.isEmpty

/-- The object of a variable. -/
def get? (r : Registry O) (v : Variable) : Option (Object O) := r.entries.lookup v

/-- The registered variables, oldest first. -/
def registered (r : Registry O) : List Variable := r.entries.map Prod.fst

/-- The objects of the registered variables, oldest first. -/
def objects (r : Registry O) : List (Object O) := r.entries.map Prod.snd

/-- The registry with one more entry. -/
def insert (r : Registry O) (v : Variable) (o : Object O) : Registry O :=
  ⟨r.entries ++ [(v, o)]⟩

@[simp] theorem size_empty : (empty : Registry O).size = 0 := rfl

@[simp] theorem size_insert (r : Registry O) (v : Variable) (o : Object O) :
    (r.insert v o).size = r.size + 1 := by
  simp [size, insert]

@[simp] theorem registered_insert (r : Registry O) (v : Variable) (o : Object O) :
    (r.insert v o).registered = r.registered ++ [v] := by
  simp [registered, insert]

@[simp] theorem objects_insert (r : Registry O) (v : Variable) (o : Object O) :
    (r.insert v o).objects = r.objects ++ [o] := by
  simp [objects, insert]

/-- A new entry is found under its variable unless an older one is. -/
theorem get?_insert (r : Registry O) (v w : Variable) (o : Object O) :
    (r.insert v o).get? w = (r.get? w).or (if w = v then some o else none) := by
  by_cases h : w = v
  · simp [get?, insert, List.lookup_append, h]
  · simp [get?, insert, List.lookup_append, List.lookup_cons, h, beq_eq_false_iff_ne.mpr h]

/-- The object of a variable under a sort.  A variable that is not registered is created by
`create` if `allow` is set. -/
def resolve {sort : SolverSort} (create : String → Action σ (O sort)) (allow : Bool)
    (v : Variable) : Action (σ × Registry O) (O sort) := do
  match (← get).2.get? v with
  | some found =>
    match found.as? sort with
    | some object => pure object
    | none => throw (.sortMismatch v.name sort found.sort)
  | none =>
    if allow then
      let object ← Action.zoom Prod.fst (fun s p => (s, p.2)) (create v.name)
      Action.note (.created v sort)
      modify fun p => (p.1, p.2.insert v ⟨sort, object⟩)
      pure object
    else throw (.variableNotPreregistered v.name)

/-- The description of an entry. -/
def describeEntry (inner : {s : SolverSort} → O s → String) (entry : Variable × Object O) :
    String :=
  "Variable \x7b name: " ++ Text.quote entry.1.name ++ ", value_type: " ++ entry.1.type.name ++
    " \x7d: " ++ entry.2.describe inner

/-- The description of a registry. -/
def describe (inner : {s : SolverSort} → O s → String) (r : Registry O) : String :=
  "\x7b" ++ ", ".intercalate (r.entries.map (describeEntry inner)) ++ "\x7d"

end Registry

end SmtEncoding
