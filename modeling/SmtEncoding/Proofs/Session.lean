import SmtEncoding.Formula.Uses
import SmtEncoding.Proofs.Simulation

/-!
# Sessions

A session is an encoder that is used step by step.  It holds every object that it was answered
with, and a step names earlier objects by their positions among these.  Besides what an encoder
offers, a step may ask the backend for any operation on held objects, and it may give the encoder
up and put a new one on the same backend.  A step that names an object that is not there, or one of
a sort that does not fit, does nothing.  A step that fails is part of the session like any other,
with all that it did before it failed.  A `Turn` is a step, or it binds the encoder to another
backend.

Sessions over two backends in simulation have the same outcomes step by step
(`Simulation.sessions_performAll`).
-/

namespace SmtEncoding

/-! ## Positions -/

/-- The position that a numeral holds. -/
def Numeral.position : Numeral (fun _ => Nat) → Nat
  | .integer i => i
  | .rational i => i

/-- The operation on objects that an operation on their positions stands for.  Whether a numeral is
a whole number or a rational is read off the object. -/
def Operation.at? {O : SolverSort → Type} (objects : List (Object O)) :
    Operation (fun _ => Nat) → Option (Operation O) :=
  Operation.read? (fun s i => objects[i]?.bind (·.as? s))
    (fun n => objects[n.position]?.bind Object.toNumeral?)

/-! ## Steps -/

/-- A step of a session. -/
inductive Step where
  /-- Encodes a formula. -/
  | encode (e : Expr)
  /-- Encodes a term. -/
  | encodeTerm (t : Term)
  /-- Declares a variable. -/
  | declare (v : Variable)
  /-- Allows or forbids the creation of variables. -/
  | setCreateVariables (allow : Bool)
  /-- Compares the numerals at two positions. -/
  | compare (comparison : Comparison) (left right : Nat)
  /-- Asks the backend for an operation on the objects at given positions. -/
  | operation (op : Operation (fun _ => Nat))
  /-- Puts a new encoder on the backend. -/
  | restart (options : Options)

/-- What a step may answer with. -/
abbrev Outcome (O : SolverSort → Type) : Type := Except EncodeError (Option (Object O))

/-- What a step does to the encoder of a session that holds the given objects. -/
def Step.action {B : Backend} (held : List (Object B.Obj)) :
    Step → Action (Encoder B) (Option (Object B.Obj))
  | encode e => (fun x => some ⟨.bool, x⟩) <$> Encoder.encode e
  | encodeTerm t => (fun n => some n.toObject) <$> Encoder.encodeTerm t
  | declare v => some <$> Encoder.declare v
  | setCreateVariables allow => do
    modify (Encoder.setCreateVariables allow)
    pure none
  | compare c l r =>
    match held[l]?.bind Object.toNumeral?, held[r]?.bind Object.toNumeral? with
    | some m, some n => (fun x => some ⟨.bool, x⟩) <$> Encoder.compareNumerals c m n
    | _, _ => pure none
  | operation op =>
    match op.at? held with
    | some op => some <$> Encoder.onBackend (B.build op)
    | none => pure none
  | restart options => do
    modify fun e => .new e.backend options
    pure none

namespace Step

/-- The variables of the literals that a step encodes. -/
def literals : Step → List Variable
  | encode e => e.literals
  | _ => []

/-- A step leaves the backend to the encoder: it is no operation of the backend, and it puts no new
encoder on the backend. -/
def Plain : Step → Prop
  | operation _ => False
  | restart _ => False
  | _ => True

end Step

/-! ### Turns -/

/-- A step of a session, or a new backend for its encoder. -/
inductive Turn (B : Backend) where
  | step (step : Step)
  /-- Replaces the backend.  The registry is kept, and so are the objects held. -/
  | rebind (next : B.State)

namespace Turn

variable {B : Backend}

/-- The variables of the literals that a turn encodes. -/
def literals : Turn B → List Variable
  | step s => s.literals
  | rebind _ => []

/-- A turn is a plain step, or it binds another backend. -/
def Plain : Turn B → Prop
  | step s => s.Plain
  | rebind _ => True

end Turn

namespace Encoder

variable {B : Backend}

theorem value_rebind (next : B.State) (e : Encoder B) : (rebind next e).value = e.backend := by
  rw [rebind, Call.bind_apply]
  split <;> rfl

theorem state_rebind (next : B.State) (e : Encoder B) :
    (rebind next e).state = { e with backend := next, capabilities := B.capabilities next } := by
  rw [rebind, Call.bind_apply]
  split <;> rfl

end Encoder

/-! ## Sessions -/

/-- An encoder and the objects that it was answered with. -/
structure Session (B : Backend) where
  /-- The encoder. -/
  encoder : Encoder B
  /-- The objects, oldest first. -/
  held : List (Object B.Obj)

namespace Session

variable {B : Backend}

/-- A session that begins. -/
def start (backend : B.State) (options : Options) : Session B := ⟨.new backend options, []⟩

/-- The object of an outcome, if there is one. -/
def object? {O : SolverSort → Type} : Outcome O → Option (Object O)
  | .ok o => o
  | .error _ => none

/-- Performs a step. -/
def perform (step : Step) : Call (Session B) (Outcome B.Obj) := fun s =>
  let reply := (step.action s.held).run s.encoder
  ⟨reply.value, ⟨reply.state, s.held ++ (object? reply.value).toList⟩, reply.log⟩

/-- Performs steps one after another. -/
def performAll : List Step → Call (Session B) (List (Outcome B.Obj))
  | [] => pure []
  | step :: steps => do
    let outcome ← perform step
    let outcomes ← performAll steps
    pure (outcome :: outcomes)

/-- Takes a turn. -/
def take : Turn B → Call (Session B) (Outcome B.Obj)
  | .step step => perform step
  | .rebind next => fun s =>
    let reply := Encoder.rebind next s.encoder
    ⟨.ok none, ⟨reply.state, s.held⟩, reply.log⟩

/-- Takes turns one after another. -/
def takeAll : List (Turn B) → Call (Session B) (List (Outcome B.Obj))
  | [] => pure []
  | turn :: turns => do
    let outcome ← take turn
    let outcomes ← takeAll turns
    pure (outcome :: outcomes)

/-- A rebinding replaces the backend and its capabilities, and keeps registry and options. -/
theorem encoder_rebind (next : B.State) (s : Session B) :
    (take (.rebind next) s).state.encoder =
      { s.encoder with backend := next, capabilities := B.capabilities next } :=
  Encoder.state_rebind next s.encoder

/-- Turns that are steps perform them. -/
theorem takeAll_map_step (steps : List Step) :
    takeAll (steps.map .step) = performAll (B := B) steps := by
  induction steps with
  | nil => rfl
  | cons step steps ih =>
    rw [List.map_cons, takeAll, ih]
    rfl

end Session

/-! ## Sessions in simulation -/

/-- Related lists have related elements in the same places. -/
theorem rel_getElem? {α β : Type} {V : α → β → Prop} {xs : List α} {ys : List β}
    (h : List.Forall₂ V xs ys) (i : Nat) : Option.Rel V xs[i]? ys[i]? := by
  induction h generalizing i with
  | nil => exact .none
  | cons h _ ih =>
    cases i with
    | zero => exact .some h
    | succ i => exact ih i

theorem exists_rel_of_mem {α β : Type} {V : α → β → Prop} {xs : List α} {ys : List β}
    (h : List.Forall₂ V xs ys) {x : α} (hx : x ∈ xs) : ∃ y ∈ ys, V x y := by
  induction h with
  | nil => cases hx
  | @cons a b xs ys hab _ ih =>
    rcases List.mem_cons.mp hx with rfl | hx
    · exact ⟨b, List.mem_cons_self, hab⟩
    · obtain ⟨y, hy, hxy⟩ := ih hx
      exact ⟨y, List.mem_cons_of_mem b hy, hxy⟩

/-- One operation on positions stands for related operations on related objects. -/
theorem Operation.at?_rel {O P : SolverSort → Type} {V : (s : SolverSort) → O s → P s → Prop}
    {xs : List (Object O)} {ys : List (Object P)} (h : List.Forall₂ (Object.Rel V) xs ys)
    (op : Operation (fun _ => Nat)) : Option.Rel (Operation.Rel V) (op.at? xs) (op.at? ys) := by
  refine (Operation.Rel.refl op).read? ?_ ?_
  · rintro s i _ rfl
    exact rel_bind (rel_getElem? h i) fun _ _ h => h.as? s
  · intro m n hmn
    have hposition : m.position = n.position := by
      cases hmn with
      | integer h => exact h
      | rational h => exact h
    rw [hposition]
    exact rel_bind (rel_getElem? h n.position) fun _ _ h => h.toNumeral?

namespace Simulation

variable {B C : Backend} {R : Simulation B C True} {s : Session B} {t : Session C}

/-- Two sessions over corresponding backends that agree but for their objects. -/
structure Sessions (R : Simulation B C True) (s : Session B) (t : Session C) : Prop where
  /-- The encoders correspond. -/
  encoder : R.Encoders s.encoder t.encoder
  /-- The objects correspond one by one. -/
  held : List.Forall₂ (Object.Rel (R.obj s.encoder.backend t.encoder.backend)) s.held t.held

/-- The same outcome of a step of each of two sessions. -/
def outcomes (R : Simulation B C True) (s : Session B) (t : Session C) :
    Outcome B.Obj → Outcome C.Obj → Prop :=
  SameOutcome (Option.Rel (Object.Rel (R.obj s.encoder.backend t.encoder.backend)))

theorem Sessions.start {b : B.State} {c : C.State} (h : R.state b c) (options : Options) :
    R.Sessions (.start b options) (.start c options) :=
  ⟨⟨h, R.capabilities h, fun _ => trivial, rfl, .nil⟩, .nil⟩

/-- One step does the same in related sessions. -/
theorem inStep_action (h : R.Sessions s t) (step : Step) :
    InStep R.encoders (fun e f => Option.Rel (Object.Rel (R.obj e.backend f.backend)))
      s.encoder t.encoder (step.action s.held) (step.action t.held) := by
  cases step with
  | encode e => exact (inStep_encode h.encoder e).map fun hx => .some (.mk hx)
  | encodeTerm x => exact (inStep_encodeTerm h.encoder x).map fun hn => .some hn.toObject
  | declare v => exact (inStep_declare h.encoder v).map .some
  | setCreateVariables allow =>
    have he := h.encoder
    refine InStep.bind (.modify ⟨he.backend, he.capabilities, he.covered, ?_, he.registry⟩ ?_)
      fun h' _ _ => .pure h' .none
    · exact congrArg (fun o : Options => { o with createVariables := allow }) he.options
    · exact .refl R.encoders s.encoder t.encoder
  -- A step that names an object does nothing on either side if it is not there on one of them.
  | compare c l r =>
    have hl := rel_bind (rel_getElem? h.held l) fun _ _ h => h.toNumeral?
    have hr := rel_bind (rel_getElem? h.held r) fun _ _ h => h.toNumeral?
    unfold Step.action
    dsimp only
    generalize s.held[l]?.bind Object.toNumeral? = m, t.held[l]?.bind Object.toNumeral? = m' at hl
    generalize s.held[r]?.bind Object.toNumeral? = n, t.held[r]?.bind Object.toNumeral? = n' at hr
    cases hl with
    | none => exact .pure h.encoder .none
    | some hl =>
      cases hr with
      | none => exact .pure h.encoder .none
      | some hr => exact (inStep_compareNumerals h.encoder c hl hr).map fun hx => .some (.mk hx)
  | operation op =>
    have hop := Operation.at?_rel h.held op
    unfold Step.action
    dsimp only
    generalize op.at? s.held = x, op.at? t.held = y at hop
    cases hop with
    | none => exact .pure h.encoder .none
    | some hop =>
      exact (inStep_onBackend h.encoder (inStep_build h.encoder.backend trivial hop)).map .some
  | restart options =>
    have hb := h.encoder.backend
    refine InStep.bind (.modify ⟨hb, R.capabilities hb, fun _ => trivial, rfl, .nil⟩ ?_)
      fun h' _ _ => .pure h' .none
    exact .refl R.toCorrespondence s.encoder.backend t.encoder.backend

theorem outcomes.mono {s' : Session B} {t' : Session C}
    (hk : R.Keeps s.encoder.backend t.encoder.backend s'.encoder.backend t'.encoder.backend)
    {x : Outcome B.Obj} {y : Outcome C.Obj} (h : R.outcomes s t x y) : R.outcomes s' t' x y := by
  refine SameOutcome.mono (fun o p hop => ?_) h
  cases hop with
  | some hop => exact .some (hop.mono hk)
  | none => exact .none

/-- One step leads related sessions to related sessions, with related outcomes. -/
theorem sessions_perform (h : R.Sessions s t) (step : Step) :
    R.Sessions (Session.perform step s).state (Session.perform step t).state ∧
      R.Keeps s.encoder.backend t.encoder.backend (Session.perform step s).state.encoder.backend
        (Session.perform step t).state.encoder.backend ∧
      R.outcomes (Session.perform step s).state (Session.perform step t).state
        (Session.perform step s).value (Session.perform step t).value := by
  have hstep := inStep_action h step
  refine ⟨⟨hstep.state, ?_⟩, hstep.keeps, hstep.outcome⟩
  refine List.rel_append (h.held.imp fun _ _ hop => hop.mono hstep.keeps) ?_
  have houtcome := hstep.outcome
  dsimp only [Session.perform]
  generalize ((step.action s.held).run s.encoder).value = x,
    ((step.action t.held).run t.encoder).value = y at houtcome
  cases houtcome with
  | error e => exact .nil
  | ok hop =>
    cases hop with
    | none => exact .nil
    | some hop => exact .cons hop .nil

/-- Sessions over backends in simulation stay in correspondence and have the same outcomes. -/
theorem sessions_performAll (steps : List Step) {s : Session B} {t : Session C}
    (h : R.Sessions s t) :
    R.Sessions (Session.performAll steps s).state (Session.performAll steps t).state ∧
      R.Keeps s.encoder.backend t.encoder.backend
        (Session.performAll steps s).state.encoder.backend
        (Session.performAll steps t).state.encoder.backend ∧
      List.Forall₂
        (R.outcomes (Session.performAll steps s).state (Session.performAll steps t).state)
        (Session.performAll steps s).value (Session.performAll steps t).value := by
  induction steps generalizing s t with
  | nil => exact ⟨h, .refl R.toCorrespondence _ _, .nil⟩
  | cons step steps ih =>
    obtain ⟨hfirst, hk, houtcome⟩ := sessions_perform h step
    obtain ⟨hrest, hk', houtcomes⟩ := ih hfirst
    exact ⟨hrest, hk.trans hk', .cons (houtcome.mono hk') houtcomes⟩

end Simulation

end SmtEncoding
