import SmtEncoding.Encoder.Routine
import SmtEncoding.Proofs.Constants
import SmtEncoding.Proofs.Simulation

/-!
# What the log tells

An encoder reports each node of a formula before it handles it, and each variable that it creates
in the middle of that.  The backend may report what it likes in between (`Backend.Reports`), so a
log is read by the lines that stand among those of the backend (`Among`).

Two inductions carry the account.  On terms, an action reports one line for each variable that it
enters into the registry, in order (`Telling`), and that is a routine (`Telling.routine`).  Formulas
are handled node by node: a `Walk` goes from one `Visit` to the next with nothing but operations of
the backend in between.  An action accounts for nodes if it is a walk over all of them, or up to one
that fails (`Accounts`), and so a formula accounts for its nodes (`Accounts.nodewise`).

`log_narrates_encode` reads the log off the walk.
-/

namespace SmtEncoding

variable {B : Backend} {α β : Type}

/-! ## Lines among others -/

/-- Whether an event is one that the encoding of formulas reports itself. -/
def LogEvent.isOwn : LogEvent → Bool
  | encoding _ => true
  | created _ _ => true
  | _ => false

/-- Some operation of the backend reports the event. -/
def Backend.Reports (B : Backend) (event : LogEvent) : Prop :=
  ∃ (op : Operation B.Obj) (s : B.State), event ∈ ((B.build op).run s).log

/-- The lines stand in a log, in order, and what else is in it has the property. -/
inductive Among (P : LogEvent → Prop) : List LogEvent → List LogEvent → Prop where
  | nil : Among P [] []
  /-- The next event of the log is the next line. -/
  | line (event : LogEvent) {lines log : List LogEvent} :
    Among P lines log → Among P (event :: lines) (event :: log)
  /-- The next event of the log is none of the lines. -/
  | other {event : LogEvent} {lines log : List LogEvent} :
    P event → Among P lines log → Among P lines (event :: log)

namespace Among

variable {P : LogEvent → Prop} {lines more log rest : List LogEvent}

/-- Logs one after the other show the lines of the first, then those of the second. -/
theorem append (h : Among P lines log) (hrest : Among P more rest) :
    Among P (lines ++ more) (log ++ rest) := by
  induction h with
  | nil => exact hrest
  | line event _ ih => exact .line event ih
  | other hevent _ ih => exact .other hevent ih

theorem of_forall (h : ∀ event ∈ log, P event) : Among P [] log := by
  induction log with
  | nil => exact .nil
  | cons event log ih =>
    obtain ⟨hevent, hlog⟩ := List.forall_mem_cons.mp h
    exact .other hevent (ih hlog)

/-- The lines are what a filter leaves that all of them pass and nothing else does. -/
theorem filter_eq {p : LogEvent → Bool} (h : Among P lines log)
    (hother : ∀ event, P event → p event = false) (hlines : ∀ event ∈ lines, p event = true) :
    log.filter p = lines := by
  induction h with
  | nil => rfl
  | line event _ ih =>
    obtain ⟨hevent, hrest⟩ := List.forall_mem_cons.mp hlines
    rw [List.filter_cons_of_pos hevent, ih hrest]
  | other hevent _ ih => rw [List.filter_cons_of_neg (by rw [hother _ hevent]; nofun), ih hlines]

end Among

/-! ## Variables that are told -/

/-- The line for an entry of the registry. -/
def createdLine {O : SolverSort → Type} (p : Variable × Object O) : LogEvent :=
  .created p.1 p.2.sort

/-- Of the lines that it reports itself, an action reports one for each entry that it adds to the
registry, in the order of the entries. -/
def Telling (f : Action (Encoder B) α) : Prop :=
  ∀ e : Encoder B, ∃ entered,
    (f.run e).state.registry.entries = e.registry.entries ++ entered ∧
      Among B.Reports (entered.map createdLine) (f.run e).log

/-- What a creation reports is what the operation of the backend reports. -/
theorem reports_of_mem_createVariable {name : String} {sort : SolverSort} {s : B.State}
    {event : LogEvent} (h : event ∈ ((B.createVariable name sort).run s).log) :
    B.Reports event := by
  cases sort with
  | bool => exact ⟨.core (.boolVar name), s, by rwa [Backend.build, Action.run_map]⟩
  | int => exact ⟨.core (.intVar name), s, by rwa [Backend.build, Action.run_map]⟩
  | real => exact ⟨.rational (.var name), s, by rwa [Backend.build, Action.run_map]⟩

theorem Telling.ofExcept (result : Except EncodeError α) :
    Telling (B := B) (Action.ofExcept result) :=
  fun _ => ⟨[], (List.append_nil _).symm, .nil⟩

theorem Telling.onBackend {f : Action B.State α}
    (h : ∀ (s : B.State), ∀ event ∈ (f.run s).log, B.Reports event) :
    Telling (Encoder.onBackend f) :=
  fun e => ⟨[], (List.append_nil _).symm, .of_forall (h e.backend)⟩

/-- Actions one after the other tell what the first one enters, then what the second one does. -/
theorem Telling.bind {f : Action (Encoder B) α} {k : α → Action (Encoder B) β} (hf : Telling f)
    (hk : ∀ a, Telling (k a)) : Telling (f >>= k) := by
  intro e
  obtain ⟨entered, hentries, hlog⟩ := hf e
  cases hvalue : (f.run e).value with
  | ok a =>
    obtain ⟨more, hmore, hrest⟩ := hk a (f.run e).state
    rw [Action.run_bind_of_ok hvalue]
    refine ⟨entered ++ more, by rw [hmore, hentries, List.append_assoc], ?_⟩
    rw [List.map_append]
    exact hlog.append hrest
  | error err =>
    rw [Action.run_bind_of_error hvalue]
    exact ⟨entered, hentries, hlog⟩

theorem Telling.map {φ : α → β} {f : Action (Encoder B) α} (hf : Telling f) :
    Telling (φ <$> f) := by
  rw [map_eq_pure_bind]
  exact hf.bind fun a => .ofExcept (.ok (φ a))

theorem Telling.get_bind {k : Encoder B → Action (Encoder B) α} (h : ∀ e, Telling (k e)) :
    Telling (get >>= k) := by
  intro e
  rw [Action.run_get_bind]
  exact h e e

/-- A variable is told after it is created, behind what the backend reports of the creation. -/
theorem Telling.resolve (allow : Bool) (sort : SolverSort) (v : Variable) :
    Telling (Encoder.resolve (B := B) allow sort v) := by
  intro e
  cases hget : e.registry.get? v with
  | some found =>
    rw [Encoder.run_resolve_registered hget]
    exact ⟨[], (List.append_nil _).symm, .nil⟩
  | none =>
    cases allow with
    | false =>
      rw [Encoder.run_resolve_refused hget]
      exact ⟨[], (List.append_nil _).symm, .nil⟩
    | true =>
      have hreports : Among B.Reports [] ((B.createVariable v.name sort).run e.backend).log :=
        .of_forall fun event => reports_of_mem_createVariable
      cases hx : ((B.createVariable v.name sort).run e.backend).value with
      | ok x =>
        rw [Encoder.run_resolve_created hget hx]
        exact ⟨[(v, ⟨sort, x⟩)], rfl, hreports.append (.line _ .nil)⟩
      | error err =>
        rw [Encoder.run_resolve_failed hget hx]
        exact ⟨[], (List.append_nil _).symm, hreports⟩

/-- Actions on terms report nothing but the variables that they create. -/
theorem Telling.routine : Routine (B := B) Encoder.lookUp fun _ _ f => Telling f where
  pure a := .ofExcept (.ok a)
  raise _ := .ofExcept (.error _)
  bind := Telling.bind
  check _ := .get_bind fun _ => .ofExcept _
  core op _ := .onBackend fun s event h => ⟨.core op, s, by rwa [Backend.build, Action.run_map]⟩
  rational op _ _ hf := by
    refine .get_bind fun e => ?_
    split
    · exact .onBackend fun s event h => ⟨.rational op, s, by rwa [Backend.build, Action.run_map]⟩
    · exact hf
  lookUp v _ := .get_bind fun e => .resolve _ _ v
  lookUpReal v := by
    rw [Encoder.requireRationals_bind]
    refine .get_bind fun e => ?_
    split
    · exact .get_bind fun _ => .resolve _ _ v
    · exact .ofExcept (.error _)

/-! ## Nodes -/

namespace Expr

/-- What a node does before its operands are encoded, and all that it does if it has none.  Its
object is left out. -/
def handle (x : Expr) : Action (Encoder B) Unit :=
  match x with
  | constant value => (fun _ => ()) <$> Encoder.core (.boolConstant value)
  | literal v positive => (fun _ => ()) <$> Encoder.encodeLiteral v positive
  | compare c l r => (fun _ => ()) <$> Encoder.encodeComparison c l r
  | x => if x.isRefused then throw (.unsupportedNode x.kind) else pure ()

/-- What a node does reports nothing but the variables that it creates. -/
theorem handle_telling (x : Expr) : Telling (B := B) x.handle := by
  have h := Telling.routine (B := B)
  cases x with
  | constant value => exact .map (h.core _ rfl)
  | literal v positive => exact .map (h.encodeLiteral v positive)
  | compare c l r => exact .map (h.encodeComparison c l r)
  -- Any other node does nothing by itself, or it fails at once.
  | _ => exact fun e => ⟨[], (List.append_nil _).symm, .nil⟩

theorem handle_of_isConnective {x : Expr} (h : x.isConnective = true) :
    x.handle (B := B) = pure () := by
  cases x <;> first | rfl | cases h

theorem handle_of_isRefused {x : Expr} (h : x.isRefused = true) :
    x.handle (B := B) = throw (.unsupportedNode x.kind) := by
  cases x <;> first | rfl | cases h

end Expr

/-! ## Visits -/

/-- A node that is handled, and the encoder that handles it. -/
structure Visit (B : Backend) where
  /-- The node, as the formula below it. -/
  node : Expr
  /-- The encoder when the node is reported. -/
  start : Encoder B

namespace Visit

/-- What handling the node leaves. -/
def reply (v : Visit B) : Reply (Encoder B) (Except EncodeError Unit) := v.node.handle.run v.start

/-- The entries that handling the node adds to the registry. -/
def entered (v : Visit B) : List (Variable × Object B.Obj) :=
  v.reply.state.registry.entries.drop v.start.registry.size

/-- The line of the node, then those of the variables that handling it creates. -/
def lines (v : Visit B) : List LogEvent := .encoding v.node.kind :: v.entered.map createdLine

/-- Handling a node adds entries at the end, and its log shows a line for each of them. -/
theorem entries_reply (v : Visit B) :
    v.reply.state.registry.entries = v.start.registry.entries ++ v.entered ∧
      Among B.Reports (v.entered.map createdLine) v.reply.log := by
  obtain ⟨entered, hentries, hlog⟩ := v.node.handle_telling v.start
  have hentered : v.entered = entered := by
    rw [Visit.entered, Visit.reply, hentries]
    exact List.drop_left
  rw [hentered]
  exact ⟨hentries, hlog⟩

end Visit

/-- From one encoder to another, nodes are handled one after another, with core operations of the
backend before, between and after them.  The list of events is all that is reported. -/
inductive Walk : Encoder B → List (Visit B) → List LogEvent → Encoder B → Prop where
  | done (e : Encoder B) : Walk e [] [] e
  /-- An operation of the backend. -/
  | build {e f : Encoder B} {s : SolverSort} (op : CoreOp B.Obj s) {visits : List (Visit B)}
      {log : List LogEvent} :
    Walk { e with backend := (B.core op e.backend).state } visits log f →
    Walk e visits ((B.core op e.backend).log ++ log) f
  /-- A node is reported and handled. -/
  | visit {f : Encoder B} (v : Visit B) {visits : List (Visit B)} {log : List LogEvent} :
    Walk v.reply.state visits log f →
    Walk v.start (v :: visits) (.encoding v.node.kind :: (v.reply.log ++ log)) f

namespace Walk

variable {e f g : Encoder B} {visits more : List (Visit B)} {log rest : List LogEvent}

theorem append (h : Walk e visits log f) (hrest : Walk f more rest g) :
    Walk e (visits ++ more) (log ++ rest) g := by
  induction h with
  | done _ => exact hrest
  | build op _ ih =>
    rw [List.append_assoc]
    exact .build op (ih hrest)
  | visit v _ ih =>
    rw [List.cons_append, List.cons_append, List.append_assoc]
    exact .visit v (ih hrest)

/-- The registry grows by what the nodes add. -/
theorem entries (h : Walk e visits log f) :
    f.registry.entries = e.registry.entries ++ visits.flatMap Visit.entered := by
  induction h with
  | done e => exact (List.append_nil _).symm
  | build op _ ih => exact ih
  | visit v _ ih => rw [ih, v.entries_reply.1, List.append_assoc, List.flatMap_cons]

/-- The lines of the nodes stand in the log. -/
theorem among (h : Walk e visits log f) :
    Among B.Reports (visits.flatMap Visit.lines) log := by
  induction h with
  | done e => exact .nil
  | @build e _ _ op _ _ _ ih =>
    have hop : Among B.Reports [] (B.core op e.backend).log :=
      .of_forall fun event hevent =>
        ⟨.core op, e.backend, by rwa [Backend.build, Action.run_map, Action.run_lift]⟩
    exact hop.append ih
  | visit v _ ih => exact .line _ (v.entries_reply.2.append ih)

end Walk

/-! ## Accounts -/

/-- What an action that handles nodes does to an encoder. -/
structure Account (nodes : List Expr) (e : Encoder B) (visits : List (Visit B))
    (reply : Reply (Encoder B) (Except EncodeError α)) : Prop where
  walk : Walk e visits reply.log reply.state
  /-- Without an error, all nodes are handled, each without an error. -/
  ok : ∀ a, reply.value = .ok a →
    visits.map Visit.node = nodes ∧ ∀ v ∈ visits, v.reply.value = .ok ()
  /-- An error is that of the last node that is handled, and those before it are without one. -/
  error : ∀ err, reply.value = .error err → ∃ earlier last, visits = earlier ++ [last] ∧
    visits.map Visit.node <+: nodes ∧ (∀ v ∈ earlier, v.reply.value = .ok ()) ∧
    last.reply.value = .error err

/-- An action handles the first few of the nodes. -/
def Accounts (nodes : List Expr) (f : Action (Encoder B) α) : Prop :=
  ∀ e : Encoder B, ∃ visits, Account nodes e visits (f.run e)

namespace Accounts

variable {nodes more : List Expr} {f : Action (Encoder B) α}

theorem pure (a : α) : Accounts (B := B) [] (pure a) :=
  fun e => ⟨[], .done e, fun _ _ => ⟨rfl, nofun⟩, nofun⟩

/-- Nodes are accounted for one action after the other, up to the one that fails. -/
theorem bind {k : α → Action (Encoder B) β} (h : Accounts nodes f)
    (hk : ∀ a, Accounts more (k a)) : Accounts (nodes ++ more) (f >>= k) := by
  intro e
  obtain ⟨visits, hwalk, hok, herror⟩ := h e
  cases hvalue : (f.run e).value with
  | ok a =>
    obtain ⟨hnodes, hall⟩ := hok a hvalue
    obtain ⟨later, hlater, hok', herror'⟩ := hk a (f.run e).state
    rw [Action.run_bind_of_ok hvalue]
    refine ⟨visits ++ later, hwalk.append hlater, ?_, ?_⟩
    · intro b hb
      obtain ⟨hmore, hrest⟩ := hok' b hb
      rw [List.map_append, hnodes, hmore]
      exact ⟨rfl, List.forall_mem_append.mpr ⟨hall, hrest⟩⟩
    · intro err herr
      obtain ⟨earlier, last, rfl, hprefix, hearlier, hlast⟩ := herror' err herr
      refine ⟨visits ++ earlier, last, (List.append_assoc ..).symm, ?_,
        List.forall_mem_append.mpr ⟨hall, hearlier⟩, hlast⟩
      rw [List.map_append, hnodes]
      exact (List.prefix_append_right_inj nodes).mpr hprefix
  | error err =>
    obtain ⟨earlier, last, hvisits, hprefix, hearlier, hlast⟩ := herror err hvalue
    rw [Action.run_bind_of_error hvalue]
    refine ⟨visits, hwalk, nofun, ?_⟩
    rintro _ ⟨⟩
    exact ⟨earlier, last, hvisits, hprefix.trans (List.prefix_append nodes more), hearlier, hlast⟩

theorem core {s : SolverSort} (op : CoreOp B.Obj s) : Accounts [] (Encoder.core op) := by
  intro e
  have hrun : (Encoder.core op).run e = ⟨.ok (B.core op e.backend).value,
      { e with backend := (B.core op e.backend).state }, (B.core op e.backend).log ++ []⟩ := by
    rw [Encoder.core, Encoder.onBackend, Action.run_zoom, Action.run_lift, List.append_nil]
  rw [hrun]
  exact ⟨[], .build op (.done _), fun _ _ => ⟨rfl, nofun⟩, nofun⟩

/-- The walk over one node. -/
theorem walk_singleton (v : Visit B) :
    Walk v.start [v] (.encoding v.node.kind :: v.reply.log) v.reply.state := by
  have h := Walk.visit v (.done v.reply.state)
  rwa [List.append_nil] at h

/-- A node that is handled as a whole. -/
theorem leaf {x : Expr} {f : Action (Encoder B) α} (hx : x.handle = (fun _ => ()) <$> f) :
    Accounts [x] (Encoder.visit x.kind f) := by
  intro e
  let v : Visit B := ⟨x, e⟩
  have hreply : v.reply = ⟨(f.run e).value.map fun _ => (), (f.run e).state, (f.run e).log⟩ := by
    rw [Visit.reply, hx, Action.run_map]
  refine ⟨[v], ?_, ?_, ?_⟩
  · have h := walk_singleton v
    rw [hreply] at h
    rwa [Encoder.visit, Action.run_note_bind]
  · intro a ha
    rw [Encoder.visit, Action.run_note_bind] at ha
    rw [List.forall_mem_singleton, hreply, ha]
    exact ⟨rfl, rfl⟩
  · intro err herr
    rw [Encoder.visit, Action.run_note_bind] at herr
    refine ⟨[], v, rfl, List.prefix_rfl, nofun, ?_⟩
    rw [hreply, herr]
    rfl

/-- A node that is refused, whatever would come after it. -/
theorem refused {x : Expr} (hx : x.isRefused = true) :
    Accounts (x :: nodes) (Encoder.refuse (B := B) x.kind) := by
  intro e
  let v : Visit B := ⟨x, e⟩
  have hreply : v.reply = ⟨.error (.unsupportedNode x.kind), e, []⟩ := by
    rw [Visit.reply, x.handle_of_isRefused hx, Action.run_throw]
  have h := walk_singleton v
  rw [hreply] at h
  rw [Encoder.refuse, Encoder.visit, Action.run_note_bind, Action.run_throw]
  refine ⟨[v], h, nofun, ?_⟩
  rintro _ ⟨⟩
  exact ⟨[], v, rfl, List.prefix_append [x] nodes, nofun, by rw [hreply]⟩

/-- A node, and then its operands. -/
theorem inner {x : Expr} (hx : x.handle (B := B) = Pure.pure ()) {f : Action (Encoder B) α}
    (h : Accounts nodes f) : Accounts (x :: nodes) (Encoder.visit x.kind f) := by
  intro e
  let v : Visit B := ⟨x, e⟩
  have hreply : v.reply = ⟨.ok (), e, []⟩ := by rw [Visit.reply, hx, Action.run_pure]
  obtain ⟨visits, hwalk, hok, herror⟩ := h e
  rw [Encoder.visit, Action.run_note_bind]
  refine ⟨v :: visits, ?_, ?_, ?_⟩
  · have h := walk_singleton v
    rw [hreply] at h
    exact h.append hwalk
  · intro a ha
    obtain ⟨hnodes, hall⟩ := hok a ha
    rw [List.map_cons, hnodes]
    exact ⟨rfl, List.forall_mem_cons.mpr ⟨by rw [hreply], hall⟩⟩
  · intro err herr
    obtain ⟨earlier, last, rfl, hprefix, hearlier, hlast⟩ := herror err herr
    exact ⟨v :: earlier, last, rfl, List.cons_prefix_cons.mpr ⟨rfl, hprefix⟩,
      List.forall_mem_cons.mpr ⟨by rw [hreply], hearlier⟩, hlast⟩

/-- Formulas are handled node by node. -/
theorem nodewise : Nodewise (B := B) fun nodes _ f => Accounts nodes f where
  pure := pure
  bind := bind
  core op _ := core op
  constant value := leaf (x := .constant value) rfl
  literal v positive := leaf (x := .literal v positive) rfl
  compare c l r := leaf (x := .compare c l r) rfl
  connective hx hf := inner (Expr.handle_of_isConnective hx) hf
  refuse hx := refused hx

/-- A formula accounts for its nodes in the order in which they are met from the outside in. -/
theorem encode (x : Expr) : Accounts x.nodes (Encoder.encode (B := B) x) := nodewise.encode x

end Accounts

/-! ## What is reported -/

/-- Only literals and comparisons add variables. -/
theorem Visit.kind_of_entered {v : Visit B} (h : v.entered ≠ []) :
    v.node.kind = .literal ∨ ∃ c, v.node.kind = .comparison c := by
  obtain ⟨x, e⟩ := v
  -- Any other node leaves the registry as it is.
  have hsame (hregistry : (x.handle.run e).state.registry = e.registry) : False := by
    refine h ?_
    rw [Visit.entered, Visit.reply, hregistry]
    exact List.drop_length
  cases x with
  | literal w positive => exact .inl rfl
  | compare c l r => exact .inr ⟨c, rfl⟩
  | constant value =>
    refine (hsame ?_).elim
    show (Action.run ((fun _ => ()) <$> Encoder.core _) e).state.registry = e.registry
    rw [Action.run_map]
    rfl
  | _ => exact (hsame rfl).elim

theorem Visit.isOwn_of_mem_lines {v : Visit B} {event : LogEvent} (h : event ∈ v.lines) :
    event.isOwn = true := by
  rcases List.mem_cons.mp h with rfl | hentered
  · rfl
  · obtain ⟨p, _, rfl⟩ := List.mem_map.mp hentered
    rfl

/-- A node that is handled without an error has an encoding. -/
theorem Visit.isRefused_of_ok {v : Visit B} (h : v.reply.value = .ok ()) :
    v.node.isRefused = false := by
  by_contra hrefused
  rw [Bool.not_eq_false] at hrefused
  rw [Visit.reply, v.node.handle_of_isRefused hrefused, Action.run_throw] at h
  cases h

/-- In whatever state an encoder is, and on whatever backend: what is reported while a formula is
encoded is told by a walk over its nodes in preorder, all of them if the formula is encoded, and
otherwise the first few, up to the one that raises the error, with none below a node that is
refused.  Each node has its line, and behind it those of the variables that handling it adds to the
registry.  Nothing else is reported, but by the backend. -/
theorem log_narrates_encode (e : Encoder B) (x : Expr) :
    let reply := (Encoder.encode x).run e
    ∃ visits : List (Visit B),
      Walk e visits reply.log reply.state ∧
      Among B.Reports (visits.flatMap Visit.lines) reply.log ∧
      ((∀ event, B.Reports event → event.isOwn = false) →
        reply.log.filter LogEvent.isOwn = visits.flatMap Visit.lines) ∧
      reply.state.registry.entries = e.registry.entries ++ visits.flatMap Visit.entered ∧
      (∀ v ∈ visits, v.entered ≠ [] → v.node.kind = .literal ∨ ∃ c, v.node.kind = .comparison c) ∧
      (∀ a, reply.value = .ok a →
        visits.map Visit.node = x.nodes ∧ ∀ v ∈ visits, v.reply.value = .ok ()) ∧
      ∀ err, reply.value = .error err → ∃ earlier last, visits = earlier ++ [last] ∧
        visits.map Visit.node <+: x.nodes ∧
        (∀ v ∈ earlier, v.reply.value = .ok () ∧ v.node.isRefused = false) ∧
        last.reply.value = .error err := by
  intro reply
  obtain ⟨visits, hwalk, hok, herror⟩ := Accounts.encode x e
  refine ⟨visits, hwalk, hwalk.among, fun hother => hwalk.among.filter_eq hother ?_, hwalk.entries,
    fun v _ => v.kind_of_entered, hok, ?_⟩
  · intro event hevent
    obtain ⟨v, _, hline⟩ := List.mem_flatMap.mp hevent
    exact v.isOwn_of_mem_lines hline
  · intro err herr
    obtain ⟨earlier, last, hvisits, hprefix, hearlier, hlast⟩ := herror err herr
    exact ⟨earlier, last, hvisits, hprefix,
      fun v hv => ⟨hearlier v hv, v.isRefused_of_ok (hearlier v hv)⟩, hlast⟩

/-! ## The SMT-LIB backend -/

namespace SmtLib

theorem log_fold (operator neutral : String) (xs : List Node) (s : State) :
    (fold operator neutral xs s).log = [] := by
  match xs with
  | [] => rfl
  | [_] => rfl
  | _ :: _ :: _ => rfl

theorem log_foldReal (operator neutral : String) (ns : List (Numeral Obj)) (s : State) :
    (foldReal operator neutral ns s).log = [] := by
  match ns with
  | [] => rfl
  | [.integer _] => rfl
  | [.rational _] => rfl
  | m :: n :: ns =>
    rw [foldReal_cons_cons]
    rfl

/-- An operation reports the declaration of a constant, or nothing. -/
theorem log_build (op : Operation Obj) (s : State) :
    (build op s).log = [] ∨ ∃ symbol sort, (build op s).log = [.declaring symbol sort] := by
  have hconstant (name : String) (sort : SolverSort) : (constant name sort s).log = [] ∨
      ∃ symbol sort', (constant name sort s).log = [.declaring symbol sort'] := by
    rcases constant_cases name sort s with ⟨d, _, _, hc⟩ | ⟨_, hc⟩
    · rw [hc]
      exact .inl rfl
    · rw [hc]
      exact .inr ⟨_, _, rfl⟩
  cases op with
  | core op =>
    cases op with
    | boolVar name => exact hconstant name .bool
    | intVar name => exact hconstant name .int
    | boolConstant value => cases value <;> exact .inl rfl
    | and xs => exact .inl (log_fold _ _ xs s)
    | or xs => exact .inl (log_fold _ _ xs s)
    | intAdd xs => exact .inl (log_fold _ _ xs s)
    | intMultiply xs => exact .inl (log_fold _ _ xs s)
    | not x => exact .inl rfl
    | implies x y => exact .inl rfl
    | iff x y => exact .inl rfl
    | intConstant value => exact .inl rfl
    | intCompare c x y => exact .inl rfl
  | rational op =>
    cases op with
    | var name => exact hconstant name .real
    | add ns => exact .inl (log_foldReal _ _ ns s)
    | multiply ns => exact .inl (log_foldReal _ _ ns s)
    | constant value => exact .inl rfl
    | compare c m n => exact .inl rfl

/-- The backend reports declarations only. -/
theorem isOwn_of_reports {event : LogEvent} (h : backend.Reports event) : event.isOwn = false := by
  obtain ⟨op, s, hevent⟩ := h
  have hlog : ((backend.build op).run s).log = (build op s).log := by
    cases op with
    | core op =>
      rw [Backend.build, Action.run_map, Action.run_lift]
      rfl
    | rational op =>
      rw [Backend.build, Action.run_map, Action.run_lift]
      rfl
  rw [hlog] at hevent
  rcases log_build op s with hnone | ⟨symbol, sort, hone⟩
  · rw [hnone] at hevent
    cases hevent
  · rw [hone, List.mem_singleton] at hevent
    rw [hevent]
    rfl

end SmtLib

/-- A comparison and a counting connective between literals. -/
def countedLiterals : Expr :=
  .and [.literal ⟨"b", .bool⟩ true,
    .compare .equals (.var ⟨"n", .integer⟩) (.var ⟨"m", .integer⟩),
    .not (.atLeast 1 [.literal ⟨"c", .bool⟩ true]),
    .literal ⟨"b", .bool⟩ false]

/-- The counting connective is refused, and its operand and the last literal are not reached. -/
theorem log_narrates_encode_refused :
    let reply := (Encoder.encode countedLiterals).run (.new (B := SmtLib.backend) (.empty {}))
    let error : EncodeError := .unsupportedNode .atLeast
    let lines : List LogEvent := [.encoding .and, .encoding .literal, .created ⟨"b", .bool⟩ .bool,
      .encoding (.comparison .equals), .created ⟨"n", .integer⟩ .int, .created ⟨"m", .integer⟩ .int,
      .encoding .not, .encoding .atLeast]
    reply.value = .error error ∧
    reply.log.filter LogEvent.isOwn = lines ∧
    lines.map LogEvent.text = ["translating And node", "translating Literal node",
      "created backend variable for b: Bool as Bool", "translating Equals node",
      "created backend variable for n: Integer as Int",
      "created backend variable for m: Integer as Int", "translating Not node",
      "translating AtLeast node"] ∧
    ∃ visits : List (Visit SmtLib.backend), visits.flatMap Visit.lines = lines ∧
      visits.map Visit.node <+: countedLiterals.nodes ∧
      ∃ earlier last, visits = earlier ++ [last] ∧ last.reply.value = .error error := by
  intro reply error lines
  have hvalue : reply.value = .error error := rfl
  have hlines : reply.log.filter LogEvent.isOwn = lines := by decide +kernel
  obtain ⟨visits, _, _, hfilter, _, _, _, herror⟩ :=
    log_narrates_encode (.new (B := SmtLib.backend) (.empty {})) countedLiterals
  obtain ⟨earlier, last, hvisits, hprefix, _, hlast⟩ := herror error hvalue
  have hown := hfilter fun event => SmtLib.isOwn_of_reports
  exact ⟨hvalue, hlines, by decide +kernel, visits, hown.symm.trans hlines, hprefix, earlier, last,
    hvisits, hlast⟩

end SmtEncoding
