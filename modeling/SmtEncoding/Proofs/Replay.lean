import SmtEncoding.Proofs.Constants
import SmtEncoding.Proofs.Session
import SmtEncoding.Recording.Backend

/-!
# Replaying a record

A record is replayed on an SMT-LIB backend by carrying out its operations one after another.  A
handle stands for what the operation at that position built.

Two states are alike if they have declared the same constants under the same symbols, whatever the
numbers of the nodes.  From such states the same operation on operands of the same structure builds
nodes of the same structure (`Alike.build`).  So recording is in simulation with building: at any
time the record replays to a state that is like the one that was reached, and each handle to a node
like the one that was built (`recording`).  Whole sessions follow (`recording_replays`).
-/

namespace SmtEncoding.SmtLib

/-! ## States that are alike -/

/-- What a script shows of a declaration, with the name that was asked for. -/
def Declaration.shape (d : Declaration) : String × SolverSort × String := (d.name, d.sort, d.symbol)

/-- The same constants are declared under the same symbols. -/
def Alike (s t : State) : Prop :=
  s.declarations.map Declaration.shape = t.declarations.map Declaration.shape

/-- Operations that are the same but for the identity of their operands. -/
abbrev SameStructure : Operation Obj → Operation Obj → Prop :=
  Operation.Rel fun _ x y => x.expr = y.expr

/-- What building answered with in two states that are alike afterwards. -/
def Matching (x y : Reply State Node) : Prop := x.value.expr = y.value.expr ∧ Alike x.state y.state

namespace Alike

variable {s t : State}

/-- Alike states have constants of the same names and sorts, with the same shapes. -/
theorem find? (h : Alike s t) (name : String) (sort : SolverSort) :
    (s.find? name sort).map Declaration.shape = (t.find? name sort).map Declaration.shape := by
  have hfind : ∀ s : State, (s.find? name sort).map Declaration.shape =
      (s.declarations.map Declaration.shape).find? fun p => p.1 == name && p.2.1 == sort := by
    intro s
    rw [List.find?_map]
    rfl
  rw [hfind, hfind, h]

theorem bodies (h : Alike s t) : s.bodies = t.bodies := by
  have hbodies : ∀ s : State,
      s.bodies = (s.declarations.map Declaration.shape).map fun p => body p.2.2 := by
    intro s
    rw [List.map_map]
    rfl
  rw [hbodies, hbodies, h]

theorem fresh (h : Alike s t) {x y : SExpr} (hxy : x = y) :
    Matching (fresh x s) (fresh y t) :=
  ⟨hxy, h⟩

/-- Alike states answer a request for a constant alike, by the one that is there or by a new one
with the same symbol. -/
theorem constant (h : Alike s t) (name : String) (sort : SolverSort) :
    Matching (constant name sort s) (constant name sort t) := by
  have hfind := h.find? name sort
  unfold SmtLib.constant
  cases hs : s.find? name sort with
  | none =>
    cases ht : t.find? name sort with
    | none =>
      have hsymbol : freeSymbol s.bodies name sort = freeSymbol t.bodies name sort := by
        rw [h.bodies]
      refine ⟨congrArg SExpr.atom hsymbol, ?_⟩
      show List.map _ (_ ++ _) = List.map _ (_ ++ _)
      rw [List.map_append, List.map_append, h, h.bodies]
      rfl
    | some e =>
      rw [hs, ht] at hfind
      cases hfind
  | some d =>
    cases ht : t.find? name sort with
    | none =>
      rw [hs, ht] at hfind
      cases hfind
    | some e =>
      rw [hs, ht] at hfind
      have hsymbol : d.symbol = e.symbol := congrArg (fun p => p.2.2) (Option.some.inj hfind)
      exact ⟨congrArg SExpr.atom hsymbol, h⟩

/-! ### Operators -/

theorem map_expr_eq {xs ys : List Node} (h : List.Forall₂ (fun x y => x.expr = y.expr) xs ys) :
    xs.map Node.expr = ys.map Node.expr := by
  induction h with
  | nil => rfl
  | cons hx _ ih => rw [List.map_cons, List.map_cons, hx, ih]

theorem asReal_eq {m n : Numeral Obj} (h : Numeral.Rel (fun _ x y => x.expr = y.expr) m n) :
    asReal m = asReal n := by
  cases h with
  | integer h => rw [asReal, asReal, h]
  | rational h => exact h

theorem map_asReal_eq {ms ns : List (Numeral Obj)}
    (h : List.Forall₂ (Numeral.Rel fun _ x y => x.expr = y.expr) ms ns) :
    ms.map asReal = ns.map asReal := by
  induction h with
  | nil => rfl
  | cons hm _ ih => rw [List.map_cons, List.map_cons, asReal_eq hm, ih]

theorem fold (h : Alike s t) (operator neutral : String) {xs ys : List Node}
    (hs : List.Forall₂ (fun x y => x.expr = y.expr) xs ys) :
    Matching (fold operator neutral xs s) (fold operator neutral ys t) := by
  refine ⟨by rw [expr_fold, expr_fold, map_expr_eq hs], ?_⟩
  rcases state_fold operator neutral s xs with hx | hx <;>
    rcases state_fold operator neutral t ys with hy | hy <;>
      (rw [hx, hy]; exact h)

/-- Operands with the same expressions are joined alike as reals. -/
theorem foldReal (h : Alike s t) (operator neutral : String) {ms ns : List (Numeral Obj)}
    (hs : List.Forall₂ (Numeral.Rel fun _ x y => x.expr = y.expr) ms ns) :
    Matching (foldReal operator neutral ms s) (foldReal operator neutral ns t) := by
  refine ⟨by rw [expr_foldReal, expr_foldReal, map_asReal_eq hs], ?_⟩
  rcases state_foldReal operator neutral s ms with hx | hx <;>
    rcases state_foldReal operator neutral t ns with hy | hy <;>
      (rw [hx, hy]; exact h)

/-- The same operation on operands of the same structure builds the same structure. -/
theorem build (h : Alike s t) {op op' : Operation Obj} (hop : SameStructure op op') :
    Matching (build op s) (build op' t) := by
  cases hop with
  | core hop =>
    cases hop with
    | boolConstant value => cases value <;> exact ⟨rfl, h⟩
    | boolVar name => exact h.constant name .bool
    | not hx => exact h.fresh (by rw [hx])
    | and hs => exact h.fold "and" "true" hs
    | or hs => exact h.fold "or" "false" hs
    | implies hx hy => exact h.fresh (by rw [hx, hy])
    | iff hx hy => exact h.fresh (by rw [hx, hy])
    | intConstant n => exact ⟨rfl, h⟩
    | intVar name => exact h.constant name .int
    | intAdd hs => exact h.fold "+" "0" hs
    | intMultiply hs => exact h.fold "*" "1" hs
    | intCompare c hx hy => exact h.fresh (by rw [hx, hy])
  | rational hop =>
    cases hop with
    | constant q => exact ⟨rfl, h⟩
    | var name => exact h.constant name .real
    | add hs => exact h.foldReal "+" "0.0" hs
    | multiply hs => exact h.foldReal "*" "1.0" hs
    | compare c hm hn => exact h.fresh (by rw [asReal_eq hm, asReal_eq hn])

end Alike

/-! ## Replaying -/

/-- Carries out a recorded operation on the objects built so far, and adds the one it builds. -/
def replayEntry (p : List (Object Obj) × State) (entry : Recording.Entry) :
    Option (List (Object Obj) × State) :=
  (entry.at? p.1).map fun op =>
    (p.1 ++ [⟨op.sort, (build op p.2).value⟩], (build op p.2).state)

/-- Carries out recorded operations in order.  Answers with the objects that they build, by
position, and the state that is reached. -/
def replay (entries : List Recording.Entry) (s : State) : Option (List (Object Obj) × State) :=
  entries.foldlM replayEntry ([], s)

/-- An entry at the end of a record is replayed after all others, on the objects that these have
built. -/
theorem replay_concat {entries : List Recording.Entry} {s t : State} {objects : List (Object Obj)}
    (h : replay entries s = some (objects, t)) {entry : Recording.Entry} {op : Operation Obj}
    (hop : entry.at? objects = some op) :
    replay (entries ++ [entry]) s =
      some (objects ++ [⟨op.sort, (build op t).value⟩], (build op t).state) := by
  rw [replay, List.foldlM_append]
  show (replay entries s).bind _ = _
  rw [h]
  show (replayEntry (objects, t) entry).bind some = _
  rw [replayEntry, hop]
  rfl

/-- The record replays to a state that is like the one that was reached. -/
def Replays (fresh : State) (r : Recording.State) (s : State) : Prop :=
  r.capabilities = s.capabilities ∧ ∃ objects t, replay r.entries fresh = some (objects, t) ∧
    objects.length = r.entries.length ∧ Alike t s

/-- The handle replays to a node like the one that was built. -/
def Shows (objects : List (Object Obj)) (sort : SolverSort) (h : Nat) (x : Node) : Prop :=
  ∃ y : Node, objects[h]? = some ⟨sort, y⟩ ∧ y.expr = x.expr

/-- The correspondence of recording and building, by replay from a given state. -/
def replaying (fresh : State) : Correspondence Recording.State State Recording.Handle Obj where
  state := Replays fresh
  obj r _ sort h x := ∃ objects t, replay r.entries fresh = some (objects, t) ∧
    Shows objects sort h x

variable {r : Recording.State} {s fresh : State}

/-- An object that is built later does not change what a handle stands for. -/
theorem Shows.append {objects : List (Object Obj)} {sort : SolverSort} {h : Nat} {x : Node}
    (hx : Shows objects sort h x) (o : Object Obj) : Shows (objects ++ [o]) sort h x := by
  obtain ⟨y, hy, hyx⟩ := hx
  obtain ⟨hlt, _⟩ := List.getElem?_eq_some_iff.mp hy
  exact ⟨y, by rw [List.getElem?_append_left hlt, hy], hyx⟩

/-- Handles that show the operands of an operation stand for operands of the same structure. -/
theorem at?_of_shows {objects : List (Object Obj)} {R : (s : SolverSort) → Nat → Node → Prop}
    (hR : ∀ sort i x, R sort i x → Shows objects sort i x) {entry : Recording.Entry}
    {op : Operation Obj} (h : Operation.Rel R entry op) :
    ∃ op', entry.at? objects = some op' ∧ SameStructure op' op := by
  have hread : Option.Rel SameStructure (entry.at? objects) (op.read? (fun _ => some) some) := by
    refine h.read? ?_ ?_
    · intro sort i x hx
      obtain ⟨y, hy, hyx⟩ := hR sort i x hx
      rw [hy]
      cases sort <;> exact .some hyx
    · intro m n hmn
      cases hmn with
      | integer hx =>
        obtain ⟨y, hy, hyx⟩ := hR _ _ _ hx
        rw [Numeral.position, hy]
        exact .some (.integer hyx)
      | rational hx =>
        obtain ⟨y, hy, hyx⟩ := hR _ _ _ hx
        rw [Numeral.position, hy]
        exact .some (.rational hyx)
  rw [Operation.read?_some] at hread
  generalize entry.at? objects = found at hread
  cases hread with
  | some h => exact ⟨_, rfl, h⟩

/-- Recording an operation is in step with building it. -/
theorem inStep_record (h : Replays fresh r s) {entry : Recording.Entry} {op : Operation Obj}
    (hop : Operation.Rel ((replaying fresh).obj r s) entry op) :
    InStep (replaying fresh) (fun r s => (replaying fresh).obj r s op.sort) r s
      (ExceptT.lift (Recording.record entry)) (ExceptT.lift (build op)) := by
  obtain ⟨hcapabilities, objects, t, hreplay, hlength, halike⟩ := h
  have hshows : ∀ sort i x, (replaying fresh).obj r s sort i x → Shows objects sort i x := by
    rintro sort i x ⟨objects', t', hreplay', hx⟩
    rw [hreplay] at hreplay'
    cases hreplay'
    exact hx
  obtain ⟨op', hat, hsame⟩ := at?_of_shows hshows hop
  obtain ⟨hvalue, hstate⟩ := halike.build hsame
  have hnext := replay_concat hreplay hat
  refine ⟨?_, ?_, ?_⟩ <;> rw [Action.run_lift, Action.run_lift]
  · refine ⟨hcapabilities.trans (grows_build s op).capabilities.symm, _, _, hnext, ?_, hstate⟩
    show (objects ++ _).length = (r.entries ++ [entry]).length
    rw [List.length_append, List.length_append, hlength]
    rfl
  · intro sort i x hx
    exact ⟨_, _, hnext, (hshows sort i x hx).append _⟩
  -- The handle is the length of the record, the position that the replayed object gets.
  · refine .ok ⟨_, _, hnext, _, ?_, hvalue⟩
    show (objects ++ _)[r.entries.length]? = _
    rw [← hlength, List.getElem?_concat_length, hsame.sort_eq]

/-- Recording simulates building. -/
def recording (fresh : State) : Simulation Recording.backend backend True where
  toCorrespondence := replaying fresh
  capabilities h := h.1
  core h hop := inStep_record h (.core hop)
  rational _ _ _ _ _ _ h hop := inStep_record h (.rational hop)

/-! ## Sessions -/

/-- The same session on a recording backend and on an SMT-LIB backend registers the same variables
under the same sorts.  The record replays on a fresh backend to the declarations of the session,
and step by step both fail with the same error, or the handle that the one answers with replays to
a node of the structure that the other answers with. -/
theorem recording_replays (capabilities : Capabilities) (first first' : Nat) (options : Options)
    (steps : List Step) :
    let recorded := Session.performAll steps
      (.start (B := Recording.backend) (.empty capabilities) options)
    let built := Session.performAll steps
      (.start (B := backend) (.empty capabilities first) options)
    recorded.state.encoder.registeredSorts = built.state.encoder.registeredSorts ∧
    ∃ objects final,
      replay recorded.state.encoder.backend.entries (.empty capabilities first') =
        some (objects, final) ∧
      final.declarations.map Declaration.shape =
        built.state.encoder.backend.declarations.map Declaration.shape ∧
      List.Forall₂ (SameOutcome (Option.Rel (Object.Rel fun sort h x =>
          ∃ y : Node, objects[h]? = some ⟨sort, y⟩ ∧ y.expr = x.expr)))
        recorded.value built.value := by
  intro recorded built
  have hempty : Replays (.empty capabilities first') (.empty capabilities)
      (.empty capabilities first) := ⟨rfl, [], _, rfl, rfl, rfl⟩
  obtain ⟨hsessions, _, houtcomes⟩ := Simulation.sessions_performAll steps
    (Simulation.Sessions.start (R := recording (.empty capabilities first')) hempty options)
  refine ⟨hsessions.encoder.registeredSorts, ?_⟩
  obtain ⟨_, objects, final, hreplay, _, halike⟩ := hsessions.encoder.backend
  refine ⟨objects, final, hreplay, halike, houtcomes.imp fun _ _ h => ?_⟩
  refine SameOutcome.mono (fun o p hop => ?_) h
  cases hop with
  | none => exact .none
  | some hop =>
    refine .some (hop.mono fun sort h x hx => ?_)
    obtain ⟨objects', final', hreplay', hx⟩ := hx
    rw [hreplay] at hreplay'
    cases hreplay'
    exact hx

end SmtEncoding.SmtLib
