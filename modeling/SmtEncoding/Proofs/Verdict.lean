import SmtEncoding.Proofs.Moves
import SmtEncoding.Proofs.Rules
import SmtEncoding.Recording.Backend

/-!
# Verdicts

An encoder decides what it refuses by the sorts of the objects that it has built, and the walk of
the rules decides by declared types.  The two agree because the numeral of a term has the sort of
the declared type of the term (`Judged.encodeTerm`).  So on a backend whose rational operations do
not fail an encoder succeeds, or fails with an error, exactly as the walk does
(`outcome_eq_verdict`), and the objects that it holds do not matter.
-/

namespace SmtEncoding

/-! ## Checks of terms -/

theorem Term.mem_subterms (t : Term) : t ∈ t.subterms := by
  cases t <;> exact List.mem_cons_self

/-- Terms pass the check where there are rationals, or where none of them is a double. -/
theorem Capabilities.checkAll_eq (c : Capabilities) (ts : List Term) :
    c.checkAll ts = if c.rationals || ts.all (·.type ≠ .double) then .ok ()
      else .error (.backendUnsupportedType .double) := by
  induction ts with
  | nil =>
    rw [List.all_nil, Bool.or_true]
    rfl
  | cons t ts ih =>
    rw [checkAll, List.all_cons]
    by_cases ht : t.type = .double
    · rw [if_pos ht, ih, decide_eq_false (not_not.mpr ht), Bool.false_and, Bool.or_false]
      unfold requireRationals require supports
      cases c.rationals <;> rfl
    · rw [if_neg ht, ih, decide_eq_true ht, Bool.true_and]

variable {B : Backend} {α β : Type}

/-- A check passes on to what comes after it, or it ends it. -/
theorem Encoder.run_checkTerm_bind (t : Term) (k : Action (Encoder B) α) (e : Encoder B) :
    (do checkTerm t; k).run e =
      if e.capabilities.rationals || t.subterms.all (·.type ≠ .double) then k.run e
      else ⟨.error (.backendUnsupportedType .double), e, []⟩ := by
  have hrun : (checkTerm t).run e =
      ⟨if e.capabilities.rationals || t.subterms.all (·.type ≠ .double) then .ok ()
        else .error (.backendUnsupportedType .double), e, []⟩ := by
    rw [checkTerm, Action.run_get_bind, Action.run_ofExcept, Capabilities.checkTerm,
      Capabilities.checkAll_eq]
  cases hallowed : e.capabilities.rationals || t.subterms.all (·.type ≠ .double) with
  | true =>
    rw [Action.run_bind_of_ok (a := ()) (by rw [hrun, hallowed]; rfl), hrun]
    rfl
  | false =>
    rw [Action.run_bind_of_error (e := .backendUnsupportedType .double)
      (by rw [hrun, hallowed]; rfl), hrun]
    rfl

/-- What follows the check of two terms runs if there are rationals or no subterm is a double. -/
theorem Encoder.run_checkTerms_bind (l r : Term) (k : Action (Encoder B) α) (e : Encoder B) :
    (do checkTerm l; checkTerm r; k).run e =
      if e.capabilities.rationals || (l.subterms ++ r.subterms).all (·.type ≠ .double) then k.run e
      else ⟨.error (.backendUnsupportedType .double), e, []⟩ := by
  rw [run_checkTerm_bind, run_checkTerm_bind, List.all_append]
  cases e.capabilities.rationals with
  | true => rfl
  | false =>
    cases l.subterms.all (·.type ≠ .double) with
    | true => rfl
    | false => rfl

/-! ## Dependable backends -/

/-- Rational operations do not fail while a backend reports rationals, and no operation takes the
rationals away. -/
structure Backend.Dependable (B : Backend) : Prop where
  core : ∀ {s : SolverSort} (op : CoreOp B.Obj s) (b : B.State),
    (B.capabilities b).rationals = true → (B.capabilities (B.core op b).state).rationals = true
  rational : ∀ {s : SolverSort} (op : RationalOp B.Obj s) (b : B.State),
    (B.capabilities b).rationals = true → (∃ x, ((B.rational op).run b).value = .ok x) ∧
      (B.capabilities ((B.rational op).run b).state).rationals = true

theorem dependable_recording : Recording.backend.Dependable where
  core _ _ h := h
  rational _ _ h := ⟨⟨_, rfl⟩, h⟩

/-- To create a variable takes no rationals away. -/
theorem Backend.Dependable.createVariable (hB : B.Dependable) (name : String) (sort : SolverSort)
    {b : B.State} (hb : (B.capabilities b).rationals = true) :
    (B.capabilities ((B.createVariable name sort).run b).state).rationals = true :=
  Backend.keeps_createVariable (P := fun b => (B.capabilities b).rationals = true)
    hB.core (fun op b hb => (hB.rational op b hb).2) name sort hb

/-- An encoder relies on rationals only while its backend has them. -/
theorem Backend.Dependable.reported (hB : B.Dependable) (turns : List (Turn B))
    (backend : B.State) (options : Options) :
    let reached := (Session.takeAll turns (.start backend options)).state.encoder
    reached.capabilities.rationals = true →
      (B.capabilities reached.backend).rationals = true :=
  Session.capabilities_takeAll
    (Q := fun c b => c.rationals = true → (B.capabilities b).rationals = true)
    (fun op b hb hr => hB.core op b (hb hr)) (fun op b hb hr => (hB.rational op b (hb hr)).2)
    (fun _ hr => hr) turns backend options

/-! ## Encoders and walks in step -/

/-- The rules that an encoder follows. -/
def Encoder.rules (e : Encoder B) : Rules := ⟨e.capabilities.rationals, e.options.createVariables⟩

/-- The encoder follows the rules, and its variables are those that are known. -/
structure Follows (rules : Rules) (e : Encoder B) (known : KnownSorts) : Prop where
  rules_eq : e.rules = rules
  known_eq : e.registeredSorts = known
  /-- With rationals, the backend has them too. -/
  reported : rules.rationals = true → (B.capabilities e.backend).rationals = true
  /-- With rationals, operations on them do not fail. -/
  dependable : rules.rationals = true → B.Dependable

/-- If nothing is asked of the values, outcomes are the same if they are so as verdicts. -/
theorem SameOutcome.of_map_eq {x : Except EncodeError α} {y : Except EncodeError Unit}
    (h : x.map (fun _ => ()) = y) : SameOutcome (fun _ _ => True) x y := by
  subst h
  cases x with
  | ok a => exact .ok trivial
  | error err => exact .error err

theorem SameOutcome.map_eq {V : α → Unit → Prop} {x : Except EncodeError α}
    {y : Except EncodeError Unit} (h : SameOutcome V x y) : x.map (fun _ => ()) = y := by
  cases h with
  | ok _ => rfl
  | error _ => rfl

/-- The correspondence of an encoder and a walk.  Nothing is asked of objects. -/
def follows (rules : Rules) :
    Correspondence (Encoder B) KnownSorts B.Obj (fun _ => Unit) where
  state := Follows rules
  obj _ _ _ _ _ := True

/-- An action of an encoder has the verdict of a walk, and `V` holds of what it answers with. -/
abbrev Judged (rules : Rules) (V : α → Prop) (e : Encoder B) (known : KnownSorts)
    (f : Action (Encoder B) α) (walk : Action KnownSorts Unit) : Prop :=
  InStep (follows rules) (fun _ _ a _ => V a) e known f walk

namespace Follows

variable {rules : Rules} {e : Encoder B} {known : KnownSorts}

theorem rationals_eq (h : Follows rules e known) : e.capabilities.rationals = rules.rationals :=
  congrArg Rules.rationals h.rules_eq

theorem creation_eq (h : Follows rules e known) :
    e.options.createVariables = rules.creation :=
  congrArg Rules.creation h.rules_eq

/-- Another state of the backend that has the rationals too. -/
theorem backend (h : Follows rules e known) {b : B.State}
    (hb : rules.rationals = true → (B.capabilities b).rationals = true) :
    Follows rules { e with backend := b } known :=
  ⟨h.rules_eq, h.known_eq, hb, h.dependable⟩

/-- A variable is known under the sort of the object that it is registered with. -/
theorem lookup (h : Follows rules e known) (v : Variable) :
    known.lookup v = (e.registry.get? v).map Object.sort := by
  rw [← h.known_eq, Encoder.registeredSorts, Registry.get?]
  induction e.registry.entries with
  | nil => rfl
  | cons p ps ih =>
    obtain ⟨w, o⟩ := p
    rw [List.map_cons, List.lookup_cons, List.lookup_cons]
    cases v == w with
    | true => rfl
    | false => exact ih

/-- A variable can be created, a real one with rationals. -/
theorem creates (h : Follows rules e known) (name : String) {sort : SolverSort}
    (hsort : sort = .real → rules.rationals = true) :
    ∃ x, ((B.createVariable name sort).run e.backend).value = .ok x := by
  cases sort with
  | bool => exact ⟨_, by rw [Backend.createVariable, Action.run_lift]⟩
  | int => exact ⟨_, by rw [Backend.createVariable, Action.run_lift]⟩
  | real =>
    have hr := hsort rfl
    exact ((h.dependable hr).rational (.var name) e.backend (h.reported hr)).1

end Follows

namespace Judged

variable {rules : Rules} {V : α → Prop} {W : β → Prop} {e : Encoder B} {known : KnownSorts}

/-- What an encoder does last may have no counterpart in the walk. -/
theorem bind_last {f : Action (Encoder B) α} {k : α → Action (Encoder B) β}
    {walk : Action KnownSorts Unit} (h : Judged rules V e known f walk)
    (hk : ∀ {e known a}, Follows rules e known → V a → Judged rules W e known (k a) (pure ())) :
    Judged rules W e known (f >>= k) walk := by
  rw [← bind_pure_unit (x := walk)]
  exact h.bind fun hnext _ ha => hk hnext ha

theorem map {f : Action (Encoder B) α} {φ : α → β} {walk : Action KnownSorts Unit}
    (h : Judged rules V e known f walk) (hφ : ∀ {a}, V a → W (φ a)) :
    Judged rules W e known (φ <$> f) walk := by
  rw [map_eq_pure_bind]
  exact h.bind_last fun hnext ha => .pure hnext (hφ ha)

/-- The state may be read first. -/
theorem get_bind {k : Encoder B → Action (Encoder B) α} {walk : Action KnownSorts Unit}
    (h : Judged rules V e known (k e) walk) : Judged rules V e known (get >>= k) walk := by
  refine ⟨?_, ?_, ?_⟩ <;> rw [Action.run_get_bind]
  · exact h.state
  · exact h.keeps
  · exact h.outcome

/-- A node may be reported first. -/
theorem note_bind {event : LogEvent} {k : PUnit → Action (Encoder B) α}
    {walk : Action KnownSorts Unit} (h : Judged rules V e known (k ⟨⟩) walk) :
    Judged rules V e known (Action.note event >>= k) walk := by
  refine ⟨?_, ?_, ?_⟩ <;> rw [Action.run_note_bind]
  · exact h.state
  · exact h.keeps
  · exact h.outcome

/-! ### Operations and variables -/

theorem core (h : Follows rules e known) {s : SolverSort} (op : CoreOp B.Obj s) :
    Judged rules (fun _ => True) e known (Encoder.core op) (pure ()) := by
  have hrun : (Encoder.core op).run e = ⟨.ok (B.core op e.backend).value,
      { e with backend := (B.core op e.backend).state }, (B.core op e.backend).log⟩ := by
    rw [Encoder.core, Encoder.onBackend, Action.run_zoom, Action.run_lift]
  refine ⟨?_, fun _ _ _ _ => trivial, ?_⟩ <;> rw [hrun]
  · exact h.backend fun hr => (h.dependable hr).core op e.backend (h.reported hr)
  · exact .ok trivial

theorem rational (h : Follows rules e known) (hr : rules.rationals = true) {s : SolverSort}
    (op : RationalOp B.Obj s) :
    Judged rules (fun _ => True) e known (Encoder.rational op) (pure ()) := by
  obtain ⟨⟨x, hx⟩, hstate⟩ := (h.dependable hr).rational op e.backend (h.reported hr)
  refine ⟨h.backend fun _ => hstate, fun _ _ _ _ => trivial, ?_⟩
  rw [Encoder.rational, Encoder.onBackend, Action.run_zoom, hx]
  exact .ok trivial

/-- A check that the walk does too. -/
theorem need_bind (h : Follows rules e known) {condition : Bool} {err : EncodeError}
    {f k : Action (Encoder B) α} {walk : Action KnownSorts Unit}
    (hf : f.run e = if condition then k.run e else ⟨.error err, e, []⟩)
    (hk : condition = true → Judged rules V e known k walk) :
    Judged rules V e known f (do need condition err; walk) := by
  cases condition with
  | true =>
    refine ⟨?_, ?_, ?_⟩ <;> rw [hf, run_need_bind, if_pos rfl, if_pos rfl]
    · exact (hk rfl).state
    · exact (hk rfl).keeps
    · exact (hk rfl).outcome
  | false =>
    refine ⟨?_, fun _ _ _ _ => trivial, ?_⟩ <;> rw [hf, run_need_bind, if_neg nofun, if_neg nofun]
    · exact h
    · exact .error err

/-- The encoder goes on exactly where the walk does, which is where there are rationals. -/
theorem requireRationals_bind (h : Follows rules e known) {k : Action (Encoder B) α}
    {walk : Action KnownSorts Unit}
    (hk : rules.rationals = true → Judged rules V e known k walk) :
    Judged rules V e known (do Encoder.requireRationals; k) (do rules.needRationals; walk) := by
  have hrun := Encoder.run_requireRationals_bind k e
  rw [h.rationals_eq] at hrun
  exact need_bind h hrun hk

/-- A variable is looked up as the walk meets it. -/
theorem resolve (h : Follows rules e known) (sort : SolverSort)
    (hsort : sort = .real → rules.rationals = true) (creation : Bool) (v : Variable) :
    Judged rules (fun _ => True) e known (Encoder.resolve creation sort v)
      (Rules.meet creation sort v) := by
  have hlookup := h.lookup v
  cases hget : e.registry.get? v with
  | some found =>
    rw [hget, Option.map_some] at hlookup
    refine ⟨?_, fun _ _ _ _ => trivial, ?_⟩ <;>
      rw [Encoder.run_resolve_registered hget, Rules.run_meet_known hlookup]
    · exact h
    · cases has : found.as? sort with
      | some x =>
        rw [Object.as?_eq_some_iff.mp has, if_pos rfl]
        exact .ok trivial
      | none =>
        rw [if_neg (Object.as?_eq_none_iff.mp has)]
        exact .error _
  | none =>
    rw [hget, Option.map_none] at hlookup
    cases creation with
    | false =>
      refine ⟨?_, fun _ _ _ _ => trivial, ?_⟩ <;>
        rw [Encoder.run_resolve_refused hget, Rules.run_meet_unknown hlookup, if_neg nofun]
      · exact h
      · exact .error _
    | true =>
      obtain ⟨x, hx⟩ := h.creates v.name hsort
      have hreported := fun hr => (h.dependable hr).createVariable v.name sort (h.reported hr)
      refine ⟨?_, fun _ _ _ _ => trivial, ?_⟩ <;>
        rw [Encoder.run_resolve_created hget hx, Rules.run_meet_unknown hlookup, if_pos rfl]
      · refine ⟨h.rules_eq, ?_, hreported, h.dependable⟩
        rw [← h.known_eq]
        exact List.map_append
      · exact .ok trivial

/-! ### Terms -/

/-- A numeral has the sort of a type. -/
abbrev OfType (type : ValueType) (n : Numeral B.Obj) : Prop := n.sort = type.sort

theorem resolveNumeral (h : Follows rules e known) (creation : Bool) (v : Variable) :
    Judged rules (OfType v.type) e known (Encoder.resolveNumeral creation v)
      (rules.judgeVariable creation v) := by
  unfold Encoder.resolveNumeral Rules.judgeVariable
  cases v.type with
  | bool => exact .throw h _
  | integer => exact (resolve h .int nofun creation v).map fun _ => rfl
  | double =>
    refine requireRationals_bind h fun hr => ?_
    exact (resolve h .real (fun _ => hr) creation v).map fun _ => rfl

theorem encodeConstant (h : Follows rules e known) (c : Constant) :
    Judged rules (OfType c.type) e known (Encoder.encodeConstant c) (rules.judgeConstant c) := by
  cases c with
  | integer n => exact (core h (.intConstant n)).map fun _ => rfl
  | double x =>
    simp only [Encoder.encodeConstant, Rules.judgeConstant]
    refine requireRationals_bind h fun hr => ?_
    cases hx : x.isFinite with
    | true =>
      rw [Double.toRat?, if_pos hx]
      exact (rational h hr _).map fun _ => rfl
    | false =>
      rw [Double.toRat?, hx]
      exact .throw h _

/-- Arguments are whole numbers unless one of them has the type of doubles. -/
theorem expectIntegers (h : Follows rules e known) {ns : List (Numeral B.Obj)}
    {types : List ValueType} (hns : List.Forall₂ (fun n type => OfType type n) ns types) :
    Judged rules (fun _ => True) e known (Action.ofExcept (Encoder.expectIntegers ns))
      (need (.double ∉ types) (.incompatibleOperand .int .real)) := by
  refine .ofExcept h (.of_map_eq ?_)
  induction hns with
  | nil => rfl
  | @cons n type ns types hn _ ih =>
    unfold Encoder.expectIntegers
    cases n with
    | integer x =>
      have hrest : .double ∉ type :: types ↔ .double ∉ types := by
        cases type with
        | bool => cases hn
        | integer => simp
        | double => cases hn
      rw [decide_eq_decide.mpr hrest, ← ih]
      cases Encoder.expectIntegers ns <;> rfl
    | rational x =>
      cases type with
      | bool => cases hn
      | integer => cases hn
      | double =>
        rw [decide_eq_false (not_not.mpr List.mem_cons_self)]
        rfl

/-- A function succeeds as the types of its arguments and its own allow it. -/
theorem applyFunction (h : Follows rules e known) (f : FunctionKind) (type : ValueType)
    {ns : List (Numeral B.Obj)} {types : List ValueType}
    (hns : List.Forall₂ (fun n type => OfType type n) ns types) :
    Judged rules (OfType type) e known (Encoder.applyFunction f ns type)
      (rules.judgeFunction f types type) := by
  cases type with
  | bool => exact .throw h _
  | integer =>
    refine (expectIntegers h hns).bind fun h _ _ => ?_
    cases f with
    | add => exact (core h (.intAdd _)).map fun _ => rfl
    | multiply => exact (core h (.intMultiply _)).map fun _ => rfl
    | divide => exact .throw h _
  | double =>
    refine requireRationals_bind h fun hr => ?_
    cases f with
    | add => exact (rational h hr (.add ns)).map fun _ => rfl
    | multiply => exact (rational h hr (.multiply ns)).map fun _ => rfl
    | divide => exact .throw h _

mutual

/-- The numeral of a term has the sort of the declared type of the term. -/
theorem encodeTerm {e : Encoder B} {known : KnownSorts} (h : Follows rules e known) :
    ∀ t : Term, Judged rules (OfType t.type) e known (Encoder.encodeTerm t) (rules.judgeTerm t)
  | .constant c => by
    simp only [Encoder.encodeTerm, Rules.judgeTerm]
    exact encodeConstant h c
  | .var v => by
    simp only [Encoder.encodeTerm, Rules.judgeTerm]
    refine get_bind ?_
    rw [h.creation_eq]
    exact resolveNumeral h rules.creation v
  | .app f args type => by
    simp only [Encoder.encodeTerm, Rules.judgeTerm]
    refine (encodeTerms h args).bind fun h _ hns => ?_
    exact applyFunction h f type (List.forall₂_map_right_iff.mpr hns)

theorem encodeTerms {e : Encoder B} {known : KnownSorts} (h : Follows rules e known) :
    ∀ ts : List Term,
      Judged rules (fun ns => List.Forall₂ (fun n t => OfType (Term.type t) n) ns ts) e known
        (Encoder.encodeTerms ts) (rules.judgeTerms ts)
  | [] => by
    simp only [Encoder.encodeTerms, Rules.judgeTerms]
    exact .pure h .nil
  | t :: ts => by
    simp only [Encoder.encodeTerms, Rules.judgeTerms]
    refine (encodeTerm h t).bind fun h _ hn => ?_
    exact (encodeTerms h ts).bind_last fun h hns => .pure h (.cons hn hns)

end

/-! ### Formulas -/

/-- Numerals are compared, rationals only if there are rationals. -/
theorem compareNumerals (h : Follows rules e known) (c : Comparison) {m n : Numeral B.Obj}
    (hm : m.isRational = true → rules.rationals = true)
    (hn : n.isRational = true → rules.rationals = true) :
    Judged rules (fun _ => True) e known (Encoder.compareNumerals c m n) (pure ()) := by
  refine get_bind ?_
  rw [h.rationals_eq]
  cases hr : rules.rationals with
  | true =>
    cases m with
    | rational x => exact rational h hr (.compare c (.rational x) n)
    | integer x =>
      cases n with
      | rational y => exact rational h hr (.compare c (.integer x) (.rational y))
      | integer y => exact core h (.intCompare c x y)
  | false =>
    cases m with
    | rational x => exact absurd (hr.symm.trans (hm rfl)) nofun
    | integer x =>
      cases n with
      | rational y => exact absurd (hr.symm.trans (hn rfl)) nofun
      | integer y => exact core h (.intCompare c x y)

theorem encodeComparison (h : Follows rules e known) (c : Comparison) (l r : Term) :
    Judged rules (fun _ => True) e known (Encoder.encodeComparison c l r)
      (rules.judgeComparison l r) := by
  -- Both terms are checked before anything is built, and the walk does this in one check.
  have hrun := Encoder.run_checkTerms_bind l r (do
    let m ← Encoder.encodeTerm l
    let n ← Encoder.encodeTerm r
    Encoder.compareNumerals c m n) e
  rw [h.rationals_eq] at hrun
  refine need_bind h hrun fun hallowed => ?_
  have hdouble : ∀ t ∈ l.subterms ++ r.subterms, ∀ n : Numeral B.Obj, OfType t.type n →
      n.isRational = true → rules.rationals = true := by
    intro t ht n hn hrational
    rw [Bool.or_eq_true, List.all_eq_true] at hallowed
    exact hallowed.resolve_right fun hall =>
      of_decide_eq_true (hall t ht) ((Numeral.isRational_iff hn).mp hrational)
  refine (encodeTerm h l).bind fun h _ hm => (encodeTerm h r).bind_last fun h hn => ?_
  refine compareNumerals h c ?_ ?_
  · exact hdouble l (List.mem_append_left _ l.mem_subterms) _ hm
  · exact hdouble r (List.mem_append_right _ r.mem_subterms) _ hn

theorem encodeLiteral (h : Follows rules e known) (v : Variable) (positive : Bool) :
    Judged rules (fun _ => True) e known (Encoder.encodeLiteral v positive)
      (Rules.meet rules.creation .bool v) := by
  refine get_bind ?_
  rw [h.creation_eq]
  refine (resolve h .bool nofun rules.creation v).bind_last fun h _ => ?_
  cases positive with
  | true => exact .pure h trivial
  | false => exact core h _

theorem refuse (h : Follows rules e known) (kind : NodeKind) :
    Judged rules (fun _ => True) e known (Encoder.refuse (B := B) kind)
      (throw (.unsupportedNode kind)) :=
  note_bind (.throw h _)

mutual

/-- A formula has the verdict of its walk. -/
theorem encode {e : Encoder B} {known : KnownSorts} (h : Follows rules e known) :
    ∀ x : Expr, Judged rules (fun _ => True) e known (Encoder.encode x) (rules.judge x)
  | .constant value => by
    simp only [Encoder.encode, Rules.judge]
    exact note_bind (core h (.boolConstant value))
  | .not x => by
    simp only [Encoder.encode, Rules.judge]
    exact note_bind ((encode h x).bind_last fun h _ => core h (.not _))
  | .and xs => by
    simp only [Encoder.encode, Rules.judge]
    exact note_bind ((encodeAll h xs).bind_last fun h _ => core h (.and _))
  | .or xs => by
    simp only [Encoder.encode, Rules.judge]
    exact note_bind ((encodeAll h xs).bind_last fun h _ => core h (.or _))
  | .implies l r => by
    simp only [Encoder.encode, Rules.judge]
    refine note_bind ((encode h l).bind fun h _ _ => ?_)
    exact (encode h r).bind_last fun h _ => core h (.implies _ _)
  | .iff l r => by
    simp only [Encoder.encode, Rules.judge]
    refine note_bind ((encode h l).bind fun h _ _ => ?_)
    exact (encode h r).bind_last fun h _ => core h (.iff _ _)
  | .literal v positive => by
    simp only [Encoder.encode, Rules.judge]
    exact note_bind (encodeLiteral h v positive)
  | .compare c l r => by
    simp only [Encoder.encode, Rules.judge]
    exact note_bind (encodeComparison h c l r)
  | .atLeast _ _ => by
    simp only [Encoder.encode, Rules.judge]
    exact refuse h _
  | .atMost _ _ => by
    simp only [Encoder.encode, Rules.judge]
    exact refuse h _
  | .between _ _ _ => by
    simp only [Encoder.encode, Rules.judge]
    exact refuse h _
  | .choose _ _ => by
    simp only [Encoder.encode, Rules.judge]
    exact refuse h _
  | .exist _ _ => by
    simp only [Encoder.encode, Rules.judge]
    exact refuse h _
  | .forAll _ _ => by
    simp only [Encoder.encode, Rules.judge]
    exact refuse h _

theorem encodeAll {e : Encoder B} {known : KnownSorts} (h : Follows rules e known) :
    ∀ xs : List Expr,
      Judged rules (fun _ => True) e known (Encoder.encodeAll xs) (rules.judgeAll xs)
  | [] => by
    simp only [Encoder.encodeAll, Rules.judgeAll]
    exact .pure h trivial
  | x :: xs => by
    simp only [Encoder.encodeAll, Rules.judgeAll]
    refine (encode h x).bind fun h _ _ => ?_
    exact (encodeAll h xs).bind_last fun h _ => .pure h trivial

end

/-- A declaration has the verdict of its walk. -/
theorem declare (h : Follows rules e known) (v : Variable) :
    Judged rules (fun _ => True) e known (Encoder.declare v) (rules.judgeDeclaration v) := by
  unfold Encoder.declare Rules.judgeDeclaration
  cases v.type with
  | bool => exact (resolve h .bool nofun true v).map fun _ => trivial
  | integer => exact (resolveNumeral h true v).map fun _ => trivial
  | double => exact (resolveNumeral h true v).map fun _ => trivial

end Judged

/-! ## Sessions -/

/-- In whatever state a session has left an encoder, a formula and a term are encoded, or fail with
an error, as the walk says that looks only at their declared types and at the sorts of the
variables that are known.  The variables that are known afterwards are those of the walk, and the
numeral of a term has the sort of its declared type. -/
theorem outcome_eq_verdict (backend : B.State) (options : Options) (turns : List (Turn B))
    (hB : (Session.takeAll turns (.start backend options)).state.encoder.capabilities.rationals =
      true → B.Dependable) :
    let reached := (Session.takeAll turns (.start backend options)).state.encoder
    (∀ x : Expr,
      let verdict := (reached.rules.judge x).run reached.registeredSorts
      ((Encoder.encode x).run reached).value.map (fun _ => ()) = verdict.value ∧
      ((Encoder.encode x).run reached).state.registeredSorts = verdict.state) ∧
    ∀ t : Term,
      let verdict := (reached.rules.judgeTerm t).run reached.registeredSorts
      ((Encoder.encodeTerm t).run reached).value.map (fun _ => ()) = verdict.value ∧
      ((Encoder.encodeTerm t).run reached).state.registeredSorts = verdict.state ∧
      ∀ n, ((Encoder.encodeTerm t).run reached).value = .ok n → n.sort = t.type.sort := by
  intro reached
  have hfollows : Follows reached.rules reached reached.registeredSorts :=
    ⟨rfl, rfl, fun hr => (hB hr).reported turns backend options hr, hB⟩
  refine ⟨fun x => ?_, fun t => ?_⟩
  · have hx := Judged.encode hfollows x
    exact ⟨hx.outcome.map_eq, hx.state.known_eq⟩
  · have ht := Judged.encodeTerm hfollows t
    refine ⟨ht.outcome.map_eq, ht.state.known_eq, fun n hn => ?_⟩
    have houtcome := ht.outcome
    generalize ((reached.rules.judgeTerm t).run reached.registeredSorts).value = u at houtcome
    rw [hn] at houtcome
    cases houtcome with
    | ok hsort => exact hsort

/-- A declared number, and then no more variables. -/
def preregistered : List (Turn Recording.backend) :=
  [.step (.declare ⟨"n", .integer⟩), .step (.setCreateVariables false)]

/-- A comparison over the declared number, then one with an unknown number in it. -/
def unknownNumber : Expr :=
  .or [.compare .lessThan (.var ⟨"n", .integer⟩) (.constant (.double ⟨0⟩)),
    .compare .equals (.app .add [.constant (.integer 1), .var ⟨"m", .double⟩] .integer)
      (.constant (.double ⟨0x7ff8000000000000⟩)),
    .literal ⟨"n", .integer⟩ true]

/-- The unknown number stands before the double among the operands, the double as a constant, and
the literal over a number, so it is the first error. -/
theorem outcome_eq_verdict_unknown :
    let reached := (Session.takeAll preregistered (.start (.empty {}) {})).state.encoder
    (reached.capabilities.rationals = true → Recording.backend.Dependable) ∧
    ((Encoder.encode unknownNumber).run reached).value.map (fun _ => ()) =
      .error (.variableNotPreregistered "m") ∧
    ((Encoder.encode unknownNumber).run reached).state.registeredSorts =
      [(⟨"n", .integer⟩, .int)] := by
  intro reached
  obtain ⟨hvalue, hknown⟩ :=
    (outcome_eq_verdict (Recording.State.empty {}) {} preregistered fun _ =>
      dependable_recording).1 unknownNumber
  exact ⟨fun _ => dependable_recording, hvalue.trans rfl, hknown.trans rfl⟩

end SmtEncoding
