import SmtEncoding.Proofs.Verdict

/-!
# Encoders without rationals

An encoder without rationals may hold rational objects all the same, in its registry or in the hands
of its user, because it may have been bound to another backend before.  It never builds on them.
A walk under rules without rationals stops before it meets a number that is not whole
(`Integral.judgeTerm`), so no operand of an encoding has the wrong sort, and no move of the encoder
is a rational operation (`IntegerCalls.move`).  Only a comparison of rationals that its user holds
is refused for the sort of an operand, and the backend does not hear of it
(`rationals_never_reached`).

What a backend is asked for is kept by a tracing backend around it (`Backend.traced`), which answers
as the backend does.
-/

namespace SmtEncoding

/-! ## Walks without rationals -/

/-- A walk does not end at an operand of another sort, and `Q` holds if it passes. -/
structure Integral (Q : Prop) (walk : Action KnownSorts Unit) : Prop where
  passes : ∀ {known}, (walk.run known).value = .ok () → Q
  error : ∀ {known expected found},
    (walk.run known).value ≠ .error (.incompatibleOperand expected found)

namespace Integral

variable {P Q : Prop} {walk next : Action KnownSorts Unit}

theorem pure (h : Q) : Integral Q (pure ()) where
  passes _ := h
  error := nofun

theorem throw {err : EncodeError}
    (h : ∀ expected found, err ≠ .incompatibleOperand expected found) :
    Integral Q (throw err) where
  passes := nofun
  error herr := by
    rw [Action.run_throw] at herr
    exact h _ _ (Except.error.inj herr)

theorem mono (h : Integral P walk) (hPQ : P → Q) : Integral Q walk where
  passes hwalk := hPQ (h.passes hwalk)
  error := h.error

/-- The second walk is reached only if the first one passes. -/
theorem bind (h : Integral P walk) (hnext : P → Integral Q next) :
    Integral Q (do walk; next) where
  passes {known} hpasses := by
    cases hwalk : (walk.run known).value with
    | ok _ =>
      rw [Action.run_bind_of_ok hwalk] at hpasses
      exact (hnext (h.passes hwalk)).passes hpasses
    | error err =>
      rw [Action.run_bind_of_error hwalk] at hpasses
      cases hpasses
  error {known expected found} herr := by
    cases hwalk : (walk.run known).value with
    | ok _ =>
      rw [Action.run_bind_of_ok hwalk] at herr
      exact (hnext (h.passes hwalk)).error herr
    | error err =>
      rw [Action.run_bind_of_error hwalk] at herr
      cases herr
      exact h.error hwalk

theorem check {condition : Bool} {err : EncodeError}
    (h : ∀ expected found, err ≠ .incompatibleOperand expected found) :
    Integral (condition = true) (need condition err) := by
  cases condition with
  | true => exact .pure rfl
  | false => exact .throw h

/-- A check that holds ends nothing. -/
theorem check_true {condition : Bool} {err : EncodeError} (h : condition = true) :
    Integral True (need condition err) := by
  subst h
  exact .pure trivial

theorem meet (creation : Bool) (sort : SolverSort) (v : Variable) :
    Integral True (Rules.meet creation sort v) where
  passes _ := trivial
  error {known expected found} herr := by
    cases hknown : known.lookup v with
    | some found =>
      rw [Rules.run_meet_known hknown] at herr
      dsimp only at herr
      split at herr <;> cases herr
    | none =>
      rw [Rules.run_meet_unknown hknown] at herr
      split at herr <;> cases herr

variable {rules : Rules}

/-- Nothing passes that needs rationals. -/
theorem needRationals (hr : rules.rationals = false) : Integral False rules.needRationals := by
  refine (check (by nofun)).mono fun h => ?_
  rw [hr] at h
  cases h

/-- A variable in a term that passes is no double. -/
theorem judgeVariable (hr : rules.rationals = false) (creation : Bool) (v : Variable) :
    Integral (v.type ≠ .double) (rules.judgeVariable creation v) := by
  unfold Rules.judgeVariable
  cases v.type with
  | bool => exact .throw nofun
  | integer => exact (meet creation .int v).mono fun _ => nofun
  | double => exact (needRationals hr).bind False.elim

/-- A function of no doubles passes only if it is none itself. -/
theorem judgeFunction (hr : rules.rationals = false) (f : FunctionKind) {args : List ValueType}
    (hargs : .double ∉ args) (type : ValueType) :
    Integral (type ≠ .double) (rules.judgeFunction f args type) := by
  cases type with
  | bool => exact .throw nofun
  | integer =>
    refine (check_true (decide_eq_true hargs)).bind fun _ => ?_
    exact (check (by nofun)).mono fun _ => nofun
  | double => exact (needRationals hr).bind False.elim

mutual

/-- A term that passes is no double. -/
theorem judgeTerm (hr : rules.rationals = false) : ∀ t : Term,
    Integral (t.type ≠ .double) (rules.judgeTerm t)
  | .constant (.integer _) => by
    simp only [Rules.judgeTerm]
    exact .pure nofun
  | .constant (.double _) => by
    simp only [Rules.judgeTerm]
    exact (needRationals hr).bind False.elim
  | .var v => by
    simp only [Rules.judgeTerm]
    exact judgeVariable hr rules.creation v
  | .app f args type => by
    simp only [Rules.judgeTerm]
    exact (judgeTerms hr args).bind fun hargs => judgeFunction hr f hargs type

theorem judgeTerms (hr : rules.rationals = false) : ∀ ts : List Term,
    Integral (.double ∉ ts.map Term.type) (rules.judgeTerms ts)
  | [] => by
    simp only [Rules.judgeTerms]
    exact .pure List.not_mem_nil
  | t :: ts => by
    simp only [Rules.judgeTerms]
    refine (judgeTerm hr t).bind fun ht => (judgeTerms hr ts).mono fun hts => ?_
    rw [List.map_cons, List.mem_cons, not_or]
    exact ⟨ht.symm, hts⟩

end

theorem judgeComparison (hr : rules.rationals = false) (l r : Term) :
    Integral True (rules.judgeComparison l r) := by
  refine (check (by nofun)).bind fun _ => (judgeTerm hr l).bind fun _ => ?_
  exact (judgeTerm hr r).mono fun _ => trivial

mutual

/-- A formula does not end at an operand of another sort. -/
theorem judge (hr : rules.rationals = false) : ∀ x : Expr, Integral True (rules.judge x)
  | .constant _ => by
    simp only [Rules.judge]
    exact .pure trivial
  | .not x => by
    simp only [Rules.judge]
    exact judge hr x
  | .and xs => by
    simp only [Rules.judge]
    exact judgeAll hr xs
  | .or xs => by
    simp only [Rules.judge]
    exact judgeAll hr xs
  | .implies l r => by
    simp only [Rules.judge]
    exact (judge hr l).bind fun _ => judge hr r
  | .iff l r => by
    simp only [Rules.judge]
    exact (judge hr l).bind fun _ => judge hr r
  | .literal v _ => by
    simp only [Rules.judge]
    exact meet _ .bool v
  | .compare _ l r => by
    simp only [Rules.judge]
    exact judgeComparison hr l r
  | .atLeast _ _ => by
    simp only [Rules.judge]
    exact .throw nofun
  | .atMost _ _ => by
    simp only [Rules.judge]
    exact .throw nofun
  | .between _ _ _ => by
    simp only [Rules.judge]
    exact .throw nofun
  | .choose _ _ => by
    simp only [Rules.judge]
    exact .throw nofun
  | .exist _ _ => by
    simp only [Rules.judge]
    exact .throw nofun
  | .forAll _ _ => by
    simp only [Rules.judge]
    exact .throw nofun

theorem judgeAll (hr : rules.rationals = false) : ∀ xs : List Expr,
    Integral True (rules.judgeAll xs)
  | [] => by
    simp only [Rules.judgeAll]
    exact .pure trivial
  | x :: xs => by
    simp only [Rules.judgeAll]
    exact (judge hr x).bind fun _ => judgeAll hr xs

end

theorem judgeDeclaration (hr : rules.rationals = false) (v : Variable) :
    Integral True (rules.judgeDeclaration v) := by
  unfold Rules.judgeDeclaration
  cases v.type with
  | bool => exact meet true .bool v
  | integer => exact (judgeVariable hr true v).mono fun _ => trivial
  | double => exact (judgeVariable hr true v).mono fun _ => trivial

end Integral

/-! ## Encoders without rationals -/

variable {B : Backend} {α : Type}

/-- An action whose verdict is that of an integral walk does not fail for the sort of an operand. -/
theorem Judged.integral {rules : Rules} {V : α → Prop} {Q : Prop} {e : Encoder B}
    {known : KnownSorts} {f : Action (Encoder B) α} {walk : Action KnownSorts Unit}
    (h : Judged rules V e known f walk) (hwalk : Integral Q walk) :
    (∀ a, (f.run e).value = .ok a → V a ∧ Q) ∧
      ∀ expected found, (f.run e).value ≠ .error (.incompatibleOperand expected found) := by
  have houtcome := h.outcome
  generalize hf : (f.run e).value = x, hverdict : (walk.run known).value = y at houtcome
  cases houtcome with
  | ok ha =>
    refine ⟨fun a hok => ?_, nofun⟩
    cases hok
    exact ⟨ha, hwalk.passes hverdict⟩
  | error err =>
    refine ⟨nofun, fun expected found herr => ?_⟩
    cases herr
    exact hwalk.error hverdict

namespace Encoder

variable {e : Encoder B} (hr : e.capabilities.rationals = false)

include hr

/-- Nothing is asked of the backend of an encoder without rationals. -/
theorem follows_rules : Follows e.rules e e.registeredSorts where
  rules_eq := rfl
  known_eq := rfl
  reported h := absurd (hr.symm.trans h) nofun
  dependable h := absurd (hr.symm.trans h) nofun

/-- The numeral of a term is a whole number. -/
theorem isRational_encodeTerm {t : Term} {n : Numeral B.Obj}
    (hn : ((encodeTerm t).run e).value = .ok n) : n.isRational = false := by
  obtain ⟨hsort, htype⟩ :=
    ((Judged.encodeTerm (follows_rules hr) t).integral (.judgeTerm hr t)).1 n hn
  cases hrational : n.isRational with
  | false => rfl
  | true => exact absurd ((Numeral.isRational_iff hsort).mp hrational) htype

/-- A rational is not compared, and the backend does not hear of it. -/
theorem run_compareNumerals_rational (c : Comparison) {m n : Numeral B.Obj}
    (hmn : (m.isRational || n.isRational) = true) :
    (compareNumerals c m n).run e = ⟨.error (.incompatibleOperand .int .real), e, []⟩ := by
  rw [compareNumerals, Action.run_get_bind, hr, Bool.and_false]
  cases m with
  | rational x => rfl
  | integer x =>
    cases n with
    | rational y => rfl
    | integer y => cases hmn

end Encoder

/-- A step of an encoder without rationals fails for the sort of an operand only if it compares
held rationals. -/
theorem Session.compared_of_incompatible {s : Session B}
    (hr : s.encoder.capabilities.rationals = false) {step : Step} (hstep : step.Plain)
    {expected found : SolverSort}
    (herr : (perform step s).value = .error (.incompatibleOperand expected found)) :
    ∃ c l r m n, step = .compare c l r ∧ s.held[l]?.bind Object.toNumeral? = some m ∧
      s.held[r]?.bind Object.toNumeral? = some n ∧ (m.isRational || n.isRational) = true := by
  have hf := Encoder.follows_rules hr
  -- Whatever a step does with an answer, it fails where the action fails that gives the answer.
  have hnot : ∀ {α : Type} {V : α → Prop} {Q : Prop} {f : Action (Encoder B) α}
      {walk : Action KnownSorts Unit} (φ : α → Option (Object B.Obj)),
      Judged s.encoder.rules V s.encoder s.encoder.registeredSorts f walk → Integral Q walk →
      ((φ <$> f).run s.encoder).value ≠ .error (.incompatibleOperand expected found) :=
    fun φ hf hwalk => ((hf.map (W := fun _ => True) fun _ => trivial).integral hwalk).2 _ _
  cases step with
  | encode x => exact absurd herr (hnot _ (Judged.encode hf x) (.judge hr x))
  | encodeTerm t => exact absurd herr (hnot _ (Judged.encodeTerm hf t) (.judgeTerm hr t))
  | declare v => exact absurd herr (hnot _ (Judged.declare hf v) (.judgeDeclaration hr v))
  | setCreateVariables allow => cases herr
  | compare c l r =>
    simp only [perform, Step.action] at herr
    cases hl : s.held[l]?.bind Object.toNumeral? with
    | none =>
      rw [hl] at herr
      cases herr
    | some m =>
      cases hr' : s.held[r]?.bind Object.toNumeral? with
      | none =>
        rw [hl, hr'] at herr
        cases herr
      | some n =>
        rw [hl, hr'] at herr
        refine ⟨c, l, r, m, n, rfl, hl, hr', ?_⟩
        by_contra hinteger
        rw [Bool.or_eq_true, not_or] at hinteger
        have hcompare := Judged.compareNumerals hf c (fun h => absurd h hinteger.1)
          fun h => absurd h hinteger.2
        exact hnot _ hcompare (.pure trivial) herr
  | operation op => exact hstep.elim
  | restart options => exact hstep.elim

/-! ## Tracing backends -/

/-- Whether an operation is one on rationals. -/
def Operation.isRational {O : SolverSort → Type} : Operation O → Bool
  | core _ => false
  | rational _ => true

/-- The state of a backend with the operations that it has been asked for, oldest first. -/
structure Traced (B : Backend) where
  state : B.State
  calls : List (Operation B.Obj)

/-- A backend that does as another one, and keeps the operations that it is asked for. -/
@[reducible] def Backend.traced (B : Backend) : Backend where
  State := Traced B
  Obj := B.Obj
  capabilities s := B.capabilities s.state
  describe := B.describe
  core op := fun s =>
    let reply := B.core op s.state
    ⟨reply.value, ⟨reply.state, s.calls ++ [.core op]⟩, reply.log⟩
  rational op := ExceptT.mk fun s =>
    let reply := (B.rational op).run s.state
    ⟨reply.value, ⟨reply.state, s.calls ++ [.rational op]⟩, reply.log⟩

/-- To create a variable that is not real is a core operation. -/
theorem calls_createVariable (name : String) {sort : SolverSort} (hsort : sort ≠ .real)
    (s : Traced B) : ∃ op : CoreOp B.Obj sort,
      ((B.traced.createVariable name sort).run s).state.calls = s.calls ++ [.core op] := by
  cases sort with
  | bool => exact ⟨.boolVar name, by rw [Backend.createVariable, Action.run_lift]⟩
  | int => exact ⟨.intVar name, by rw [Backend.createVariable, Action.run_lift]⟩
  | real => exact absurd rfl hsort

/-- From one state of an encoder to another, no operation on rationals is asked for. -/
def IntegerCalls (e f : Encoder B.traced) : Prop :=
  ∃ issued, f.backend.calls = e.backend.calls ++ issued ∧ ∀ op ∈ issued, op.isRational = false

namespace IntegerCalls

variable {e f g : Encoder B.traced}

theorem of_eq (h : f.backend = e.backend) : IntegerCalls e f :=
  ⟨[], by rw [h, List.append_nil], List.forall_mem_nil _⟩

theorem core {s : SolverSort} {op : CoreOp B.Obj s}
    (h : f.backend.calls = e.backend.calls ++ [.core op]) : IntegerCalls e f :=
  ⟨[.core op], h, List.forall_mem_singleton.mpr rfl⟩

/-- What is issued from one encoder to the next is issued in that order. -/
theorem trans (hef : IntegerCalls e f) (hfg : IntegerCalls f g) : IntegerCalls e g := by
  obtain ⟨first, hfirst, hcore⟩ := hef
  obtain ⟨second, hsecond, hcore'⟩ := hfg
  refine ⟨first ++ second, ?_, List.forall_mem_append.mpr ⟨hcore, hcore'⟩⟩
  rw [hsecond, hfirst, List.append_assoc]

/-- A move without rationals is a core operation, also where a variable is created. -/
theorem move (h : Encoder.Move e f) (hr : e.capabilities.rationals = false) :
    IntegerCalls e f := by
  have hsort : ∀ {sort : SolverSort}, (sort = .real → e.capabilities.rationals = true) →
      sort ≠ .real := fun hreal hsort => absurd (hr.symm.trans (hreal hsort)) nofun
  cases h with
  | core op _ => exact .core rfl
  | rational op _ hrational => exact absurd (hr.symm.trans hrational) nofun
  | create v sort x _ hreal _ =>
    obtain ⟨op, hop⟩ := calls_createVariable v.name (hsort hreal) e.backend
    exact .core hop
  | fail name sort err hreal _ =>
    obtain ⟨op, hop⟩ := calls_createVariable name (hsort hreal) e.backend
    exact .core hop

/-- Without rationals, moves ask for no operation on them. -/
theorem moves (h : Encoder.Moves e f) (hr : e.capabilities.rationals = false) :
    IntegerCalls e f := by
  induction h with
  | refl => exact .of_eq rfl
  | tail hmoves hmove ih =>
    refine ih.trans (.move hmove ?_)
    rw [Encoder.Moves.capabilities_eq hmoves, hr]

end IntegerCalls

/-! ## Sessions -/

/-- No operation changes what a backend reports. -/
structure Backend.Steady (B : Backend) : Prop where
  core : ∀ {s : SolverSort} (op : CoreOp B.Obj s) (b : B.State),
    B.capabilities (B.core op b).state = B.capabilities b
  rational : ∀ {s : SolverSort} (op : RationalOp B.Obj s) (b : B.State),
    B.capabilities ((B.rational op).run b).state = B.capabilities b

/-- A recording backend reports what it was made with. -/
theorem steady_recording : Recording.backend.Steady where
  core _ _ := rfl
  rational _ _ := rfl

/-- An encoder knows the capabilities of its backend. -/
theorem Backend.Steady.capabilities_takeAll (hB : B.Steady) (turns : List (Turn B.traced))
    (backend : Traced B) (options : Options) :
    let reached := (Session.takeAll turns (.start backend options)).state.encoder
    reached.capabilities = B.capabilities reached.backend.state :=
  Session.capabilities_takeAll (B := B.traced) (Q := fun c b => c = B.capabilities b.state)
    (fun op b hb => hb.trans (hB.core op b.state).symm)
    (fun op b hb => hb.trans (hB.rational op b.state).symm) (fun _ => rfl) turns backend options

/-- However a session has gone, its encoder knows the capabilities of its backend, if the operations
of the backend do not change them.  While these exclude rationals, no step asks for an operation on
rationals, no term is answered with a rational, and only a comparison of held numerals fails for the
sort of an operand.  It does so if one of them is a rational, and it changes nothing. -/
theorem rationals_never_reached (backend : Traced B) (options : Options)
    (turns : List (Turn B.traced)) :
    let reached := (Session.takeAll turns (.start backend options)).state
    (B.Steady → reached.encoder.capabilities = B.capabilities reached.encoder.backend.state) ∧
    (reached.encoder.capabilities.rationals = false →
      (∀ step : Step, step.Plain →
        IntegerCalls reached.encoder (Session.perform step reached).state.encoder ∧
        ∀ expected found,
          (Session.perform step reached).value = .error (.incompatibleOperand expected found) →
          ∃ c l r m n, step = .compare c l r ∧
            reached.held[l]?.bind Object.toNumeral? = some m ∧
            reached.held[r]?.bind Object.toNumeral? = some n ∧
            (m.isRational || n.isRational) = true) ∧
      (∀ t n, ((Encoder.encodeTerm t).run reached.encoder).value = .ok n → n.isRational = false) ∧
      ∀ c m n, (m.isRational || n.isRational) = true →
        (Encoder.compareNumerals c m n).run reached.encoder =
          ⟨.error (.incompatibleOperand .int .real), reached.encoder, []⟩) := by
  intro reached
  refine ⟨fun hB => hB.capabilities_takeAll turns backend options,
    fun hr => ⟨fun step hstep => ⟨?_, ?_⟩, fun t n => Encoder.isRational_encodeTerm hr,
      fun c m n => Encoder.run_compareNumerals_rational hr c⟩⟩
  · rcases Session.moves_perform hstep with hmoves | ⟨allow, heq⟩
    · exact .moves hmoves hr
    · rw [heq]
      exact .of_eq rfl
  · exact fun expected found => Session.compared_of_incompatible hr hstep

/-- A rational that is declared with rationals, and then a backend without them. -/
def rationalsGone : List (Turn Recording.backend.traced) :=
  [.step (.declare ⟨"r", .double⟩), .rebind ⟨.empty ⟨false⟩, []⟩]

/-- A sum of whole numbers over the registered rational. -/
def sumOverRational : Term :=
  .app .add [.var ⟨"n", .integer⟩, .var ⟨"r", .double⟩] .integer

theorem rationals_never_reached_rebound :
    let reached := (Session.takeAll rationalsGone (.start ⟨.empty, []⟩ {})).state
    Recording.backend.Steady ∧
    reached.encoder.capabilities =
      Recording.backend.capabilities reached.encoder.backend.state ∧
    reached.encoder.capabilities.rationals = false ∧
    reached.held[0]?.bind Object.toNumeral? = some (.rational (0 : Nat)) ∧
    (Encoder.compareNumerals .equals (.rational (0 : Nat)) (.rational (0 : Nat))).run
        reached.encoder =
      ⟨.error (.incompatibleOperand .int .real), reached.encoder, []⟩ ∧
    IntegerCalls reached.encoder
      (Session.perform (.encodeTerm sumOverRational) reached).state.encoder := by
  intro reached
  obtain ⟨hknown, hwithout⟩ :=
    rationals_never_reached (B := Recording.backend) ⟨.empty, []⟩ {} rationalsGone
  obtain ⟨hsteps, _, hcompare⟩ := hwithout rfl
  refine ⟨steady_recording, hknown steady_recording, rfl, rfl, hcompare .equals _ _ rfl,
    (hsteps (.encodeTerm sumOverRational) ?_).1⟩
  trivial

end SmtEncoding
