import SmtEncoding.Encoder.Formulas
import SmtEncoding.Proofs.Operation
import SmtEncoding.Proofs.Registry

/-!
# Simulations

Two runs are compared by a `Correspondence`: a relation of their states, and for each pair of
states a relation of their objects.  Two actions are in step (`InStep`) if from corresponding
states they reach corresponding states, keep objects corresponding that were so before, and either
both fail with the same error or both answer with corresponding values.

A `Simulation` between two backends is a correspondence under which every operation is in step.
An encoder does nothing to its backend but carry out operations, so encoders over two backends in
simulation are in step whatever they encode: `inStep_encodeTerm` and `inStep_encode`, by
induction on the term and on the formula, and `inStep_declare`.

A simulation is indexed by the condition under which it covers rational operations.  An encoder
carries them out only if its capabilities include rationals, so it is enough that these imply the
condition.
-/

namespace SmtEncoding

variable {σ τ α β γ δ : Type} {O P : SolverSort → Type}

/-! ## Correspondences -/

/-- A relation of the states of two runs and of their objects in given states. -/
structure Correspondence (σ τ : Type) (O P : SolverSort → Type) where
  /-- When two states correspond. -/
  state : σ → τ → Prop
  /-- When two objects of a sort correspond in given states. -/
  obj : σ → τ → (s : SolverSort) → O s → P s → Prop

/-- Objects that correspond in the first two states correspond in the last two. -/
def Correspondence.Keeps (R : Correspondence σ τ O P) (s : σ) (t : τ) (s' : σ) (t' : τ) : Prop :=
  ∀ sort x y, R.obj s t sort x y → R.obj s' t' sort x y

theorem Correspondence.Keeps.refl (R : Correspondence σ τ O P) (s : σ) (t : τ) :
    R.Keeps s t s t := fun _ _ _ h => h

theorem Correspondence.Keeps.trans {R : Correspondence σ τ O P} {s s' s'' : σ} {t t' t'' : τ}
    (first : R.Keeps s t s' t') (second : R.Keeps s' t' s'' t'') : R.Keeps s t s'' t'' :=
  fun sort x y h => second sort x y (first sort x y h)

/-- Both succeed with related values, or both fail with the same error. -/
inductive SameOutcome (V : α → β → Prop) : Except EncodeError α → Except EncodeError β → Prop where
  | ok {a : α} {b : β} : V a b → SameOutcome V (.ok a) (.ok b)
  | error (e : EncodeError) : SameOutcome V (.error e) (.error e)

/-- Outcomes that are related closely are related more loosely. -/
theorem SameOutcome.mono {V W : α → β → Prop} (hVW : ∀ a b, V a b → W a b)
    {x : Except EncodeError α} {y : Except EncodeError β} (h : SameOutcome V x y) :
    SameOutcome W x y := by
  cases h with
  | ok h => exact .ok (hVW _ _ h)
  | error e => exact .error e

/-- Two actions reach corresponding states with the same outcome. -/
structure InStep (R : Correspondence σ τ O P) (V : σ → τ → α → β → Prop) (s : σ) (t : τ)
    (f : Action σ α) (g : Action τ β) : Prop where
  /-- The states that are reached correspond. -/
  state : R.state (f.run s).state (g.run t).state
  /-- Older objects still correspond. -/
  keeps : R.Keeps s t (f.run s).state (g.run t).state
  /-- The outcomes are the same. -/
  outcome : SameOutcome (V (f.run s).state (g.run t).state) (f.run s).value (g.run t).value

namespace InStep

variable {R : Correspondence σ τ O P} {V : σ → τ → α → β → Prop} {W : σ → τ → γ → δ → Prop}
  {s : σ} {t : τ}

theorem pure (h : R.state s t) {a : α} {b : β} (hv : V s t a b) :
    InStep R V s t (pure a) (pure b) :=
  ⟨h, .refl R s t, .ok hv⟩

theorem throw (h : R.state s t) (e : EncodeError) : InStep R V s t (throw e) (throw e) :=
  ⟨h, .refl R s t, .error e⟩

theorem ofExcept (h : R.state s t) {r : Except EncodeError α} {r' : Except EncodeError β}
    (hr : SameOutcome (V s t) r r') : InStep R V s t (Action.ofExcept r) (Action.ofExcept r') :=
  ⟨h, .refl R s t, hr⟩

/-- Actions in step may be followed by actions that are in step wherever the first ones lead. -/
theorem bind {f : Action σ α} {g : Action τ β} {k : α → Action σ γ} {l : β → Action τ δ}
    (h : InStep R V s t f g)
    (hk : ∀ {s' t' a b}, R.state s' t' → R.Keeps s t s' t' → V s' t' a b →
      InStep R W s' t' (k a) (l b)) : InStep R W s t (f >>= k) (g >>= l) := by
  have houtcome := h.outcome
  generalize hf : (f.run s).value = u, hg : (g.run t).value = v at houtcome
  cases houtcome with
  | @ok a b hv =>
    have hnext := hk h.state h.keeps hv
    refine ⟨?_, ?_, ?_⟩ <;> rw [Action.run_bind_of_ok hf, Action.run_bind_of_ok hg]
    · exact hnext.state
    · exact h.keeps.trans hnext.keeps
    · exact hnext.outcome
  | error e =>
    refine ⟨?_, ?_, ?_⟩ <;> rw [Action.run_bind_of_error hf, Action.run_bind_of_error hg]
    · exact h.state
    · exact h.keeps
    · exact .error e

theorem map {f : Action σ α} {g : Action τ β} {φ : α → γ} {ψ : β → δ} (h : InStep R V s t f g)
    (hv : ∀ {s' t' a b}, V s' t' a b → W s' t' (φ a) (ψ b)) :
    InStep R W s t (φ <$> f) (ψ <$> g) := by
  rw [map_eq_pure_bind, map_eq_pure_bind]
  exact h.bind fun hs _ ha => .pure hs (hv ha)

theorem modify {φ : σ → σ} {ψ : τ → τ} (h : R.state (φ s) (ψ t)) (hk : R.Keeps s t (φ s) (ψ t)) :
    InStep R (fun _ _ _ _ => True) s t (modify φ) (modify ψ) := by
  refine ⟨?_, ?_, ?_⟩ <;> rw [Action.run_modify, Action.run_modify]
  · exact h
  · exact hk
  · exact .ok trivial

theorem get_bind {k : σ → Action σ γ} {l : τ → Action τ δ} (h : InStep R W s t (k s) (l t)) :
    InStep R W s t (get >>= k) (get >>= l) := by
  refine ⟨?_, ?_, ?_⟩ <;> rw [Action.run_get_bind, Action.run_get_bind]
  · exact h.state
  · exact h.keeps
  · exact h.outcome

/-- The logs of the two runs are not compared. -/
theorem note_bind {e : LogEvent} {k : PUnit → Action σ γ} {l : PUnit → Action τ δ}
    (h : InStep R W s t (k ⟨⟩) (l ⟨⟩)) :
    InStep R W s t (Action.note e >>= k) (Action.note e >>= l) := by
  refine ⟨?_, ?_, ?_⟩ <;> rw [Action.run_note_bind, Action.run_note_bind]
  · exact h.state
  · exact h.keeps
  · exact h.outcome

end InStep

/-- Entries that agree but for related values give related values for the same key. -/
theorem lookup_rel {κ : Type} [BEq κ] {Q : α → β → Prop} {ps : List (κ × α)} {qs : List (κ × β)}
    (h : List.Forall₂ (fun p q => p.1 = q.1 ∧ Q p.2 q.2) ps qs) (k : κ) :
    Option.Rel Q (ps.lookup k) (qs.lookup k) := by
  induction h with
  | nil => exact .none
  | @cons p q ps qs hpq _ ih =>
    obtain ⟨l, x⟩ := p
    obtain ⟨m, y⟩ := q
    obtain ⟨rfl, hxy⟩ := hpq
    rw [List.lookup_cons, List.lookup_cons]
    dsimp only
    cases k == l with
    | true => exact .some hxy
    | false => exact ih

/-- The registered variables of an encoder, each with the sort of its object. -/
def Encoder.registeredSorts {B : Backend} (e : Encoder B) : List (Variable × SolverSort) :=
  e.registry.entries.map fun p => (p.1, p.2.sort)

/-! ## Simulations of backends -/

/-- A correspondence of two backends under which every operation is in step, the rational ones
under a condition. -/
structure Simulation (B C : Backend) (rationals : Prop) extends
    Correspondence B.State C.State B.Obj C.Obj where
  /-- Corresponding states have the same capabilities. -/
  capabilities : ∀ {b c}, state b c → B.capabilities b = C.capabilities c
  /-- Core operations on corresponding operands are in step. -/
  core : ∀ {b c} {s : SolverSort} {op : CoreOp B.Obj s} {op' : CoreOp C.Obj s}, state b c →
    CoreOp.Rel (obj b c) op op' →
      InStep toCorrespondence (obj · · s) b c (ExceptT.lift (B.core op)) (ExceptT.lift (C.core op'))
  /-- Rational operations on corresponding operands are in step. -/
  rational : rationals → ∀ {b c} {s : SolverSort} {op : RationalOp B.Obj s}
    {op' : RationalOp C.Obj s}, state b c → RationalOp.Rel (obj b c) op op' →
      InStep toCorrespondence (obj · · s) b c (B.rational op) (C.rational op')

namespace Simulation

variable {B C : Backend} {rationals : Prop} (R : Simulation B C rationals)

/-- Two encoders over corresponding backends that agree but for their objects. -/
structure Encoders (e : Encoder B) (f : Encoder C) : Prop where
  /-- The backends correspond. -/
  backend : R.state e.backend f.backend
  /-- The capabilities are the same. -/
  capabilities : e.capabilities = f.capabilities
  /-- Rational operations are covered if the encoders may use them. -/
  covered : e.capabilities.rationals = true → rationals
  /-- The options are the same. -/
  options : e.options = f.options
  /-- The same variables are registered, in the same order, with corresponding objects. -/
  registry : List.Forall₂
    (fun p q => p.1 = q.1 ∧ Object.Rel (R.obj e.backend f.backend) p.2 q.2)
    e.registry.entries f.registry.entries

/-- The correspondence of encoders over corresponding backends. -/
def encoders : Correspondence (Encoder B) (Encoder C) B.Obj C.Obj where
  state := R.Encoders
  obj e f := R.obj e.backend f.backend

variable {R} {e : Encoder B} {f : Encoder C}

/-! ### Operations and variables -/

/-- Encoders stay related while their backends go on in step. -/
theorem Encoders.mono (h : R.Encoders e f) {b : B.State} {c : C.State} (hs : R.state b c)
    (hk : R.Keeps e.backend f.backend b c) :
    R.Encoders { e with backend := b } { f with backend := c } :=
  ⟨hs, h.capabilities, h.covered, h.options, h.registry.imp fun _ _ hpq => ⟨hpq.1, hpq.2.mono hk⟩⟩

/-- Related encoders have the same variables under the same sorts. -/
theorem Encoders.registeredSorts (h : R.Encoders e f) : e.registeredSorts = f.registeredSorts := by
  have hentries := h.registry
  unfold Encoder.registeredSorts
  generalize e.registry.entries = ps, f.registry.entries = qs at hentries
  induction hentries with
  | nil => rfl
  | cons hpq _ ih => rw [List.map_cons, List.map_cons, hpq.1, hpq.2.sort_eq, ih]

theorem Encoders.registered (h : R.Encoders e f) :
    e.registry.registered = f.registry.registered := by
  have hsorts := congrArg (List.map Prod.fst) h.registeredSorts
  rwa [Encoder.registeredSorts, Encoder.registeredSorts, List.map_map, List.map_map] at hsorts

/-- What is in step on the backends is in step on the encoders. -/
theorem inStep_onBackend (h : R.Encoders e f) {V : B.State → C.State → α → β → Prop}
    {a : Action B.State α} {b : Action C.State β}
    (hab : InStep R.toCorrespondence V e.backend f.backend a b) :
    InStep R.encoders (fun e f => V e.backend f.backend) e f
      (Encoder.onBackend a) (Encoder.onBackend b) :=
  ⟨h.mono hab.state hab.keeps, hab.keeps, hab.outcome⟩

/-- Core operations on corresponding operands are in step. -/
theorem inStep_core (h : R.Encoders e f) {s : SolverSort} {op : CoreOp B.Obj s}
    {op' : CoreOp C.Obj s} (hop : CoreOp.Rel (R.obj e.backend f.backend) op op') :
    InStep R.encoders (R.encoders.obj · · s) e f (Encoder.core op) (Encoder.core op') :=
  inStep_onBackend h (R.core h.backend hop)

/-- Rational operations on corresponding operands are in step, where they are covered. -/
theorem inStep_rational (h : R.Encoders e f) (hr : rationals) {s : SolverSort}
    {op : RationalOp B.Obj s} {op' : RationalOp C.Obj s}
    (hop : RationalOp.Rel (R.obj e.backend f.backend) op op') :
    InStep R.encoders (R.encoders.obj · · s) e f (Encoder.rational op) (Encoder.rational op') :=
  inStep_onBackend h (R.rational hr h.backend hop)

/-- Operations on corresponding operands build corresponding objects. -/
theorem inStep_build {b : B.State} {c : C.State} (h : R.state b c) (hr : rationals)
    {op : Operation B.Obj} {op' : Operation C.Obj} (hop : Operation.Rel (R.obj b c) op op') :
    InStep R.toCorrespondence (fun b c => Object.Rel (R.obj b c)) b c
      (B.build op) (C.build op') := by
  cases hop with
  | core hop => exact (R.core h hop).map .mk
  | rational hop => exact (R.rational hr h hop).map .mk

/-- If rationals are there, rational operations are covered. -/
theorem inStep_requireRationals (h : R.Encoders e f) :
    InStep R.encoders (fun _ _ _ _ => rationals) e f
      Encoder.requireRationals Encoder.requireRationals := by
  refine InStep.get_bind (.ofExcept h ?_)
  rw [h.capabilities.symm]
  cases hr : e.capabilities.rationals with
  | true =>
    simp only [Capabilities.requireRationals, Capabilities.require, Capabilities.supports, hr]
    exact .ok (h.covered hr)
  | false =>
    simp only [Capabilities.requireRationals, Capabilities.require, Capabilities.supports, hr]
    exact .error _

/-- Variables of one name and sort are created in step. -/
theorem inStep_createVariable {b : B.State} {c : C.State} (h : R.state b c) (name : String)
    {sort : SolverSort} (hr : sort = .real → rationals) :
    InStep R.toCorrespondence (R.obj · · sort) b c
      (B.createVariable name sort) (C.createVariable name sort) := by
  cases sort with
  | bool => exact R.core h (.boolVar name)
  | int => exact R.core h (.intVar name)
  | real => exact R.rational (hr rfl) h (.var name)

/-- A variable is registered in both encoders, with corresponding objects, or in neither. -/
theorem Encoders.get? (h : R.Encoders e f) (v : Variable) :
    Option.Rel (Object.Rel (R.obj e.backend f.backend)) (e.registry.get? v)
      (f.registry.get? v) :=
  lookup_rel h.registry v

/-- A variable is registered in both encoders or in neither, and is looked up or created in step. -/
theorem inStep_resolve (h : R.Encoders e f) (sort : SolverSort) (hr : sort = .real → rationals)
    (allow : Bool) (v : Variable) :
    InStep R.encoders (R.encoders.obj · · sort) e f
      (Encoder.resolve allow sort v) (Encoder.resolve allow sort v) := by
  -- Either both sides find the variable, or neither does and both do what the options say.
  have hget := h.get? v
  generalize he : e.registry.get? v = o, hf : f.registry.get? v = o' at hget
  cases hget with
  | @some o o' ho =>
    refine ⟨?_, ?_, ?_⟩ <;>
      rw [Encoder.run_resolve_registered he, Encoder.run_resolve_registered hf]
    · exact h
    · exact .refl R.encoders e f
    · have has := ho.as? sort
      generalize hx : o.as? sort = x, hy : o'.as? sort = y at has
      cases has with
      | some hxy => exact .ok hxy
      | none =>
        rw [ho.sort_eq]
        exact .error _
  | none =>
    cases allow with
    | false =>
      refine ⟨?_, ?_, ?_⟩ <;> rw [Encoder.run_resolve_refused he, Encoder.run_resolve_refused hf]
      · exact h
      · exact .refl R.encoders e f
      · exact .error _
    | true =>
      have hcreate := inStep_createVariable h.backend v.name hr
      have houtcome := hcreate.outcome
      have hnext := h.mono hcreate.state hcreate.keeps
      generalize hx : ((B.createVariable v.name sort).run e.backend).value = x,
        hy : ((C.createVariable v.name sort).run f.backend).value = y at houtcome
      cases houtcome with
      | ok hxy =>
        refine ⟨?_, ?_, ?_⟩ <;>
          rw [Encoder.run_resolve_created he hx, Encoder.run_resolve_created hf hy]
        · exact ⟨hnext.backend, hnext.capabilities, hnext.covered, hnext.options,
            List.rel_append hnext.registry (.cons ⟨rfl, .mk hxy⟩ .nil)⟩
        · exact hcreate.keeps
        · exact .ok hxy
      | error error =>
        refine ⟨?_, ?_, ?_⟩ <;>
          rw [Encoder.run_resolve_failed he hx, Encoder.run_resolve_failed hf hy]
        · exact hnext
        · exact hcreate.keeps
        · exact .error error

/-! ### Terms -/

/-- Corresponding numerals of two encoders. -/
def numerals (R : Simulation B C rationals) (e : Encoder B) (f : Encoder C) :
    Numeral B.Obj → Numeral C.Obj → Prop :=
  Numeral.Rel (R.obj e.backend f.backend)

theorem inStep_resolveNumeral (h : R.Encoders e f) (allow : Bool) (v : Variable) :
    InStep R.encoders R.numerals e f
      (Encoder.resolveNumeral allow v) (Encoder.resolveNumeral allow v) := by
  unfold Encoder.resolveNumeral
  cases v.type with
  | bool => exact .throw h _
  | integer => exact (inStep_resolve h .int nofun allow v).map .integer
  | double =>
    refine (inStep_requireRationals h).bind fun h' _ hr => ?_
    exact (inStep_resolve h' .real (fun _ => hr) allow v).map .rational

theorem inStep_encodeConstant (h : R.Encoders e f) (c : Constant) :
    InStep R.encoders R.numerals e f (Encoder.encodeConstant c) (Encoder.encodeConstant c) := by
  cases c with
  | integer n => exact (inStep_core h (.intConstant n)).map .integer
  | double x =>
    simp only [Encoder.encodeConstant]
    refine (inStep_requireRationals h).bind fun h' _ hr => ?_
    cases x.toRat? with
    | none => exact .throw h' _
    | some q => exact (inStep_rational h' hr (.constant q)).map .rational

theorem inStep_expectInteger (h : R.Encoders e f) {m : Numeral B.Obj} {n : Numeral C.Obj}
    (hn : R.numerals e f m n) :
    InStep R.encoders (R.encoders.obj · · .int) e f
      (Action.ofExcept (Encoder.expectInteger m)) (Action.ofExcept (Encoder.expectInteger n)) := by
  refine .ofExcept h ?_
  cases hn with
  | integer hn => exact .ok hn
  | rational _ => exact .error _

theorem inStep_expectIntegers (h : R.Encoders e f) {ms : List (Numeral B.Obj)}
    {ns : List (Numeral C.Obj)} (hs : List.Forall₂ (R.numerals e f) ms ns) :
    InStep R.encoders (fun e f => List.Forall₂ (R.encoders.obj e f .int)) e f
      (Action.ofExcept (Encoder.expectIntegers ms))
      (Action.ofExcept (Encoder.expectIntegers ns)) := by
  refine .ofExcept h ?_
  induction hs with
  | nil => exact .ok .nil
  | @cons m n ms ns hm _ ih =>
    unfold Encoder.expectIntegers
    cases hm with
    | rational _ => exact .error _
    | integer hm =>
      generalize Encoder.expectIntegers ms = u, Encoder.expectIntegers ns = v at ih
      cases ih with
      | ok hs => exact .ok (.cons hm hs)
      | error error => exact .error error

/-- A function is applied to corresponding numerals in step. -/
theorem inStep_applyFunction (h : R.Encoders e f) (k : FunctionKind) (type : ValueType)
    {ms : List (Numeral B.Obj)} {ns : List (Numeral C.Obj)}
    (hs : List.Forall₂ (R.numerals e f) ms ns) :
    InStep R.encoders R.numerals e f
      (Encoder.applyFunction k ms type) (Encoder.applyFunction k ns type) := by
  cases type with
  | bool => exact .throw h _
  | integer =>
    refine (inStep_expectIntegers h hs).bind fun h' _ hxs => ?_
    cases k with
    | add => exact (inStep_core h' (.intAdd hxs)).map .integer
    | multiply => exact (inStep_core h' (.intMultiply hxs)).map .integer
    | divide => exact .throw h' _
  | double =>
    refine (inStep_requireRationals h).bind fun h' hk hr => ?_
    have hs' := hs.imp fun _ _ hmn => Numeral.Rel.mono hk hmn
    cases k with
    | add => exact (inStep_rational h' hr (.add hs')).map .rational
    | multiply => exact (inStep_rational h' hr (.multiply hs')).map .rational
    | divide => exact .throw h' _

mutual

/-- Terms are encoded in step. -/
theorem inStep_encodeTerm {e : Encoder B} {f : Encoder C} (h : R.Encoders e f) :
    ∀ t : Term, InStep R.encoders R.numerals e f (Encoder.encodeTerm t) (Encoder.encodeTerm t)
  | .constant c => by
    simp only [Encoder.encodeTerm]
    exact inStep_encodeConstant h c
  | .var v => by
    simp only [Encoder.encodeTerm]
    refine InStep.get_bind ?_
    rw [h.options]
    exact inStep_resolveNumeral h _ v
  | .app k args type => by
    simp only [Encoder.encodeTerm]
    exact (inStep_encodeTerms h args).bind fun h' _ hs => inStep_applyFunction h' k type hs

theorem inStep_encodeTerms {e : Encoder B} {f : Encoder C} (h : R.Encoders e f) :
    ∀ ts : List Term, InStep R.encoders (fun e f => List.Forall₂ (R.numerals e f)) e f
      (Encoder.encodeTerms ts) (Encoder.encodeTerms ts)
  | [] => by
    simp only [Encoder.encodeTerms]
    exact .pure h .nil
  | t :: ts => by
    simp only [Encoder.encodeTerms]
    refine (inStep_encodeTerm h t).bind fun h' _ hn => ?_
    refine (inStep_encodeTerms h' ts).bind fun h'' hk hns => ?_
    exact .pure h'' (.cons (Numeral.Rel.mono hk hn) hns)

end

/-! ### Formulas -/

/-- Corresponding numerals are compared in step. -/
theorem inStep_compareNumerals (h : R.Encoders e f) (c : Comparison)
    {l r : Numeral B.Obj} {l' r' : Numeral C.Obj} (hl : R.numerals e f l l')
    (hr : R.numerals e f r r') :
    InStep R.encoders (R.encoders.obj · · .bool) e f
      (Encoder.compareNumerals c l r) (Encoder.compareNumerals c l' r') := by
  -- Related numerals have one sort each, so both sides take the same branch.
  refine InStep.get_bind ?_
  rw [hl.isRational, hr.isRational, ← h.capabilities]
  split
  · rename_i hrational
    rw [Bool.and_eq_true] at hrational
    exact inStep_rational h (h.covered hrational.2) (.compare c hl hr)
  · refine (inStep_expectInteger h hl).bind fun h' hk hx => ?_
    refine (inStep_expectInteger h' (hr.mono hk)).bind fun h'' hk' hy => ?_
    exact inStep_core h'' (.intCompare c (hk' _ _ _ hx) hy)

theorem inStep_checkTerm (h : R.Encoders e f) (t : Term) :
    InStep R.encoders (fun _ _ _ _ => True) e f (Encoder.checkTerm t) (Encoder.checkTerm t) := by
  refine InStep.get_bind (.ofExcept h ?_)
  rw [h.capabilities]
  cases f.capabilities.checkTerm t with
  | ok _ => exact .ok trivial
  | error error => exact .error error

theorem inStep_encodeComparison (h : R.Encoders e f) (c : Comparison) (l r : Term) :
    InStep R.encoders (R.encoders.obj · · .bool) e f
      (Encoder.encodeComparison c l r) (Encoder.encodeComparison c l r) := by
  refine (inStep_checkTerm h l).bind fun h _ _ => ?_
  refine (inStep_checkTerm h r).bind fun h _ _ => ?_
  refine (inStep_encodeTerm h l).bind fun h _ hl => ?_
  refine (inStep_encodeTerm h r).bind fun h hk hr => ?_
  exact inStep_compareNumerals h c (hl.mono hk) hr

theorem inStep_encodeLiteral (h : R.Encoders e f) (v : Variable) (positive : Bool) :
    InStep R.encoders (R.encoders.obj · · .bool) e f
      (Encoder.encodeLiteral v positive) (Encoder.encodeLiteral v positive) := by
  refine InStep.get_bind ?_
  rw [h.options]
  refine (inStep_resolve h .bool nofun _ v).bind fun h' _ hx => ?_
  cases positive with
  | true => exact .pure h' hx
  | false => exact inStep_core h' (.not hx)

theorem inStep_refuse (h : R.Encoders e f) (kind : NodeKind) :
    InStep R.encoders (R.encoders.obj · · .bool) e f (Encoder.refuse kind) (Encoder.refuse kind) :=
  .note_bind (.throw h _)

mutual

/-- Formulas are encoded in step. -/
theorem inStep_encode {e : Encoder B} {f : Encoder C} (h : R.Encoders e f) :
    ∀ x : Expr, InStep R.encoders (R.encoders.obj · · .bool) e f
      (Encoder.encode x) (Encoder.encode x)
  | .constant value => by
    simp only [Encoder.encode]
    exact .note_bind (inStep_core h (.boolConstant value))
  | .not x => by
    simp only [Encoder.encode]
    exact .note_bind ((inStep_encode h x).bind fun h' _ hx => inStep_core h' (.not hx))
  | .and xs => by
    simp only [Encoder.encode]
    exact .note_bind ((inStep_encodeAll h xs).bind fun h' _ hs => inStep_core h' (.and hs))
  | .or xs => by
    simp only [Encoder.encode]
    exact .note_bind ((inStep_encodeAll h xs).bind fun h' _ hs => inStep_core h' (.or hs))
  | .implies l r => by
    simp only [Encoder.encode]
    refine .note_bind ((inStep_encode h l).bind fun h' _ hl => ?_)
    refine (inStep_encode h' r).bind fun h'' hk hr => ?_
    exact inStep_core h'' (.implies (hk _ _ _ hl) hr)
  | .iff l r => by
    simp only [Encoder.encode]
    refine .note_bind ((inStep_encode h l).bind fun h' _ hl => ?_)
    refine (inStep_encode h' r).bind fun h'' hk hr => ?_
    exact inStep_core h'' (.iff (hk _ _ _ hl) hr)
  | .literal v positive => by
    simp only [Encoder.encode]
    exact .note_bind (inStep_encodeLiteral h v positive)
  | .compare c l r => by
    simp only [Encoder.encode]
    exact .note_bind (inStep_encodeComparison h c l r)
  | .atLeast _ _ => by
    simp only [Encoder.encode]
    exact inStep_refuse h _
  | .atMost _ _ => by
    simp only [Encoder.encode]
    exact inStep_refuse h _
  | .between _ _ _ => by
    simp only [Encoder.encode]
    exact inStep_refuse h _
  | .choose _ _ => by
    simp only [Encoder.encode]
    exact inStep_refuse h _
  | .exist _ _ => by
    simp only [Encoder.encode]
    exact inStep_refuse h _
  | .forAll _ _ => by
    simp only [Encoder.encode]
    exact inStep_refuse h _

theorem inStep_encodeAll {e : Encoder B} {f : Encoder C} (h : R.Encoders e f) :
    ∀ xs : List Expr, InStep R.encoders (fun e f => List.Forall₂ (R.encoders.obj e f .bool)) e f
      (Encoder.encodeAll xs) (Encoder.encodeAll xs)
  | [] => by
    simp only [Encoder.encodeAll]
    exact .pure h .nil
  | x :: xs => by
    simp only [Encoder.encodeAll]
    refine (inStep_encode h x).bind fun h' _ hx => ?_
    refine (inStep_encodeAll h' xs).bind fun h'' hk hxs => ?_
    exact .pure h'' (.cons (hk _ _ _ hx) hxs)

end

/-! ### Declarations -/

/-- Variables are declared in step. -/
theorem inStep_declare (h : R.Encoders e f) (v : Variable) :
    InStep R.encoders (fun e f => Object.Rel (R.obj e.backend f.backend)) e f
      (Encoder.declare v) (Encoder.declare v) := by
  unfold Encoder.declare
  cases v.type with
  | bool => exact (inStep_resolve h .bool nofun true v).map .mk
  | integer => exact (inStep_resolveNumeral h true v).map Numeral.Rel.toObject
  | double => exact (inStep_resolveNumeral h true v).map Numeral.Rel.toObject

end Simulation

end SmtEncoding
