import SmtEncoding.Proofs.VariableSorts
import SmtEncoding.Proofs.Verdict

/-!
# Occurrences of variables

Which variables a formula looks up, in which order and under which sorts, is read off the formula
(`Expr.uses`), and so is whatever else may stand against it.  The walk of the rules therefore either
fails whatever is known, or it succeeds exactly if these uses can be met one after another
(`Meets.judge`).

Uses that have been met once can be met again, whether variables are created or not, and nothing
new is known then (`Meets.again`).  They can also be met from the start if variables are created
(`Meets.afresh`).  If each variable is used under the sort of its declared type, what is known in
the end are the variables in the order of their first occurrences (`Meets.typed`).
-/

namespace SmtEncoding

/-! ## Meeting uses -/

/-- What is known after a walk, if it succeeds. -/
def settled? (walk : Action KnownSorts Unit) (known : KnownSorts) : Option KnownSorts :=
  match (walk.run known).value with
  | .ok _ => some (walk.run known).state
  | .error _ => none

/-- What is known after the use of a variable, if the sort is that of a known one. -/
def meet? (creation : Bool) (known : KnownSorts) (use : Variable × SolverSort) :
    Option KnownSorts :=
  match known.lookup use.1 with
  | some found => if found = use.2 then some known else none
  | none => if creation then some (known ++ [use]) else none

/-- What is known after uses, one after another. -/
def meetAll? (creation : Bool) (known : KnownSorts) (uses : List (Variable × SolverSort)) :
    Option KnownSorts :=
  uses.foldlM (meet? creation) known

/-- The known variables are known later too, with their sorts. -/
def KnownSorts.Within (known later : KnownSorts) : Prop :=
  ∀ v sort, known.lookup v = some sort → later.lookup v = some sort

theorem KnownSorts.Within.refl (known : KnownSorts) : known.Within known := fun _ _ h => h

theorem KnownSorts.Within.nil (later : KnownSorts) : KnownSorts.Within [] later := by
  intro v sort h
  rw [List.lookup_nil] at h
  cases h

theorem KnownSorts.Within.append (known more : KnownSorts) : known.Within (known ++ more) := by
  intro v sort h
  rw [List.lookup_append, h, Option.some_or]

section Meet

variable {creation : Bool} {known later : KnownSorts} {use : Variable × SolverSort}
  {uses : List (Variable × SolverSort)}

theorem meetAll?_cons : meetAll? creation known (use :: uses) =
    (meet? creation known use).bind (meetAll? creation · uses) :=
  List.foldlM_cons

/-- A use under the sort that is known changes nothing. -/
theorem meet?_of_known (h : known.lookup use.1 = some use.2) :
    meet? creation known use = some known := by
  rw [meet?, h]
  exact if_pos rfl

/-- With creation, a variable is known after its first use. -/
theorem meet?_of_unknown (h : known.lookup use.1 = none) :
    meet? true known use = some (known ++ [use]) := by
  rw [meet?, h]
  rfl

theorem lookup_concat (known : KnownSorts) (use : Variable × SolverSort) (v : Variable) :
    (known ++ [use]).lookup v =
      (known.lookup v).or (if v = use.1 then some use.2 else none) := by
  obtain ⟨w, sort⟩ := use
  by_cases h : v = w
  · simp [List.lookup_append, h]
  · simp [List.lookup_append, List.lookup_cons, h, beq_eq_false_iff_ne.mpr h]

/-- A use leaves the known variables as they are, and its own is known after it. -/
theorem meet?_within (h : meet? creation known use = some later) :
    known.Within later ∧ later.lookup use.1 = some use.2 := by
  cases hlookup : known.lookup use.1 with
  | some found =>
    rw [meet?, hlookup] at h
    dsimp only at h
    split at h
    · rename_i hfound
      cases h
      exact ⟨.refl known, hfound ▸ hlookup⟩
    · cases h
  | none =>
    rw [meet?, hlookup] at h
    dsimp only at h
    split at h
    · cases h
      refine ⟨.append known [use], ?_⟩
      rw [lookup_concat, hlookup, Option.none_or, if_pos rfl]
    · cases h

/-- After uses all their variables are known under the sorts that they were used under. -/
theorem meetAll?_within (h : meetAll? creation known uses = some later) :
    known.Within later ∧ ∀ use ∈ uses, later.lookup use.1 = some use.2 := by
  induction uses generalizing known with
  | nil =>
    cases h
    exact ⟨.refl _, List.forall_mem_nil _⟩
  | cons use uses ih =>
    rw [meetAll?_cons] at h
    obtain ⟨next, hnext, h⟩ := Option.bind_eq_some_iff.mp h
    obtain ⟨hfirst, huse⟩ := meet?_within hnext
    obtain ⟨hrest, huses⟩ := ih h
    exact ⟨fun v sort hv => hrest v sort (hfirst v sort hv),
      List.forall_mem_cons.mpr ⟨hrest _ _ huse, huses⟩⟩

/-- After a use nothing is known but what was known before and the use. -/
theorem mem_of_meet? (h : meet? creation known use = some later) {p : Variable × SolverSort}
    (hp : p ∈ later) : p ∈ known ∨ p = use := by
  unfold meet? at h
  split at h <;> split at h <;> cases h
  · exact .inl hp
  · exact (List.mem_append.mp hp).imp_right List.mem_singleton.mp

/-- After uses nothing is known but what was known before and the uses. -/
theorem mem_of_meetAll? (h : meetAll? creation known uses = some later)
    {p : Variable × SolverSort} (hp : p ∈ later) : p ∈ known ∨ p ∈ uses := by
  induction uses generalizing known with
  | nil =>
    cases h
    exact .inl hp
  | cons use uses ih =>
    rw [meetAll?_cons] at h
    obtain ⟨next, hnext, h⟩ := Option.bind_eq_some_iff.mp h
    rcases ih h with hp | hp
    · exact (mem_of_meet? hnext hp).imp_right fun heq => List.mem_cons.mpr (.inl heq)
    · exact .inr (List.mem_cons_of_mem use hp)

/-- Uses that are known leave what is known. -/
theorem meetAll?_of_known (h : ∀ use ∈ uses, known.lookup use.1 = some use.2) :
    meetAll? creation known uses = some known := by
  induction uses with
  | nil => rfl
  | cons use uses ih =>
    obtain ⟨huse, huses⟩ := List.forall_mem_cons.mp h
    rw [meetAll?_cons, meet?_of_known huse, Option.bind_some, ih huses]

/-- Uses that are known in the end can be met with anything less. -/
theorem meetAll?_of_within (h : known.Within later)
    (huses : ∀ use ∈ uses, later.lookup use.1 = some use.2) :
    ∃ next, meetAll? true known uses = some next := by
  induction uses generalizing known with
  | nil => exact ⟨known, rfl⟩
  | cons use uses ih =>
    obtain ⟨huse, huses⟩ := List.forall_mem_cons.mp huses
    rw [meetAll?_cons]
    cases hlookup : known.lookup use.1 with
    | some found =>
      have hfound : found = use.2 := Option.some.inj ((h _ _ hlookup).symm.trans huse)
      rw [meet?_of_known (hfound ▸ hlookup), Option.bind_some]
      exact ih h huses
    | none =>
      rw [meet?_of_unknown hlookup, Option.bind_some]
      refine ih (fun v sort hv => ?_) huses
      rw [lookup_concat] at hv
      rcases Option.or_eq_some_iff.mp hv with hv | ⟨_, hv⟩
      · exact h v sort hv
      · split at hv
        · rename_i hv'
          cases hv
          exact hv' ▸ huse
        · cases hv

/-- Different variables that are not known are known in the end in their order. -/
theorem meetAll?_of_nodup (hnodup : (uses.map Prod.fst).Nodup)
    (h : ∀ use ∈ uses, known.lookup use.1 = none) :
    meetAll? true known uses = some (known ++ uses) := by
  induction uses generalizing known with
  | nil => rw [List.append_nil]; rfl
  | cons use uses ih =>
    obtain ⟨hnew, hnodup⟩ := List.nodup_cons.mp hnodup
    obtain ⟨huse, huses⟩ := List.forall_mem_cons.mp h
    rw [meetAll?_cons, meet?_of_unknown huse, Option.bind_some, ih hnodup, List.append_assoc]
    · rfl
    · intro other hother
      have hne : other.1 ≠ use.1 := fun heq => hnew (heq ▸ List.mem_map_of_mem hother)
      rw [lookup_concat, huses other hother, Option.none_or, if_neg hne]

/-- The variable with the sort of its declared type. -/
def Variable.typed (v : Variable) : Variable × SolverSort := (v, v.type.sort)

theorem removeAll_concat {α : Type} [BEq α] [LawfulBEq α] (xs ys : List α) (y : α) :
    xs.removeAll (ys ++ [y]) = (xs.removeAll ys).filter fun x => !x == y := by
  rw [List.removeAll, List.removeAll, List.filter_filter]
  refine List.filter_congr fun x _ => Bool.eq_iff_iff.mpr ?_
  simp [and_comm, not_or]

/-- If variables are used under the sorts of their declared types, they are known in the end in the
order of their first uses. -/
theorem meetAll?_typed (hknown : ∀ p ∈ known, p.2 = p.1.type.sort)
    (huses : ∀ use ∈ uses, use.2 = use.1.type.sort) :
    meetAll? true known uses =
      some (known ++ (((uses.map Prod.fst).removeAll (known.map Prod.fst)).eraseDups.map
        Variable.typed)) := by
  induction uses generalizing known with
  | nil => simp [meetAll?, List.removeAll]
  | cons use uses ih =>
    obtain ⟨v, sort⟩ := use
    obtain ⟨huse, hrest⟩ := List.forall_mem_cons.mp huses
    obtain rfl : sort = v.type.sort := huse
    rw [meetAll?_cons]
    cases hlookup : known.lookup v with
    | some found =>
      obtain ⟨before, after, hentries, _⟩ := List.lookup_eq_some_iff.mp hlookup
      have hmem : (v, found) ∈ known := hentries ▸ List.mem_append_right _ List.mem_cons_self
      have hv : v ∈ known.map Prod.fst := List.mem_map_of_mem hmem
      have hfound : found = v.type.sort := hknown _ hmem
      rw [meet?_of_known (hfound ▸ hlookup), Option.bind_some, ih hknown hrest]
      simp [List.removeAll, hv]
    | none =>
      have hv : v ∉ known.map Prod.fst := fun hmem => by
        obtain ⟨p, hp, rfl⟩ := List.mem_map.mp hmem
        exact bne_iff_ne.mp (List.lookup_eq_none_iff.mp hlookup p hp) rfl
      rw [meet?_of_unknown hlookup, Option.bind_some, ih _ hrest]
      · have hfilter : (v :: uses.map Prod.fst).removeAll (known.map Prod.fst) =
            v :: (uses.map Prod.fst).removeAll (known.map Prod.fst) := by
          simp [List.removeAll, hv]
        rw [List.map_append, List.map_singleton, removeAll_concat, List.map_cons, hfilter,
          List.eraseDups_cons, List.map_cons, List.append_assoc]
        rfl
      · exact List.forall_mem_append.mpr ⟨hknown, List.forall_mem_singleton.mpr rfl⟩

end Meet

/-! ### Walks -/

section Settled

variable {known : KnownSorts}

theorem settled?_bind (first second : Action KnownSorts Unit) :
    settled? (do first; second) known = (settled? first known).bind (settled? second) := by
  unfold settled?
  cases h : (first.run known).value with
  | ok a =>
    rw [Action.run_bind_of_ok h]
    rfl
  | error err =>
    rw [Action.run_bind_of_error h]
    rfl

theorem settled?_need (condition : Bool) (err : EncodeError) :
    settled? (need condition err) known = if condition then some known else none := by
  cases condition <;> rfl

/-- The walk over one variable settles what its use settles. -/
theorem settled?_meet (creation : Bool) (sort : SolverSort) (v : Variable) :
    settled? (Rules.meet creation sort v) known = meet? creation known (v, sort) := by
  unfold settled? meet?
  cases h : known.lookup v with
  | some found =>
    rw [Rules.run_meet_known h]
    by_cases hfound : found = sort
    · simp only [hfound, if_true]
    · simp only [hfound, if_false]
  | none =>
    rw [Rules.run_meet_unknown h]
    cases creation <;> rfl

end Settled

/-- A walk fails whatever is known, or it succeeds exactly if uses can be met one after another, of
reals only with rationals. -/
def Meets (rationals : Bool) (uses : List (Variable × SolverSort))
    (walk : Bool → Action KnownSorts Unit) : Prop :=
  (∀ creation known, settled? (walk creation) known = none) ∨
    (∀ use ∈ uses, use.2 = .real → rationals = true) ∧
      ∀ creation known, settled? (walk creation) known = meetAll? creation known uses

namespace Meets

variable {rationals : Bool} {uses more : List (Variable × SolverSort)}
  {walk next : Bool → Action KnownSorts Unit}

theorem pure : Meets rationals [] fun _ => pure () := .inr ⟨nofun, fun _ _ => rfl⟩

theorem throw (err : EncodeError) : Meets rationals uses fun _ => throw err :=
  .inl fun _ _ => rfl

/-- Two walks meet the uses of the first one, then those of the second one. -/
theorem bind (h : Meets rationals uses walk) (hnext : Meets rationals more next) :
    Meets rationals (uses ++ more) fun creation => (do walk creation; next creation) := by
  rcases h with h | ⟨hreal, h⟩
  · refine .inl fun creation known => ?_
    rw [settled?_bind, h, Option.bind_none]
  rcases hnext with hnext | ⟨hreal', hnext⟩
  · refine .inl fun creation known => ?_
    rw [settled?_bind, Option.bind_eq_none_iff]
    exact fun later _ => hnext creation later
  · refine .inr ⟨List.forall_mem_append.mpr ⟨hreal, hreal'⟩, fun creation known => ?_⟩
    rw [settled?_bind, h, meetAll?, meetAll?, List.foldlM_append]
    exact congrArg _ (funext (hnext creation))

/-- A check may come first. -/
theorem need_bind {condition : Bool} {err : EncodeError}
    (h : condition = true → Meets rationals uses walk) :
    Meets rationals uses fun creation => (do need condition err; walk creation) := by
  cases condition with
  | false =>
    refine .inl fun creation known => ?_
    rw [settled?_bind, settled?_need, if_neg nofun, Option.bind_none]
  | true => exact h rfl

/-- What meets nothing may come last. -/
theorem bind_last (h : Meets rationals uses walk) (hnext : Meets rationals [] next) :
    Meets rationals uses fun creation => (do walk creation; next creation) := by
  rw [← List.append_nil uses]
  exact h.bind hnext

theorem need (condition : Bool) (err : EncodeError) :
    Meets rationals [] fun _ => need condition err := by
  cases condition with
  | false => exact .throw err
  | true => exact .pure

/-- A walk over one variable meets its use. -/
theorem meet (sort : SolverSort) (hsort : sort = .real → rationals = true) (v : Variable) :
    Meets rationals [(v, sort)] fun creation => Rules.meet creation sort v := by
  refine .inr ⟨List.forall_mem_singleton.mpr hsort, fun creation known => ?_⟩
  rw [settled?_meet, meetAll?_cons]
  exact (Option.bind_fun_some _).symm

/-! ### Terms -/

variable {creation : Bool}

theorem needRationals_bind (h : rationals = true → Meets rationals uses walk) :
    Meets rationals uses fun creation => (do
      Rules.needRationals ⟨rationals, creation⟩
      walk creation) :=
  need_bind h

theorem judgeConstant (c : Constant) :
    Meets rationals [] fun creation => Rules.judgeConstant ⟨rationals, creation⟩ c := by
  cases c with
  | integer _ => exact .pure
  | double x => exact needRationals_bind fun _ => .need _ _

/-- A variable in a term is met under the sort of its declared type. -/
theorem judgeVariable (v : Variable) :
    Meets rationals [(v, v.type.sort)] fun creation =>
      Rules.judgeVariable ⟨rationals, creation⟩ creation v := by
  unfold Rules.judgeVariable
  cases v.type with
  | bool => exact .throw _
  | integer => exact meet .int nofun v
  | double => exact needRationals_bind fun hr => meet .real (fun _ => hr) v

theorem judgeFunction (f : FunctionKind) (args : List ValueType) (type : ValueType) :
    Meets rationals [] fun creation =>
      Rules.judgeFunction ⟨rationals, creation⟩ f args type := by
  cases type with
  | bool => exact .throw _
  | integer => exact (need _ _).bind (.need _ _)
  | double => exact needRationals_bind fun _ => .need _ _

mutual

/-- The walk over a term meets the uses of the term. -/
theorem judgeTerm : ∀ t : Term,
    Meets rationals t.uses fun creation => Rules.judgeTerm ⟨rationals, creation⟩ t
  | .constant c => by
    simp only [Rules.judgeTerm, Term.uses]
    exact judgeConstant c
  | .var v => by
    simp only [Rules.judgeTerm, Term.uses]
    exact judgeVariable v
  | .app f args type => by
    simp only [Rules.judgeTerm, Term.uses]
    exact (judgeTerms args).bind_last (judgeFunction f _ type)

theorem judgeTerms : ∀ ts : List Term,
    Meets rationals (Term.usesAll ts) fun creation => Rules.judgeTerms ⟨rationals, creation⟩ ts
  | [] => by
    simp only [Rules.judgeTerms, Term.usesAll]
    exact .pure
  | t :: ts => by
    simp only [Rules.judgeTerms, Term.usesAll]
    exact (judgeTerm t).bind (judgeTerms ts)

end

/-! ### Formulas -/

/-- The walk over a comparison meets the uses of its left side, then those of its right side. -/
theorem judgeComparison (l r : Term) :
    Meets rationals (l.uses ++ r.uses) fun creation =>
      Rules.judgeComparison ⟨rationals, creation⟩ l r := by
  show Meets rationals (l.uses ++ r.uses) fun creation => (do
    SmtEncoding.need (rationals || (l.subterms ++ r.subterms).all (·.type ≠ .double))
      (.backendUnsupportedType .double)
    Rules.judgeTerm ⟨rationals, creation⟩ l
    Rules.judgeTerm ⟨rationals, creation⟩ r)
  exact need_bind fun _ => (judgeTerm l).bind (judgeTerm r)

mutual

/-- The walk over a formula meets the uses of the formula. -/
theorem judge : ∀ x : Expr,
    Meets rationals x.uses fun creation => Rules.judge ⟨rationals, creation⟩ x
  | .constant _ => by
    simp only [Rules.judge, Expr.uses]
    exact .pure
  | .not x => by
    simp only [Rules.judge, Expr.uses]
    exact judge x
  | .and xs => by
    simp only [Rules.judge, Expr.uses]
    exact judgeAll xs
  | .or xs => by
    simp only [Rules.judge, Expr.uses]
    exact judgeAll xs
  | .implies l r => by
    simp only [Rules.judge, Expr.uses]
    exact (judge l).bind (judge r)
  | .iff l r => by
    simp only [Rules.judge, Expr.uses]
    exact (judge l).bind (judge r)
  | .literal v _ => by
    simp only [Rules.judge, Expr.uses]
    exact meet .bool nofun v
  | .compare _ l r => by
    simp only [Rules.judge, Expr.uses]
    exact judgeComparison l r
  | .atLeast _ _ => by
    simp only [Rules.judge]
    exact .throw _
  | .atMost _ _ => by
    simp only [Rules.judge]
    exact .throw _
  | .between _ _ _ => by
    simp only [Rules.judge]
    exact .throw _
  | .choose _ _ => by
    simp only [Rules.judge]
    exact .throw _
  | .exist _ _ => by
    simp only [Rules.judge]
    exact .throw _
  | .forAll _ _ => by
    simp only [Rules.judge]
    exact .throw _

theorem judgeAll : ∀ xs : List Expr,
    Meets rationals (Expr.usesAll xs) fun creation => Rules.judgeAll ⟨rationals, creation⟩ xs
  | [] => by
    simp only [Rules.judgeAll, Expr.usesAll]
    exact .pure
  | x :: xs => by
    simp only [Rules.judgeAll, Expr.usesAll]
    exact (judge x).bind (judgeAll xs)

end

/-! ### Comparing walks -/

section Compare

variable {known later : KnownSorts}

/-- A walk that succeeds is one that meets its uses. -/
theorem of_settled (h : Meets rationals uses walk)
    (hfirst : settled? (walk creation) known = some later) :
    (∀ use ∈ uses, use.2 = .real → rationals = true) ∧
      ∀ creation known, settled? (walk creation) known = meetAll? creation known uses := by
  rcases h with h | h
  · rw [h] at hfirst
    cases hfirst
  · exact h

/-- A walk that has succeeded once succeeds again wherever all that was known then is known, and
nothing new is known after it. -/
theorem again (h : Meets rationals uses walk)
    (hfirst : settled? (walk creation) known = some later) {last : KnownSorts}
    (hlast : later.Within last) (allow : Bool) : settled? (walk allow) last = some last := by
  obtain ⟨-, hmeet⟩ := h.of_settled hfirst
  rw [hmeet] at hfirst ⊢
  obtain ⟨-, huses⟩ := meetAll?_within hfirst
  exact meetAll?_of_known fun use hu => hlast _ _ (huses use hu)

/-- A walk that has succeeded once succeeds where nothing is known, if variables are created.  What
is known after it was known after the first one. -/
theorem afresh (h : Meets rationals uses walk)
    (hfirst : settled? (walk creation) known = some later) :
    ∃ next, settled? (walk true) [] = some next ∧ ∀ p ∈ next, later.lookup p.1 = some p.2 := by
  obtain ⟨-, hmeet⟩ := h.of_settled hfirst
  rw [hmeet] at hfirst ⊢
  obtain ⟨-, huses⟩ := meetAll?_within hfirst
  obtain ⟨next, hnext⟩ := meetAll?_of_within (.nil later) huses
  exact ⟨next, hnext, fun p hp => huses p ((mem_of_meetAll? hnext hp).resolve_left nofun)⟩

/-- If variables are used under the sorts of their declared types, and nothing is known before,
they are known in the order of their first occurrences. -/
theorem typed (h : Meets rationals uses walk)
    (huses : ∀ use ∈ uses, use.2 = use.1.type.sort)
    (hfirst : settled? (walk true) [] = some later) :
    later = (uses.map Prod.fst).eraseDups.map Variable.typed := by
  obtain ⟨-, hmeet⟩ := h.of_settled hfirst
  have hnone : ∀ p ∈ ([] : KnownSorts), p.2 = p.1.type.sort := List.forall_mem_nil _
  rw [hmeet, meetAll?_typed hnone huses] at hfirst
  cases hfirst
  simp [List.removeAll]

end Compare

end Meets

/-! ## Encoders -/

section Judged

variable {B : Backend} {α : Type} {rules : Rules} {V : α → Prop} {e : Encoder B}
  {known : KnownSorts} {f : Action (Encoder B) α} {walk : Action KnownSorts Unit}

/-- After an action that succeeds, the known variables are those of the walk. -/
theorem Judged.settled?_of_ok (h : Judged rules V e known f walk) {a : α}
    (ha : (f.run e).value = .ok a) :
    settled? walk known = some (f.run e).state.registeredSorts := by
  have houtcome := h.outcome
  rw [ha] at houtcome
  generalize hwalk : (walk.run known).value = y at houtcome
  cases houtcome with
  | ok _ =>
    rw [settled?, hwalk, h.state.known_eq]

/-- Where the walk succeeds, the action does. -/
theorem Judged.ok_of_settled? (h : Judged rules V e known f walk) {later : KnownSorts}
    (hlater : settled? walk known = some later) :
    ∃ a, (f.run e).value = .ok a ∧ Follows rules (f.run e).state later := by
  have houtcome := h.outcome
  have hstate := h.state
  unfold settled? at hlater
  generalize (walk.run known).value = y at houtcome hlater
  generalize hf : (f.run e).value = r at houtcome
  cases houtcome with
  | ok _ =>
    cases hlater
    exact ⟨_, rfl, hstate⟩
  | error err => cases hlater

end Judged

end SmtEncoding
