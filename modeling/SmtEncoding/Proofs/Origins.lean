import SmtEncoding.Proofs.Comparison
import SmtEncoding.Proofs.Requests
import SmtEncoding.Proofs.Unfolding

/-!
# The origin of nodes

On an SMT-LIB backend every operation makes a node that was never there before, with two exceptions.
A constant is found again, and an operator over a single operand is that operand.

Where a node comes from is its `Origin`: it is the node of a declared constant, or its number lies
between the numbers before and after it was answered and is not that of a constant.  Later
operations declare constants under later numbers only (`State.Extends`), so this stays true
(`Origin.mono`), and the origins of two nodes tell whether they are the same (`Origin.same_iff`).
`Yields` says of an action that what it answers with is the constant of a given name and sort, or
that it is new.
-/

namespace SmtEncoding

namespace SmtLib

/-! ## Later states -/

/-- What operations add to a state: the constants that are declared have numbers of their own. -/
structure State.Extends (s t : State) : Prop where
  grows : s.Grows t
  later : ∀ d ∈ t.declarations, d ∈ s.declarations ∨ s.nextId ≤ d.id

namespace State

variable {s t u : State}

theorem Extends.refl (s : State) : s.Extends s := ⟨.refl s, fun _ => .inl⟩

theorem Extends.trans (first : s.Extends t) (second : t.Extends u) : s.Extends u where
  grows := first.grows.trans second.grows
  later d hd := by
    rcases second.later d hd with hd | hle
    · exact first.later d hd
    · exact .inr (first.grows.nextId.trans hle)

theorem extends_skip (s : State) : s.Extends s.skip := ⟨s.grows_skip, fun _ => .inl⟩

/-- A request for a constant only adds. -/
theorem extends_constant (s : State) (name : String) (sort : SolverSort) :
    s.Extends (constant name sort s).state := by
  rcases constant_cases name sort s with ⟨d, _, _, hc⟩ | ⟨_, hc⟩
  · rw [hc]
    exact .refl s
  · rw [hc]
    refine ⟨s.grows_declare name sort, fun d hd => ?_⟩
    rcases mem_declare hd with hd | rfl
    · exact .inl hd
    · exact .inr (Nat.le_refl s.nextId)

/-- An operation only adds nodes and constants. -/
theorem extends_build (s : State) (op : Operation Obj) : s.Extends (build op s).state := by
  rcases build_cases op s with ⟨name, sort, _, hb⟩ | ⟨_, hb | hb⟩
  · rw [hb]
    exact s.extends_constant name sort
  · rw [hb]
    exact .refl s
  · rw [hb]
    exact s.extends_skip

end State

/-! ## Origins -/

/-- Where a node comes from that is answered between two states: it is that of the constant of a
key, or it is new and no constant. -/
inductive Origin (s t : State) : Option (String × SolverSort) → Node → Prop where
  | declared {d : Declaration} : d ∈ t.declarations → Origin s t (some d.key) d.node
  | new {x : Node} : s.nextId ≤ x.id → x.id < t.nextId → (∀ d ∈ t.declarations, d.id ≠ x.id) →
    Origin s t none x

namespace Origin

variable {s s' t t' : State} {key : Option (String × SolverSort)} {x : Node}

/-- The node of a declaration comes from its key. -/
theorem of_declared {k : String × SolverSort} (h : ∃ d ∈ t.declarations, d.key = k ∧ x = d.node) :
    Origin s t (some k) x := by
  obtain ⟨d, hd, rfl, rfl⟩ := h
  exact .declared hd

/-- An origin is seen from earlier states and from later ones. -/
theorem mono (h : Origin s t key x) (hs : s'.nextId ≤ s.nextId) (ht : t.Extends t') :
    Origin s' t' key x := by
  cases h with
  | declared hd => exact .declared (ht.grows.declarations.subset hd)
  | new hle hlt hne =>
    refine .new (hs.trans hle) (hlt.trans_le ht.grows.nextId) fun d hd => ?_
    rcases ht.later d hd with hd | hlater
    · exact hne d hd
    · exact (hlt.trans_le hlater).ne'

/-- Two nodes, the second of them answered after the first, are the same exactly if they are the
constant of one key. -/
theorem same_iff {l : Option (String × SolverSort)} {y : Node} (hx : Origin s t key x)
    (hy : Origin t' s' l y) (hbetween : t.Extends t') (hafter : t'.Extends s') (hwf : s'.Wf) :
    (x.same y = true ↔ ∃ k, key = some k ∧ l = some k) ∧ (x.same y = true ↔ x = y) := by
  have hall := hbetween.trans hafter
  have hold := hx.mono (Nat.le_refl _) hall
  have hsame : x.same y = true ↔ x.id = y.id := beq_iff_eq
  have heq : x = y → x.id = y.id := congrArg Node.id
  rw [hsame]
  cases hold with
  | @declared d hd =>
    cases hy with
    | @declared e he =>
      have hid : d.node.id = e.node.id → d = e := hwf.eq_of_id_eq hd he
      refine ⟨⟨fun h => ⟨d.key, rfl, by rw [hid h]⟩, ?_⟩, fun h => by rw [hid h], heq⟩
      rintro ⟨k, hdk, hek⟩
      rw [hwf.eq_of_key_eq hd he (Option.some.inj (hdk.trans hek.symm))]
    | new _ _ hne =>
      have hid : d.node.id ≠ y.id := hne d hd
      exact ⟨iff_of_false hid (by rintro ⟨_, _, ⟨⟩⟩), fun h => absurd h hid, heq⟩
  | new _ _ hne =>
    have hid : x.id ≠ y.id := by
      cases hy with
      | @declared e he => exact (hne e he).symm
      | new hle _ _ =>
        -- `hold` has forgotten the state in which `x` was answered, which is what tells them apart.
        cases hx with
        | new _ hlt _ => exact (hlt.trans_le (hbetween.grows.nextId.trans hle)).ne
    exact ⟨iff_of_false hid (by rintro ⟨_, ⟨⟩, _⟩), fun h => absurd h hid, heq⟩

end Origin

section Build

variable {s : State} (hs : s.Wf)

include hs

/-- A new node comes from no key. -/
theorem origin_fresh (x : SExpr) : Origin s (fresh x s).state none (fresh x s).value :=
  .new (Nat.le_refl _) (Nat.lt_succ_self _) fun d hd => (hs.below d hd).ne

/-- An operator over any number of nodes but one makes a new one. -/
theorem origin_fold (operator neutral : String) {xs : List Node} (hxs : ∀ x, xs ≠ [x]) :
    Origin s (fold operator neutral xs s).state none (fold operator neutral xs s).value := by
  match xs with
  | [] => exact origin_fresh hs (.atom neutral)
  | [x] => exact absurd rfl (hxs x)
  | x :: y :: xs => exact origin_fresh hs (.apply operator ((x :: y :: xs).map Node.expr))

/-- So does an operator on rationals, unless it has a single operand that is a rational. -/
theorem origin_foldReal (operator neutral : String) {ns : List (Numeral Obj)}
    (hns : ∀ x, ns ≠ [.rational x]) :
    Origin s (foldReal operator neutral ns s).state none
      (foldReal operator neutral ns s).value := by
  match ns with
  | [] => exact origin_fresh hs (.atom neutral)
  | [.integer x] => exact origin_fresh hs (asReal (.integer x))
  | [.rational x] => exact absurd rfl (hns x)
  | m :: n :: ns =>
    rw [foldReal_cons_cons]
    exact origin_fresh hs (.apply operator ((m :: n :: ns).map asReal))

end Build

/-! ## Encodings -/

variable {α β : Type} {e e' : Encoder backend}

/-- Encoding keeps an encoder interned and extends the state that it began with. -/
theorem upkeep_extends (s : State) :
    Upkeep (B := backend) (fun e => Interned e ∧ s.Extends e.backend) (fun _ => True)
      (fun _ _ => True) :=
  upkeep_interned.and (upkeep_state fun op t ht => ht.trans (t.extends_build op))

/-- An action that keeps encoders interned and extends their states. -/
def Extending (f : Action (Encoder backend) α) : Prop :=
  ∀ s : State, Safe (fun e => Interned e ∧ s.Extends e.backend) (fun _ => True) f

/-- An action that only adds keeps variables and their constants together. -/
theorem Extending.of_answers {f : Action (Encoder backend) α} {a : α} (hf : Extending f)
    (he : Interned e) (h : f.Answers e a e') : Interned e' ∧ e.backend.Extends e'.backend := by
  have hkept := (hf e.backend).state ⟨he, .refl e.backend⟩
  rwa [h.state] at hkept

/-- Whatever an action answers with is the constant of a key, or new. -/
structure Yields (key : Option (String × SolverSort)) (node : α → Node)
    (f : Action (Encoder backend) α) : Prop where
  origin : ∀ {e e' : Encoder backend} {a : α}, Interned e → f.Answers e a e' →
    Origin e.backend e'.backend key (node a)

namespace Yields

variable {key : Option (String × SolverSort)} {node : α → Node} {f : Action (Encoder backend) α}

theorem throw {err : EncodeError} : Yields key node (throw err) :=
  ⟨fun _ h => absurd h Action.not_answers_throw⟩

theorem map {φ : β → α} {g : Action (Encoder backend) β} (h : Yields key (node ∘ φ) g) :
    Yields key node (φ <$> g) where
  origin he ha := by
    obtain ⟨b, hb, rfl⟩ := Action.answers_map_iff.mp ha
    exact h.origin he hb

theorem get_bind {k : Encoder backend → Action (Encoder backend) α}
    (h : ∀ e, Yields key node (k e)) : Yields key node (get >>= k) where
  origin he ha := (h _).origin he (Action.answers_get_bind_iff.mp ha)

/-- What an action answers with after another one. -/
theorem bind {g : Action (Encoder backend) β} {k : β → Action (Encoder backend) α}
    (hg : Extending g) (hk : ∀ {e b e₁}, g.Answers e b e₁ → Yields key node (k b)) :
    Yields key node (g >>= k) where
  origin he ha := by
    obtain ⟨b, e₁, hb, ha⟩ := Action.answers_bind_iff.mp ha
    obtain ⟨he₁, hextends⟩ := hg.of_answers he hb
    exact ((hk hb).origin he₁ ha).mono hextends.grows.nextId (.refl _)

/-- What an action answers with after a check. -/
theorem bind_ofExcept {r : Except EncodeError β} {k : β → Action (Encoder backend) α}
    (hk : ∀ b, r = .ok b → Yields key node (k b)) : Yields key node (Action.ofExcept r >>= k) where
  origin he ha := by
    obtain ⟨b, _, ⟨hb, rfl⟩, ha⟩ := Action.answers_bind_iff.mp ha
    exact (hk b hb).origin he ha

/-- The report of a node changes nothing about its origin. -/
theorem visit (kind : NodeKind) (h : Yields key node f) :
    Yields key node (Encoder.visit kind f) where
  origin he ha := by
    refine h.origin he ⟨?_, ?_⟩
    · rw [← ha.value, Encoder.visit, Action.run_note_bind]
    · rw [← ha.state, Encoder.visit, Action.run_note_bind]

/-! ### Operations and variables -/

theorem core {s : SolverSort} (op : CoreOp Obj s)
    (h : ∀ {t : State}, t.Wf → Origin t (buildCore op t).state key (buildCore op t).value) :
    Yields key id (Encoder.core op) where
  origin := by
    rintro e e' a he ⟨hvalue, rfl⟩
    cases hvalue
    exact h he.wf

theorem rational {s : SolverSort} (op : RationalOp Obj s)
    (h : ∀ {t : State}, t.Wf →
      Origin t (buildRational op t).state key (buildRational op t).value) :
    Yields key id (Encoder.rational op) where
  origin := by
    rintro e e' a he ⟨hvalue, rfl⟩
    cases hvalue
    exact h he.wf

/-- A variable is answered with the constant of its name, whether it is found or created. -/
theorem resolve (allow : Bool) (sort : SolverSort) (v : Variable) :
    Yields (some (v.name, sort)) id (Encoder.resolve (B := backend) allow sort v) where
  origin := by
    rintro e e' a he ⟨hvalue, rfl⟩
    cases hget : e.registry.get? v with
    | some o =>
      rw [Encoder.run_resolve_registered hget] at hvalue ⊢
      cases has : o.as? sort with
      | none =>
        rw [has] at hvalue
        cases hvalue
      | some x =>
        rw [has] at hvalue
        cases hvalue
        rw [Object.as?_eq_some_iff] at has
        subst has
        exact .of_declared (he.declared _ (Registry.mem_of_get? hget))
    | none =>
      cases allow with
      | false =>
        rw [Encoder.run_resolve_refused hget] at hvalue
        cases hvalue
      | true =>
        have hx : ((backend.createVariable v.name sort).run e.backend).value =
            .ok (constant v.name sort e.backend).value := by
          rw [createVariable_eq, Action.run_lift]
        rw [Encoder.run_resolve_created hget hx] at hvalue ⊢
        cases hvalue
        rw [createVariable_eq, Action.run_lift]
        exact .of_declared (constant_declared v.name sort e.backend)

theorem requireRationals_bind {k : Action (Encoder backend) α} (hk : Yields key node k) :
    Yields key node (do Encoder.requireRationals; k) where
  origin he ha := hk.origin he (Encoder.answers_requireRationals_iff.mp ha).2

/-- A variable in a term is the constant of its name and of the sort of its declared type. -/
theorem resolveNumeral (allow : Bool) (v : Variable) :
    Yields (some (v.name, v.type.sort)) Numeral.get
      (Encoder.resolveNumeral (B := backend) allow v) := by
  unfold Encoder.resolveNumeral
  cases v.type with
  | bool => exact throw
  | integer => exact (resolve allow .int v).map
  | double => exact requireRationals_bind (resolve allow .real v).map

end Yields

end SmtLib

end SmtEncoding
