import SmtEncoding.Proofs.Tree
import SmtEncoding.Recording.Backend

/-!
# Unfolding a record

An entry of a record names its operands by their positions.  Where each operand is the object of an
earlier entry the record unfolds: every entry becomes the tree of its object (`Recording.unfold`).
A backend of trees keeps these trees and nothing else (`Forest.backend`), and recording simulates it
(`unfolding`), so every record of a session unfolds.
-/

namespace SmtEncoding

/-! ## Operations as nodes -/

/-- The object of a numeral, if all sorts have objects of one type. -/
def Numeral.get {α : Type} : Numeral (fun _ => α) → α
  | integer x => x
  | rational x => x

theorem Numeral.Rel.get {α β : Type} {R : α → β → Prop} {m : Numeral fun _ => α}
    {n : Numeral fun _ => β} (h : Numeral.Rel (fun _ => R) m n) : R m.get n.get := by
  cases h with
  | integer h => exact h
  | rational h => exact h

namespace Operation

/-- The shape of the node that an operation builds. -/
def shape {O : SolverSort → Type} : Operation O → Shape String
  | core (.boolConstant value) => .boolConstant value
  | core (.boolVar name) => .var .bool name
  | core (.not _) => .not
  | core (.and _) => .and
  | core (.or _) => .or
  | core (.implies _ _) => .implies
  | core (.iff _ _) => .iff
  | core (.intConstant n) => .intConstant n
  | core (.intVar name) => .var .int name
  | core (.intAdd _) => .function .add .int
  | core (.intMultiply _) => .function .multiply .int
  | core (.intCompare c _ _) => .compare c .int
  | rational (.constant q) => .rationalConstant q
  | rational (.var name) => .var .real name
  | rational (.add _) => .function .add .real
  | rational (.multiply _) => .function .multiply .real
  | rational (.compare c _ _) => .compare c .real

/-- The operands of an operation, from left to right. -/
def operands {α : Type} : Operation (fun _ => α) → List α
  | core (.boolConstant _) => []
  | core (.boolVar _) => []
  | core (.not x) => [x]
  | core (.and xs) => xs
  | core (.or xs) => xs
  | core (.implies x y) => [x, y]
  | core (.iff x y) => [x, y]
  | core (.intConstant _) => []
  | core (.intVar _) => []
  | core (.intAdd xs) => xs
  | core (.intMultiply xs) => xs
  | core (.intCompare _ x y) => [x, y]
  | rational (.constant _) => []
  | rational (.var _) => []
  | rational (.add ns) => ns.map Numeral.get
  | rational (.multiply ns) => ns.map Numeral.get
  | rational (.compare _ m n) => [m.get, n.get]

variable {α β : Type} {R : α → β → Prop}

theorem Rel.shape_eq {op : Operation fun _ => α} {op' : Operation fun _ => β}
    (h : Operation.Rel (fun _ => R) op op') : op.shape = op'.shape := by
  cases h with
  | core h => cases h <;> rfl
  | rational h => cases h <;> rfl

/-- Related operations have operands that are related one by one. -/
theorem Rel.operands {op : Operation fun _ => α} {op' : Operation fun _ => β}
    (h : Operation.Rel (fun _ => R) op op') : List.Forall₂ R op.operands op'.operands := by
  have hget : ∀ {ms : List (Numeral fun _ => α)} {ns : List (Numeral fun _ => β)},
      List.Forall₂ (Numeral.Rel fun _ => R) ms ns →
        List.Forall₂ R (ms.map Numeral.get) (ns.map Numeral.get) := fun h =>
    List.forall₂_map_left_iff.mpr (List.forall₂_map_right_iff.mpr (h.imp fun _ _ h => h.get))
  cases h with
  | core h =>
    cases h with
    | boolConstant value => exact .nil
    | boolVar name => exact .nil
    | not h => exact .cons h .nil
    | and h => exact h
    | or h => exact h
    | implies h h' => exact .cons h (.cons h' .nil)
    | iff h h' => exact .cons h (.cons h' .nil)
    | intConstant value => exact .nil
    | intVar name => exact .nil
    | intAdd h => exact h
    | intMultiply h => exact h
    | intCompare c h h' => exact .cons h (.cons h' .nil)
  | rational h =>
    cases h with
    | constant value => exact .nil
    | var name => exact .nil
    | add h => exact hget h
    | multiply h => exact hget h
    | compare c h h' => exact .cons h.get (.cons h'.get .nil)

end Operation

/-- A list is read if its elements are read one by one. -/
theorem mapM_eq_some_iff {α β : Type} {f : α → Option β} {xs : List α} {ys : List β} :
    xs.mapM f = some ys ↔ List.Forall₂ (fun x y => f x = some y) xs ys := by
  induction xs generalizing ys with
  | nil =>
    rw [List.mapM_nil, List.forall₂_nil_left_iff]
    exact ⟨fun h => (Option.some.inj h).symm, fun h => h ▸ rfl⟩
  | cons x xs ih =>
    rw [List.mapM_cons, List.forall₂_cons_left_iff]
    constructor
    · intro h
      obtain ⟨y, hy, h⟩ := Option.bind_eq_some_iff.mp h
      obtain ⟨ys', hys, h⟩ := Option.bind_eq_some_iff.mp h
      cases h
      exact ⟨y, ys', hy, ih.mp hys, rfl⟩
    · rintro ⟨y, ys', hy, hys, rfl⟩
      rw [hy, ih.mpr hys]
      rfl

/-! ## Records -/

namespace Recording

/-- The tree of an entry, if each of its operands is the position of an earlier tree. -/
def unfoldEntry (earlier : List (Tree String)) (entry : Entry) : Option (Tree String) :=
  (entry.operands.mapM (earlier[·]?)).map (.node entry.shape)

/-- The trees of the entries of a record, by position. -/
def unfold (entries : List Entry) : Option (List (Tree String)) :=
  entries.foldlM (fun earlier entry => (unfoldEntry earlier entry).map (earlier ++ [·])) []

/-- A record with one more entry unfolds if the record does, and the entry on its trees. -/
theorem unfold_concat (entries : List Entry) (entry : Entry) :
    unfold (entries ++ [entry]) = (unfold entries).bind fun earlier =>
      (unfoldEntry earlier entry).map (earlier ++ [·]) := by
  rw [unfold, List.foldlM_append]
  show (unfold entries).bind (fun earlier =>
    ((unfoldEntry earlier entry).map (earlier ++ [·])).bind some) = _
  simp only [Option.bind_fun_some]

theorem unfold_concat_eq_some {entries : List Entry} {entry : Entry} {trees : List (Tree String)}
    (h : unfold (entries ++ [entry]) = some trees) :
    ∃ earlier operands, unfold entries = some earlier ∧
      entry.operands.mapM (earlier[·]?) = some operands ∧
      trees = earlier ++ [.node entry.shape operands] := by
  rw [unfold_concat, Option.bind_eq_some_iff] at h
  obtain ⟨earlier, hearlier, h⟩ := h
  rw [unfoldEntry, Option.map_map, Option.map_eq_some_iff] at h
  obtain ⟨operands, hoperands, rfl⟩ := h
  exact ⟨earlier, operands, hearlier, hoperands, rfl⟩

theorem length_unfold {entries : List Entry} {trees : List (Tree String)}
    (h : unfold entries = some trees) : trees.length = entries.length := by
  induction entries using List.reverseRecOn generalizing trees with
  | nil =>
    cases h
    rfl
  | append_singleton entries entry ih =>
    obtain ⟨earlier, operands, hearlier, _, rfl⟩ := unfold_concat_eq_some h
    rw [List.length_append, List.length_append, ih hearlier]
    rfl

/-- Every entry of a record that unfolds has the tree of its own shape over the trees of its
operands, and all of these stand before it. -/
theorem unfold_getElem? {entries : List Entry} {trees : List (Tree String)}
    (h : unfold entries = some trees) {i : Nat} {entry : Entry}
    (hentry : entries[i]? = some entry) :
    ∃ operands, trees[i]? = some (.node entry.shape operands) ∧
      List.Forall₂ (fun j t => j < i ∧ trees[j]? = some t) entry.operands operands := by
  induction entries using List.reverseRecOn generalizing trees with
  | nil => cases hentry
  | append_singleton entries last ih =>
    obtain ⟨earlier, operands, hearlier, hoperands, rfl⟩ := unfold_concat_eq_some h
    have hlength := length_unfold hearlier
    -- The last tree is added behind the others, which keep their positions.
    have hkeep : ∀ {j t}, earlier[j]? = some t → j < earlier.length ∧
        (earlier ++ [.node last.shape operands])[j]? = some t := by
      intro j t hj
      obtain ⟨hlt, _⟩ := List.getElem?_eq_some_iff.mp hj
      exact ⟨hlt, by rw [List.getElem?_append_left hlt, hj]⟩
    rcases Nat.lt_or_ge i entries.length with hi | hi
    · rw [List.getElem?_append_left hi] at hentry
      obtain ⟨ts, hnode, hts⟩ := ih hearlier hentry
      exact ⟨ts, (hkeep hnode).2, hts.imp fun _ _ hj => ⟨hj.1, (hkeep hj.2).2⟩⟩
    · obtain rfl : i = entries.length := by
        have hlt := (List.getElem?_eq_some_iff.mp hentry).1
        rw [List.length_append, List.length_singleton] at hlt
        omega
      rw [List.getElem?_concat_length] at hentry
      cases hentry
      refine ⟨operands, by rw [← hlength, List.getElem?_concat_length], ?_⟩
      refine (mapM_eq_some_iff.mp hoperands).imp fun j t hj => ?_
      rw [← hlength]
      exact hkeep hj

end Recording

/-! ## The backend of trees -/

namespace Forest

/-- What a backend of trees remembers. -/
structure State where
  /-- The capabilities that it claims. -/
  capabilities : Capabilities
  /-- The trees that it has built, oldest first. -/
  trees : List (Tree String)

/-- Builds the tree of an operation on trees. -/
def grow (op : Operation fun _ => Tree String) : Call State (Tree String) := fun s =>
  ⟨.node op.shape op.operands, { s with trees := s.trees ++ [.node op.shape op.operands] }, []⟩

/-- The backend that builds trees. -/
@[reducible] def backend : Backend where
  State := State
  Obj := fun _ => Tree String
  capabilities := State.capabilities
  describe := fun _ => "tree"
  core := fun op => grow (.core op)
  rational := fun op => ExceptT.lift (grow (.rational op))

end Forest

/-- A record that unfolds to the trees of a forest, and the position of a tree. -/
def unfolds :
    Correspondence Recording.State Forest.State Recording.Handle (fun _ => Tree String) where
  state r s := r.capabilities = s.capabilities ∧ Recording.unfold r.entries = some s.trees
  obj _ s _ (i : Nat) t := s.trees[i]? = some t

/-- Recording an operation is in step with building its tree. -/
theorem inStep_grow {r : Recording.State} {s : Forest.State} (h : unfolds.state r s)
    {entry : Recording.Entry} {op : Operation fun _ => Tree String}
    (hop : Operation.Rel (fun _ (i : Nat) t => s.trees[i]? = some t) entry op) (sort : SolverSort) :
    InStep unfolds (fun r s => unfolds.obj r s sort) r s
      (ExceptT.lift (Recording.record entry)) (ExceptT.lift (Forest.grow op)) := by
  have hlength := Recording.length_unfold h.2
  have hoperands : entry.operands.mapM (s.trees[·]?) = some op.operands :=
    mapM_eq_some_iff.mpr hop.operands
  have hnode : Recording.unfoldEntry s.trees entry = some (.node op.shape op.operands) := by
    rw [Recording.unfoldEntry, hoperands, hop.shape_eq]
    rfl
  refine ⟨?_, ?_, ?_⟩ <;> rw [Action.run_lift, Action.run_lift]
  · refine ⟨h.1, ?_⟩
    show Recording.unfold (r.entries ++ [entry]) = _
    rw [Recording.unfold_concat, h.2, Option.bind_some, hnode]
    rfl
  · intro _ i t hi
    have hlt := (List.getElem?_eq_some_iff.mp hi).1
    exact (List.getElem?_append_left hlt).trans hi
  · refine .ok ?_
    show (s.trees ++ [_])[r.entries.length]? = _
    rw [← hlength, List.getElem?_concat_length]
    rfl

/-- Recording simulates building trees. -/
def unfolding : Simulation Recording.backend Forest.backend True where
  toCorrespondence := unfolds
  capabilities h := h.1
  core h hop := inStep_grow h (.core hop) _
  rational _ _ _ _ _ _ h hop := inStep_grow h (.rational hop) _

end SmtEncoding
