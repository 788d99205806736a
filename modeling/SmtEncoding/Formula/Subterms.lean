import SmtEncoding.Formula.Term

/-!
# Subterms

The subterms of a term in preorder: the term itself, then the subterms of its arguments from left
to right.  `Term.subterms` lists them.  A `Term.Cursor` visits them one at a time and keeps only
the terms that are still to be visited, topmost first.  `Cursor.remaining` is what a cursor visits
when it is run to its end, and `Cursor.size`, the number of nodes that are left, bounds the run.
-/

namespace SmtEncoding.Term

mutual

/-- The subterms of a term in preorder. -/
def subterms : Term → List Term
  | constant c => [constant c]
  | var v => [var v]
  | app f args type => app f args type :: subtermsAll args

/-- The subterms of terms, one term after another. -/
def subtermsAll : List Term → List Term
  | [] => []
  | t :: ts => subterms t ++ subtermsAll ts

end

mutual

/-- The number of nodes of a term. -/
def size : Term → Nat
  | constant _ => 1
  | var _ => 1
  | app _ args _ => sizeAll args + 1

/-- The number of nodes of terms. -/
def sizeAll : List Term → Nat
  | [] => 0
  | t :: ts => size t + sizeAll ts

end

/-- The arguments of a term, none for a constant or a variable. -/
def args : Term → List Term
  | app _ args _ => args
  | _ => []

theorem size_eq (t : Term) : size t = sizeAll t.args + 1 := by
  cases t <;> rfl

theorem subtermsAll_eq_flatMap (ts : List Term) : subtermsAll ts = ts.flatMap subterms := by
  induction ts with
  | nil => rfl
  | cons t ts ih => rw [subtermsAll, ih, List.flatMap_cons]

/-- A term comes before its arguments, and these from left to right. -/
theorem subterms_eq (t : Term) : subterms t = t :: t.args.flatMap subterms := by
  cases t with
  | constant c => rfl
  | var v => rfl
  | app f ts type => rw [subterms, args, subtermsAll_eq_flatMap]

theorem sizeAll_append (ts us : List Term) : sizeAll (ts ++ us) = sizeAll ts + sizeAll us := by
  induction ts with
  | nil => simp [sizeAll]
  | cons t ts ih => simp [sizeAll, ih, Nat.add_assoc]

/-! ## Cursors -/

/-- A place in the preorder walk over a term. -/
structure Cursor where
  /-- The terms that are still to be visited, topmost first. -/
  pending : List Term

namespace Cursor

/-- The cursor before the first node of a term. -/
def start (t : Term) : Cursor := ⟨[t]⟩

/-- The number of nodes that are still to be visited. -/
def size (c : Cursor) : Nat := sizeAll c.pending

/-- The next node, and the cursor behind it. -/
def next? : Cursor → Option (Term × Cursor)
  | ⟨[]⟩ => none
  | ⟨t :: ts⟩ => some (t, ⟨t.args ++ ts⟩)

/-- Every call of a cursor leaves fewer nodes to visit. -/
theorem size_next? {c d : Cursor} {t : Term} (h : c.next? = some (t, d)) : d.size < c.size := by
  obtain ⟨pending⟩ := c
  cases pending with
  | nil => cases h
  | cons u us =>
    cases h
    simp only [size, sizeAll, sizeAll_append, size_eq t]
    omega

/-- Every node that is still to be visited, in the order of the visits. -/
def remaining (c : Cursor) : List Term :=
  match h : c.next? with
  | none => []
  | some (t, d) =>
    have : d.size < c.size := size_next? h
    t :: d.remaining
termination_by c.size

end Cursor

end SmtEncoding.Term
