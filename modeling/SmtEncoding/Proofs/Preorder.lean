import Mathlib
import SmtEncoding.Proofs.Verdict

/-!
# Preorder by a stack

A cursor keeps a stack of the terms that are still to be visited.  A call takes the topmost one off
and pushes its arguments, so that the first of them is on top.  In the middle of a walk the stack
holds arguments that are left over from several levels, and it is not the argument list of any term.

What the calls keep is therefore said of any stack.  The *listing* of a cursor is the subterms of
the terms on its stack in preorder, from the topmost term down.  A call answers the first term of
the listing and leaves the others (`call_listing`).  By induction on the calls, each answers the
next term of the listing, and once there is none left, nothing (`answer_eq`).

The check of a term against capabilities relies on this.  Without rationals it lets a term pass
exactly if no call answers a double (`Capabilities.checkTerm_eq_ok_iff`).
-/

namespace SmtEncoding

namespace Term

/-! ## Sizes -/

mutual

theorem length_subterms : ∀ t : Term, t.subterms.length = t.size
  | constant _ => rfl
  | var _ => rfl
  | app _ ts _ => by rw [subterms, List.length_cons, length_subtermsAll ts, size]

theorem length_subtermsAll : ∀ ts : List Term, (subtermsAll ts).length = sizeAll ts
  | [] => rfl
  | t :: ts => by
    rw [subtermsAll, List.length_append, length_subterms t, length_subtermsAll ts, sizeAll]

end

theorem sizeAll_eq_sum (ts : List Term) : sizeAll ts = (ts.map size).sum := by
  induction ts with
  | nil => rfl
  | cons t ts ih => rw [sizeAll, ih, List.map_cons, List.sum_cons]

namespace Cursor

variable {c d : Cursor} {t : Term}

/-! ## Stacks -/

/-- The cursor with a stack of terms, the topmost one last. -/
def ofStack (stack : Array Term) : Cursor := ⟨stack.toList.reverse⟩

/-- A call takes the last term off the stack and pushes its arguments, the first one last. -/
theorem next?_ofStack (stack : Array Term) :
    (ofStack stack).next? =
      stack.back?.map fun t => (t, ofStack (stack.pop ++ t.args.reverse.toArray)) := by
  obtain ⟨items⟩ := stack
  rcases items.eq_nil_or_concat with rfl | ⟨below, top, rfl⟩
  · rfl
  · simp [ofStack, next?]

theorem size_ofStack (stack : Array Term) :
    (ofStack stack).size = (stack.toList.map Term.size).sum := by
  rw [size, sizeAll_eq_sum, ofStack, List.map_reverse, List.sum_reverse]

/-! ## Listings -/

/-- Every node that is still to be visited, in preorder, from the topmost term down. -/
def listing (c : Cursor) : List Term := c.pending.flatMap subterms

theorem listing_start (t : Term) : (start t).listing = t.subterms := List.flatMap_singleton ..

/-- The size of a cursor is the number of terms that it still lists. -/
theorem length_listing (c : Cursor) : c.listing.length = c.size := by
  rw [listing, ← subtermsAll_eq_flatMap, length_subtermsAll, size]

/-- A cursor that gives no term has none left to list. -/
theorem listing_of_next?_eq_none (h : c.next? = none) : c.listing = [] := by
  obtain ⟨pending⟩ := c
  cases pending with
  | nil => rfl
  | cons u us => cases h

/-- The arguments of a term are listed behind it and before what is below it on the stack. -/
theorem listing_of_next?_eq_some (h : c.next? = some (t, d)) : c.listing = t :: d.listing := by
  obtain ⟨pending⟩ := c
  cases pending with
  | nil => cases h
  | cons u us =>
    cases h
    calc (t :: us).flatMap subterms
        = t :: (t.args.flatMap subterms ++ us.flatMap subterms) := by
          rw [List.flatMap_cons, subterms_eq, List.cons_append]
      _ = t :: (t.args ++ us).flatMap subterms := by rw [List.flatMap_append]

/-- What the calls of a cursor give, until there is no more, is what it lists. -/
theorem remaining_eq_listing (c : Cursor) : c.remaining = c.listing := by
  fun_induction remaining c with
  | case1 c h => exact (listing_of_next?_eq_none h).symm
  | case2 c t d h _ ih => rw [listing_of_next?_eq_some h, ih]

/-! ## Calls -/

/-- The answer of a call, and the cursor after it.  At its end a cursor stays where it is. -/
def call (c : Cursor) : Option Term × Cursor :=
  match c.next? with
  | none => (none, c)
  | some (t, d) => (some t, d)

/-- The cursor after some calls. -/
def after (c : Cursor) (calls : Nat) : Cursor := (fun d => d.call.2)^[calls] c

/-- The answer of the call that comes after `n` others. -/
def answer (c : Cursor) (n : Nat) : Option Term := (c.after n).call.1

/-- A call answers the first term of the listing and leaves the rest. -/
theorem call_listing (c : Cursor) :
    c.call.1 = c.listing.head? ∧ c.call.2.listing = c.listing.tail := by
  cases h : c.next? with
  | none =>
    simp only [call, h]
    rw [listing_of_next?_eq_none h]
    exact ⟨rfl, rfl⟩
  | some visit =>
    simp only [call, h]
    rw [listing_of_next?_eq_some h]
    exact ⟨rfl, rfl⟩

/-- Every call takes one term off the listing. -/
theorem listing_after (c : Cursor) (calls : Nat) :
    (c.after calls).listing = c.listing.drop calls := by
  induction calls with
  | zero => rfl
  | succ calls ih =>
    calc (c.after (calls + 1)).listing
        = (c.after calls).call.2.listing :=
          congrArg listing (Function.iterate_succ_apply' _ calls c)
      _ = (c.listing.drop calls).tail := by rw [(c.after calls).call_listing.2, ih]
      _ = c.listing.drop (calls + 1) := List.tail_drop

/-- The answer to a call stands in the listing at the place of the call. -/
theorem answer_eq (c : Cursor) (n : Nat) : c.answer n = c.listing[n]? := by
  rw [answer, (c.after n).call_listing.1, listing_after, List.head?_drop]

theorem answer_eq_none_iff (c : Cursor) (n : Nat) : c.answer n = none ↔ c.size ≤ n := by
  rw [answer_eq, List.getElem?_eq_none_iff, length_listing]

/-- The calls of a cursor over a term answer the term itself, and then from left to right what they
would answer over its arguments.  As many calls as the term has nodes have an answer, and every
later one has none.  From any stack, where a call pops a term and pushes its arguments in reverse,
the calls answer the subterms of the terms on the stack, from the topmost term down. -/
theorem lists_preorder :
    (∀ t : Term,
      t.subterms = t :: t.args.flatMap subterms ∧
      (start t).remaining = t.subterms ∧
      (∀ n, (start t).answer n = t.subterms[n]?) ∧
      ∀ n, (start t).answer n = none ↔ t.size ≤ n) ∧
    ∀ stack : Array Term,
      let c := ofStack stack
      let preorder := stack.toList.reverse.flatMap subterms
      c.next? = stack.back?.map (fun t => (t, ofStack (stack.pop ++ t.args.reverse.toArray))) ∧
      c.remaining = preorder ∧
      (∀ n, c.answer n = preorder[n]?) ∧
      ∀ n, c.answer n = none ↔ (stack.toList.map Term.size).sum ≤ n := by
  constructor
  · intro t
    refine ⟨subterms_eq t, ?_, fun n => ?_, fun n => answer_eq_none_iff (start t) n⟩
    · rw [remaining_eq_listing, listing_start]
    · rw [answer_eq, listing_start]
  · intro stack c preorder
    refine ⟨next?_ofStack stack, remaining_eq_listing c, answer_eq c, fun n => ?_⟩
    rw [answer_eq_none_iff, size_ofStack]

/-- In the middle of a walk the arguments of the product lie above the constant. -/
example :
    let x : Term := .var ⟨"x", .integer⟩
    let product : Term := .app .multiply [.constant (.integer 2), x] .integer
    let one : Term := .constant (.integer 1)
    let sum : Term := .app .add [product, one] .integer
    (List.range 6).map (start sum).answer =
      [some sum, some product, some (.constant (.integer 2)), some x, some one, none] := rfl

end Cursor

end Term

/-- A term passes the check if there are rationals or no call of a cursor over it answers a
double. -/
theorem Capabilities.checkTerm_eq_ok_iff (c : Capabilities) (t : Term) :
    c.checkTerm t = .ok () ↔ c.rationals = true ∨
      ∀ n u, (Term.Cursor.start t).answer n = some u → u.type ≠ .double := by
  -- The listing is all that the calls answer, so a term is answered exactly if it is a subterm.
  have hseen : (∀ n u, (Term.Cursor.start t).answer n = some u → u.type ≠ .double) ↔
      ∀ u ∈ t.subterms, u.type ≠ .double := by
    simp only [Term.Cursor.answer_eq, Term.Cursor.listing_start, List.mem_iff_getElem?]
    exact ⟨fun h u ⟨n, hn⟩ => h n u hn, fun h n u hn => h u ⟨n, hn⟩⟩
  rw [hseen, checkTerm, checkAll_eq]
  cases c.rationals with
  | true => simp
  | false => simp

end SmtEncoding
