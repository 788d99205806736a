import Mathlib.Data.Finset.Card
import SmtEncoding.Proofs.Constants

/-!
# The search for a symbol

A symbol is searched for in a loop.  The loop starts at the name, or at the name with its sort if
the body of the name is taken.  As long as the body of the symbol is taken, a round replaces the
symbol by the name with its sort and a number, and counts the number up.

Nothing bounds the loop from the outside.  It ends because the symbols that it goes through have
different bodies (`candidateBody_injective`), so no more of them are taken than there are taken
bodies (`le_card_of_taken`).  It ends at the first candidate that is free, which is the symbol of
the constant that is declared (`symbol_search_ends`).
-/

namespace SmtEncoding.SmtLib

/-- A search for a symbol between two rounds. -/
structure Search where
  /-- The symbol that is tried. -/
  symbol : String
  /-- The number of the symbol that is tried next.  It has no bound here, where an implementation
  counts with 32 bits and a sign.  It exceeds the number of taken bodies by one at most
  (`symbol_search_ends`), so it stays in that range as long as fewer than `2 ^ 31 - 1` symbols are
  declared. -/
  suffix : Nat
deriving DecidableEq, Repr

namespace Search

/-- The search before the first round. -/
def start (taken : List String) (name : String) (sort : SolverSort) : Search :=
  if body (escape name) ∈ taken then ⟨escape (name ++ "@" ++ sort.name), 1⟩
  else ⟨escape name, 1⟩

/-- One round of the loop. -/
def round (name : String) (sort : SolverSort) (s : Search) : Search :=
  ⟨escape (name ++ "@" ++ sort.name ++ toString s.suffix), s.suffix + 1⟩

/-- The search after a number of rounds. -/
def after (taken : List String) (name : String) (sort : SolverSort) (rounds : Nat) : Search :=
  (round name sort)^[rounds] (start taken name sort)

variable {taken : List String} {name : String} {sort : SolverSort}

theorem after_succ (rounds : Nat) :
    after taken name sort (rounds + 1) = (after taken name sort rounds).round name sort :=
  Function.iterate_succ_apply' _ _ _

theorem suffix_after (rounds : Nat) : (after taken name sort rounds).suffix = rounds + 1 := by
  induction rounds with
  | zero =>
    show (start taken name sort).suffix = 1
    rw [start]
    split <;> rfl
  | succ rounds ih =>
    rw [after_succ]
    exact congrArg (· + 1) ih

theorem symbol_after_zero (h : candidateBody name sort 0 ∉ taken) :
    (after taken name sort 0).symbol = escape (candidate name sort 0) :=
  congrArg symbol (if_neg h)

/-- Past a name that is taken, each round goes on to the next candidate. -/
theorem symbol_after (h : candidateBody name sort 0 ∈ taken) (rounds : Nat) :
    (after taken name sort rounds).symbol = escape (candidate name sort (rounds + 1)) := by
  cases rounds with
  | zero => exact congrArg symbol (if_pos h)
  | succ rounds =>
    rw [after_succ, round, suffix_after]
    rfl

end Search

/-- No more candidates are taken than there are taken bodies. -/
theorem le_card_of_taken {taken : List String} {name : String} {sort : SolverSort} {j : Nat}
    (h : ∀ i < j, candidateBody name sort i ∈ taken) : j ≤ taken.toFinset.card := by
  have hsub : (Finset.range j).image (candidateBody name sort) ⊆ taken.toFinset := by
    intro b hb
    obtain ⟨i, hi, rfl⟩ := Finset.mem_image.mp hb
    exact List.mem_toFinset.mpr (h i (Finset.mem_range.mp hi))
  calc j = ((Finset.range j).image (candidateBody name sort)).card := by
        rw [Finset.card_image_of_injective _ (candidateBody_injective name sort), Finset.card_range]
    _ ≤ taken.toFinset.card := Finset.card_le_card hsub

/-- The loop ends at the symbol that is chosen. -/
theorem exists_rounds (taken : List String) (name : String) (sort : SolverSort) :
    ∃ rounds ≤ taken.toFinset.card,
      (∀ n < rounds, body (Search.after taken name sort n).symbol ∈ taken) ∧
      (Search.after taken name sort rounds).symbol = freeSymbol taken name sort := by
  obtain ⟨j, _, hsymbol, hfree, htaken⟩ := freeSymbol_spec taken name sort
  have hcard : j ≤ taken.toFinset.card := le_card_of_taken htaken
  cases j with
  | zero =>
    refine ⟨0, Nat.zero_le _, nofun, ?_⟩
    rw [Search.symbol_after_zero hfree, hsymbol]
  | succ rounds =>
    -- The name itself is taken, so the loop starts at the next candidate and is one round shorter.
    have hname : candidateBody name sort 0 ∈ taken := htaken 0 (Nat.succ_pos rounds)
    refine ⟨rounds, Nat.le_of_succ_le hcard, fun n hn => ?_, ?_⟩
    · rw [Search.symbol_after hname]
      exact htaken (n + 1) (Nat.succ_lt_succ hn)
    · rw [Search.symbol_after hname, hsymbol]

/-- The search for a symbol ends, whatever bodies are taken and whatever the name and the sort are.
It takes no more rounds than there are taken bodies, and the number that it counts up never exceeds
theirs by more than one.  It ends at the first of the candidates whose body is free, and a constant
that is asked for the first time is declared with that symbol. -/
theorem symbol_search_ends (taken : List String) (name : String) (sort : SolverSort) :
    let search := Search.after taken name sort
    ∃ rounds ≤ taken.toFinset.card,
      (∀ n < rounds, body (search n).symbol ∈ taken) ∧ body (search rounds).symbol ∉ taken ∧
      (∀ n ≤ rounds, (search n).suffix ≤ taken.toFinset.card + 1) ∧
      (∃ j, (search rounds).symbol = escape (candidate name sort j) ∧
        body (escape (candidate name sort j)) ∉ taken ∧
        ∀ i < j, body (escape (candidate name sort i)) ∈ taken) ∧
      ∀ s : State, s.bodies = taken → (name, sort) ∉ s.keys →
        (constant name sort s).value.expr = .atom (search rounds).symbol ∧
        (constant name sort s).state.declarations =
          s.declarations ++ [⟨name, sort, (search rounds).symbol, s.nextId⟩] := by
  intro search
  obtain ⟨rounds, hle, htaken, hsymbol⟩ := exists_rounds taken name sort
  refine ⟨rounds, hle, htaken, ?_, fun n hn => ?_, ?_, fun s hs hkey => ?_⟩
  · rw [hsymbol]
    exact body_freeSymbol_not_mem taken name sort
  · rw [Search.suffix_after]
    exact Nat.succ_le_succ (hn.trans hle)
  · obtain ⟨j, _, hj, hfree, hbelow⟩ := freeSymbol_spec taken name sort
    exact ⟨j, hsymbol.trans hj, hfree, hbelow⟩
  · subst hs
    rcases constant_cases name sort s with ⟨d, hd, hdkey, _⟩ | ⟨_, hc⟩
    · exact absurd (hdkey ▸ List.mem_map_of_mem hd) hkey
    · rw [hc, hsymbol]
      exact ⟨rfl, rfl⟩

/-- Three constants, two of them under names that look like candidates for the first one. -/
def imitated : State :=
  (buildAll [.core (.boolVar "x"), .core (.boolVar "x@Int"), .core (.boolVar "x@Int1")]
    .empty).state

/-- Another constant of the first name, of another sort, passes over the two others. -/
theorem symbol_search_ends_imitated :
    imitated.bodies = ["x", "x@Int", "x@Int1"] ∧ ("x", SolverSort.int) ∉ imitated.keys ∧
    ∃ rounds ≤ 3,
      (Search.after imitated.bodies "x" .int rounds).symbol = "x@Int2" ∧
      (constant "x" .int imitated).value.expr = .atom "x@Int2" := by
  have hbodies : imitated.bodies = ["x", "x@Int", "x@Int1"] := by decide +kernel
  have hkey : ("x", SolverSort.int) ∉ imitated.keys := by decide +kernel
  have hsymbol : (constant "x" .int imitated).value.expr = .atom "x@Int2" := by decide +kernel
  have hcard : imitated.bodies.toFinset.card = 3 := by
    rw [hbodies]
    decide
  obtain ⟨rounds, hle, _, _, _, _, hconstant⟩ := symbol_search_ends imitated.bodies "x" .int
  obtain ⟨hexpr, _⟩ := hconstant imitated rfl hkey
  rw [hcard] at hle
  rw [hsymbol] at hexpr
  exact ⟨hbodies, hkey, rounds, hle, (SExpr.atom.inj hexpr).symm, hsymbol⟩

end SmtEncoding.SmtLib
