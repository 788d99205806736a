import SmtEncoding.Proofs.Constants

/-!
# Declared symbols and own symbols

Besides declared symbols a term has the symbols that the backend writes itself: the operators and
the constants `true` and `false` (`ownSymbols`).  A declared symbol whose body is one of these is
that symbol to a solver, so the name *captures* it.

The candidates after the first have an `@` in them, and own symbols have none.  So a name captures
an own symbol exactly if it is written the same.  It does so even if the symbol stands between
bars, and even if the name is one that is refused as a simple symbol (`capture_free_iff`).
-/

namespace SmtEncoding.SmtLib

/-! ## First candidates -/

namespace State

/-- Every symbol is that of a candidate for its name, and the candidates before it are taken. -/
def Chosen (s : State) : Prop :=
  ∀ d ∈ s.declarations, ∃ j, d.symbol = escape (candidate d.name d.sort j) ∧
    ∀ l < j, candidateBody d.name d.sort l ∈ s.bodies

theorem Chosen.declare {s : State} (h : s.Chosen) (name : String) (sort : SolverSort) :
    (s.declare name sort).Chosen := by
  have hsub : ∀ b ∈ s.bodies, b ∈ (s.declare name sort).bodies := by
    intro b hb
    rw [bodies_declare]
    exact List.mem_append_left _ hb
  intro d hd
  rcases mem_declare hd with hd | rfl
  · obtain ⟨j, hsymbol, hbelow⟩ := h d hd
    exact ⟨j, hsymbol, fun l hl => hsub _ (hbelow l hl)⟩
  · obtain ⟨j, _, hsymbol, _, hbelow⟩ := freeSymbol_spec s.bodies name sort
    exact ⟨j, hsymbol, fun l hl => hsub _ (hbelow l hl)⟩

/-- Once a name is declared, its first candidate is taken. -/
theorem Chosen.first_mem {s : State} (h : s.Chosen) {d : Declaration} (hd : d ∈ s.declarations) :
    body (escape d.name) ∈ s.bodies := by
  obtain ⟨j, hsymbol, hbelow⟩ := h d hd
  cases j with
  | zero =>
    have hbody : body d.symbol = body (escape d.name) := congrArg body hsymbol
    exact hbody ▸ List.mem_map_of_mem hd
  | succ j => exact hbelow 0 (Nat.succ_pos j)

end State

theorem chosen_constant {s : State} (h : s.Chosen) (name : String) (sort : SolverSort) :
    (constant name sort s).state.Chosen := by
  rcases constant_cases name sort s with ⟨d, _, _, hc⟩ | ⟨_, hc⟩
  · rw [hc]
    exact h
  · rw [hc]
    exact h.declare name sort

/-- No operation gives a constant a symbol that was not chosen for it. -/
theorem chosen_build {s : State} (h : s.Chosen) (op : Operation Obj) :
    (build op s).state.Chosen := by
  rcases build_cases op s with ⟨name, sort, _, hb⟩ | ⟨_, hb | hb⟩
  · rw [hb]
    exact chosen_constant h name sort
  · rw [hb]
    exact h
  · rw [hb]
    exact h

/-- In a run of operations all symbols are chosen. -/
theorem chosen_buildAll (ops : List (Operation Obj)) {s : State} (h : s.Chosen) :
    (buildAll ops s).state.Chosen := by
  induction ops generalizing s with
  | nil => exact h
  | cons op ops ih => exact ih (chosen_build h op)

/-! ## Own symbols -/

/-- The symbols that the backend writes itself. -/
def ownSymbols : List String :=
  ["true", "false", "not", "and", "or", "=>", "=", "<", ">", "<=", ">=", "+", "*", "-", "/",
    "to_real"]

theorem at_not_mem_ownSymbols {text : String} (h : text ∈ ownSymbols) : '@' ∉ text.toList := by
  have hall : ownSymbols.all (fun text => !text.toList.contains '@') = true := by decide +kernel
  have htext := List.all_eq_true.mp hall text h
  rw [Bool.not_eq_true', List.contains_eq_mem, decide_eq_false_iff_not] at htext
  exact htext

theorem at_mem_candidate_succ (name : String) (sort : SolverSort) (i : Nat) :
    '@' ∈ (candidate name sort (i + 1)).toList := by
  cases i with
  | zero => simp [candidate]
  | succ i => simp [candidate]

/-- Only a name itself, and no other candidate for it, is written as an own symbol. -/
theorem eq_zero_of_candidateBody {name : String} {sort : SolverSort} {i : Nat}
    (h : candidateBody name sort i ∈ ownSymbols) : i = 0 := by
  cases i with
  | zero => rfl
  | succ i =>
    refine absurd ?_ (at_not_mem_ownSymbols h)
    rw [candidateBody, toList_body_escape]
    exact List.mem_map.mpr ⟨'@', at_mem_candidate_succ name sort i, rfl⟩

/-- An own symbol is captured exactly if a name is declared that is written the same. -/
theorem State.Chosen.mem_bodies_iff {s : State} (h : s.Chosen) {text : String}
    (htext : text ∈ ownSymbols) :
    text ∈ s.bodies ↔ ∃ d ∈ s.declarations, body (escape d.name) = text := by
  constructor
  · intro hmem
    obtain ⟨d, hd, rfl⟩ := List.mem_map.mp hmem
    obtain ⟨j, hsymbol, _⟩ := h d hd
    have hbody : body d.symbol = candidateBody d.name d.sort j := congrArg body hsymbol
    have hj : j = 0 := eq_zero_of_candidateBody (hbody ▸ htext)
    rw [hj] at hbody
    exact ⟨d, hd, hbody.symm⟩
  · rintro ⟨d, hd, rfl⟩
    exact h.first_mem hd

/-- The keys that are declared are those that were asked for. -/
theorem mem_keys_buildAll {capabilities : Capabilities} {first : Nat} {ops : List (Operation Obj)}
    {k : String × SolverSort} :
    k ∈ (buildAll ops (.empty capabilities first)).state.keys ↔
      k ∈ ops.filterMap Operation.request? := by
  have hempty : (State.empty capabilities first).keys = [] := rfl
  rw [keys_buildAll, hempty, List.nil_append, List.mem_eraseDups]
  simp [List.removeAll]

theorem body_escape (name : String) :
    body (escape name) = String.ofList (name.toList.map quotedChar) := by
  rw [← String.toList_inj, toList_body_escape, String.toList_ofList]

/-- No declared symbol is an own symbol to a solver exactly if no name that was asked for is
written as one, each bar and each backslash in it replaced. -/
theorem capture_free_iff (capabilities : Capabilities) (first : Nat)
    (ops : List (Operation Obj)) :
    (∀ d ∈ (buildAll ops (.empty capabilities first)).state.declarations,
      body d.symbol ∉ ownSymbols) ↔
    ∀ k ∈ ops.filterMap Operation.request?,
      String.ofList (k.1.toList.map quotedChar) ∉ ownSymbols := by
  have hempty : (State.empty capabilities first).Chosen := nofun
  have hchosen := chosen_buildAll ops hempty
  constructor
  · intro hfree k hk hown
    rw [← body_escape] at hown
    obtain ⟨d, hd, rfl⟩ := List.mem_map.mp (mem_keys_buildAll.mpr hk)
    obtain ⟨e, he, hbody⟩ := List.mem_map.mp (hchosen.first_mem hd)
    refine hfree e he ?_
    rw [hbody]
    exact hown
  · intro hfree d hd hown
    obtain ⟨e, he, hbody⟩ := (hchosen.mem_bodies_iff hown).mp (List.mem_map_of_mem hd)
    refine hfree e.key (mem_keys_buildAll.mp (List.mem_map_of_mem he)) ?_
    rw [← body_escape]
    exact hbody ▸ hown

/-- The operator of sums can be declared as a whole number, and between bars the constant `true`
as a truth value. -/
theorem capture_plus_and_true :
    (∃ d ∈ (buildAll [.core (.intVar "+")] (.empty {} 0)).state.declarations,
      body d.symbol ∈ ownSymbols) ∧
    ∃ d ∈ (buildAll [.core (.boolVar "true")] (.empty {} 0)).state.declarations,
      d.symbol = "|true|" ∧ body d.symbol ∈ ownSymbols :=
  ⟨⟨⟨"+", .int, "+", 0⟩, by decide +kernel, by decide +kernel⟩,
    ⟨"true", .bool, "|true|", 0⟩, by decide +kernel, by decide +kernel, by decide +kernel⟩

end SmtEncoding.SmtLib
