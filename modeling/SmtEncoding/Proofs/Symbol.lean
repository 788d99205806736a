import Mathlib.Data.List.Nodup
import Mathlib.Data.List.Perm.Subperm
import SmtEncoding.SmtLib.Symbol

/-!
# Bodies and candidates

The body of an escaped name is the name with each bar and each backslash replaced
(`toList_body_escape`).  So two names have the same body exactly when they agree after that
replacement.

The candidates for a name of a sort stay different after it (`candidate_injective`): the name
itself and the name with its sort differ in length, and from then on they end in different
numbers.  One more candidate than there are taken bodies therefore cannot be all taken, and the
search for a free one ends at the first that is not (`freeSymbol_spec`).
-/

namespace SmtEncoding.SmtLib

/-! ## Quoting characters -/

theorem quotedChar_of_isSymbolChar {c : Char} (h : isSymbolChar c = true) : quotedChar c = c := by
  refine if_neg ?_
  rintro (rfl | rfl)
  · exact absurd h (by decide)
  · exact absurd h (by decide)

theorem quotedChar_of_isDigit {c : Char} (h : c.isDigit = true) : quotedChar c = c := by
  refine if_neg ?_
  rintro (rfl | rfl)
  · exact absurd h (by decide)
  · exact absurd h (by decide)

/-- Neither a bar nor a backslash is left. -/
theorem quotedChar_ne (c : Char) : quotedChar c ≠ '|' ∧ quotedChar c ≠ '\\' := by
  unfold quotedChar
  split
  · decide
  · rename_i h
    exact not_or.mp h

theorem map_quotedChar_of_isDigit {cs : List Char} (h : ∀ c ∈ cs, c.isDigit = true) :
    cs.map quotedChar = cs := by
  rw [List.map_congr_left fun c hc => quotedChar_of_isDigit (h c hc), List.map_id']

/-! ## Simple symbols -/

theorem isSymbolChar_of_mem {cs : List Char} (h : hasSymbolShape cs = true) {c : Char}
    (hc : c ∈ cs) : isSymbolChar c = true := by
  cases cs with
  | nil => cases hc
  | cons d ds =>
    simp only [hasSymbolShape, Bool.and_eq_true, List.all_eq_true] at h
    rcases List.mem_cons.mp hc with rfl | hc
    · exact h.1.2
    · exact h.2 c hc

theorem map_quotedChar_of_hasSymbolShape {cs : List Char} (h : hasSymbolShape cs = true) :
    cs.map quotedChar = cs := by
  rw [List.map_congr_left fun c hc => quotedChar_of_isSymbolChar (isSymbolChar_of_mem h hc),
    List.map_id']

/-- The characters of an escaped name: a simple symbol that is not reserved, or a text in bars. -/
theorem toList_escape (name : String) :
    (hasSymbolShape name.toList = true ∧ name ∉ reserved ∧ (escape name).toList = name.toList) ∨
      (escape name).toList = '|' :: (name.toList.map quotedChar ++ ['|']) := by
  unfold escape
  split
  · rename_i h
    simp only [isSimpleSymbol, Bool.and_eq_true, Bool.not_eq_true', List.contains_eq_mem,
      decide_eq_false_iff_not] at h
    exact Or.inl ⟨h.1, h.2, rfl⟩
  · exact Or.inr (String.toList_ofList)

/-! ## Bodies -/

/-- A symbol without bars is all body. -/
theorem bodyChars_of_hasSymbolShape {cs : List Char} (h : hasSymbolShape cs = true) :
    bodyChars cs = cs := by
  unfold bodyChars
  split
  · rename_i ds
    exact absurd (isSymbolChar_of_mem h (List.mem_cons_self (a := '|') (l := ds))) (by decide)
  · rfl

/-- The body of a symbol between bars is what stands between them. -/
theorem bodyChars_quoted (cs : List Char) : bodyChars ('|' :: (cs ++ ['|'])) = cs := by
  simp [bodyChars]

/-- The body of the symbol for a name is the name, with bars and backslashes replaced. -/
theorem toList_body_escape (name : String) :
    (body (escape name)).toList = name.toList.map quotedChar := by
  rw [body, String.toList_ofList]
  rcases toList_escape name with ⟨hs, _, he⟩ | he
  · rw [he, bodyChars_of_hasSymbolShape hs, map_quotedChar_of_hasSymbolShape hs]
  · rw [he, bodyChars_quoted]

/-- Two names have one body exactly if they agree once bars and backslashes are replaced. -/
theorem body_escape_eq_iff {m n : String} :
    body (escape m) = body (escape n) ↔ m.toList.map quotedChar = n.toList.map quotedChar := by
  rw [← String.toList_inj, toList_body_escape, toList_body_escape]

/-! ## Candidates -/

/-- From the third on, candidates end in a number. -/
theorem toList_candidate_add_two (name : String) (sort : SolverSort) (n : Nat) :
    (candidate name sort (n + 2)).toList =
      (name ++ "@" ++ sort.name).toList ++ Nat.toDigits 10 (n + 1) := by
  simp [candidate, Nat.toList_repr]

theorem isDigit_of_mem_toDigits (n : Nat) : ∀ c ∈ Nat.toDigits 10 n, c.isDigit = true :=
  fun _ hc => Nat.isDigit_of_mem_toDigits (Nat.succ_pos 9) (Nat.le_refl 10) hc

theorem toDigits_injective {m n : Nat} (h : Nat.toDigits 10 m = Nat.toDigits 10 n) : m = n :=
  calc
    m = Nat.ofDigitChars 10 (Nat.toDigits 10 m) 0 := Nat.ofDigitChars_ten_toDigits.symm
    _ = Nat.ofDigitChars 10 (Nat.toDigits 10 n) 0 := by rw [h]
    _ = n := Nat.ofDigitChars_ten_toDigits

/-- The candidates for a name of a sort stay different when they are quoted. -/
theorem candidate_injective (name : String) (sort : SolverSort) {i j : Nat}
    (h : (candidate name sort i).toList.map quotedChar =
      (candidate name sort j).toList.map quotedChar) : i = j := by
  have hlen := congrArg List.length h
  simp only [List.length_map] at hlen
  have hpos : ∀ n, 0 < (Nat.toDigits 10 n).length := fun n => Nat.length_toDigits_pos
  match i, j with
  | 0, 0 => rfl
  | 1, 1 => rfl
  | 0, 1 => simp [candidate] at hlen
  | 1, 0 => simp [candidate] at hlen
  | 0, n + 2 => rw [toList_candidate_add_two] at hlen; simp [candidate] at hlen
  | n + 2, 0 => rw [toList_candidate_add_two] at hlen; simp [candidate] at hlen
  | 1, n + 2 =>
    rw [toList_candidate_add_two] at hlen
    have := hpos (n + 1)
    simp only [candidate, List.length_append] at hlen
    omega
  | n + 2, 1 =>
    rw [toList_candidate_add_two] at hlen
    have := hpos (n + 1)
    simp only [candidate, List.length_append] at hlen
    omega
  | m + 2, n + 2 =>
    rw [toList_candidate_add_two, toList_candidate_add_two, List.map_append, List.map_append,
      List.append_cancel_left_eq] at h
    have hd : ∀ k, (Nat.toDigits 10 k).map quotedChar = Nat.toDigits 10 k :=
      fun k => map_quotedChar_of_isDigit (isDigit_of_mem_toDigits k)
    rw [hd, hd] at h
    have := toDigits_injective h
    omega

/-! ## The first free candidate -/

/-- The body of the symbol of a candidate. -/
def candidateBody (name : String) (sort : SolverSort) (i : Nat) : String :=
  body (escape (candidate name sort i))

/-- Different candidates for one name have different bodies. -/
theorem candidateBody_injective (name : String) (sort : SolverSort) :
    Function.Injective (candidateBody name sort) := fun _ _ h =>
  candidate_injective name sort (body_escape_eq_iff.mp h)

/-- Among one more candidate than there are taken bodies one is free. -/
theorem exists_free (taken : List String) (name : String) (sort : SolverSort) :
    ∃ i ≤ taken.length, candidateBody name sort i ∉ taken := by
  by_contra h
  push Not at h
  have hsub : (List.range (taken.length + 1)).map (candidateBody name sort) ⊆ taken := by
    intro b hb
    obtain ⟨i, hi, rfl⟩ := List.mem_map.mp hb
    exact h i (Nat.le_of_lt_succ (List.mem_range.mp hi))
  have hnodup : ((List.range (taken.length + 1)).map (candidateBody name sort)).Nodup :=
    List.nodup_range.map (candidateBody_injective name sort)
  have hle := (List.subperm_of_subset hnodup hsub).length_le
  rw [List.length_map, List.length_range] at hle
  omega

theorem firstFree_of_mem {taken : List String} {name : String} {sort : SolverSort} {i steps : Nat}
    (h : candidateBody name sort i ∈ taken) :
    firstFree taken name sort i (steps + 1) = firstFree taken name sort (i + 1) steps :=
  if_pos (List.contains_iff_mem.mpr h)

theorem firstFree_of_not_mem {taken : List String} {name : String} {sort : SolverSort}
    {i steps : Nat} (h : candidateBody name sort i ∉ taken) :
    firstFree taken name sort i (steps + 1) = escape (candidate name sort i) :=
  if_neg fun hc => h (List.contains_iff_mem.mp hc)

/-- A search that has a free candidate in reach stops at the first one. -/
theorem firstFree_spec (taken : List String) (name : String) (sort : SolverSort) {k : Nat}
    (hk : candidateBody name sort k ∉ taken) :
    ∀ steps i : Nat, i ≤ k → k ≤ i + steps → ∃ j, i ≤ j ∧ j ≤ k ∧
      firstFree taken name sort i steps = escape (candidate name sort j) ∧
      candidateBody name sort j ∉ taken ∧
      ∀ l, i ≤ l → l < j → candidateBody name sort l ∈ taken := by
  intro steps
  induction steps with
  | zero =>
    intro i hi hks
    obtain rfl : k = i := by omega
    exact ⟨k, Nat.le_refl _, Nat.le_refl _, rfl, hk, fun l h₁ h₂ => absurd h₁ (by omega)⟩
  | succ steps ih =>
    intro i hi hks
    by_cases hmem : candidateBody name sort i ∈ taken
    · rw [firstFree_of_mem hmem]
      have hne : i ≠ k := fun h => hk (h ▸ hmem)
      obtain ⟨j, h₁, h₂, hfirst, hfree, hbelow⟩ := ih (i + 1) (by omega) (by omega)
      refine ⟨j, by omega, h₂, hfirst, hfree, fun l hl hlj => ?_⟩
      rcases Nat.eq_or_lt_of_le hl with rfl | hl
      · exact hmem
      · exact hbelow l hl hlj
    · exact ⟨i, Nat.le_refl _, hi, firstFree_of_not_mem hmem, hmem,
        fun l h₁ h₂ => absurd h₁ (by omega)⟩

/-- The symbol chosen for a name of a sort is that of the first candidate whose body is free. -/
theorem freeSymbol_spec (taken : List String) (name : String) (sort : SolverSort) :
    ∃ j ≤ taken.length, freeSymbol taken name sort = escape (candidate name sort j) ∧
      candidateBody name sort j ∉ taken ∧ ∀ l < j, candidateBody name sort l ∈ taken := by
  obtain ⟨k, hle, hk⟩ := exists_free taken name sort
  obtain ⟨j, _, hjk, hfirst, hfree, hbelow⟩ :=
    firstFree_spec taken name sort hk taken.length 0 (by omega) (by omega)
  exact ⟨j, by omega, hfirst, hfree, fun l hl => hbelow l (Nat.zero_le l) hl⟩

/-- The body of the symbol that is found is free. -/
theorem body_freeSymbol_not_mem (taken : List String) (name : String) (sort : SolverSort) :
    body (freeSymbol taken name sort) ∉ taken := by
  obtain ⟨j, _, hsymbol, hfree, _⟩ := freeSymbol_spec taken name sort
  rw [hsymbol]
  exact hfree

end SmtEncoding.SmtLib
