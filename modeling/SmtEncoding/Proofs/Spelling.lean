import Mathlib
import SmtEncoding.Proofs.Symbol

/-!
# How names are spelled

A name that is a simple symbol (`IsSimple`) is spelled as it is, and any other name between bars.
A symbol between bars may have any character but a bar and a backslash.  Names may have those as
well, so they become underscores (`underscored`).

A simple symbol does not begin with a digit and is not reserved, and a number or a reserved word
does not begin with a bar.  So no symbol of a name is a number (`not_isNumber_escape`) or reserved
(`escape_not_mem_reserved`), and in particular none is one of the constants `true` and `false`.

The bars around a symbol are no part of it to a solver.  What is left of a name is therefore the
name with its underscores, whether it stands between bars or not (`body_escape_eq_underscored`).
Names come out the same exactly if they differ in nothing but bars, backslashes and underscores
(`underscored_eq_iff`).
-/

namespace SmtEncoding.SmtLib

/-! ## Simple symbols -/

/-- An ASCII letter. -/
def IsLetter (c : Char) : Prop := 'a' ≤ c ∧ c ≤ 'z' ∨ 'A' ≤ c ∧ c ≤ 'Z'

/-- An ASCII digit. -/
def IsDigit (c : Char) : Prop := '0' ≤ c ∧ c ≤ '9'

instance : DecidablePred IsDigit := fun c => inferInstanceAs (Decidable ('0' ≤ c ∧ c ≤ '9'))

/-- A text that is a simple symbol and is not reserved. -/
structure IsSimple (text : String) : Prop where
  nonempty : text ≠ ""
  first : ∀ c ∈ text.toList.head?, ¬ IsDigit c
  chars : ∀ c ∈ text.toList, IsLetter c ∨ IsDigit c ∨ c ∈ "~!@$%^&*_-+=<>.?/".toList
  free : text ∉ reserved

theorem isDigit_iff {c : Char} : c.isDigit = true ↔ IsDigit c := by
  simp [Char.isDigit, IsDigit, Char.le_def]

/-- The characters of simple symbols are letters, digits and the signs of the standard. -/
theorem isSymbolChar_iff {c : Char} :
    isSymbolChar c = true ↔ IsLetter c ∨ IsDigit c ∨ c ∈ "~!@$%^&*_-+=<>.?/".toList := by
  have hletter : c.isAlpha = true ↔ IsLetter c := by
    simp [Char.isAlpha, Char.isUpper, Char.isLower, IsLetter, Char.le_def, or_comm]
  have hsign : symbolSigns.contains c = true ↔ c ∈ "~!@$%^&*_-+=<>.?/".toList :=
    List.contains_iff_mem
  rw [isSymbolChar, Bool.or_eq_true, hsign, Char.isAlphanum, Bool.or_eq_true, hletter,
    isDigit_iff, or_assoc]

theorem hasSymbolShape_iff {cs : List Char} :
    hasSymbolShape cs = true ↔
      cs ≠ [] ∧ (∀ c ∈ cs.head?, ¬ IsDigit c) ∧ ∀ c ∈ cs, isSymbolChar c = true := by
  cases cs with
  | nil => simp [hasSymbolShape]
  | cons c cs => simp [hasSymbolShape, ← isDigit_iff, and_assoc]

/-- The check of a name decides whether it is a simple symbol that is not reserved. -/
theorem isSimpleSymbol_iff {name : String} : isSimpleSymbol name = true ↔ IsSimple name := by
  rw [isSimpleSymbol, Bool.and_eq_true, hasSymbolShape_iff, Bool.not_eq_true',
    List.contains_eq_mem, decide_eq_false_iff_not]
  constructor
  · rintro ⟨⟨hne, hfirst, hchars⟩, hfree⟩
    refine ⟨?_, hfirst, fun c hc => isSymbolChar_iff.mp (hchars c hc), hfree⟩
    rintro rfl
    exact hne rfl
  · intro h
    refine ⟨⟨fun hnil => ?_, h.first, fun c hc => isSymbolChar_iff.mpr (h.chars c hc)⟩, h.free⟩
    exact h.nonempty (String.toList_inj.mp hnil)

/-! ## Underscores -/

/-- A text with an underscore for each bar and each backslash. -/
def underscored (text : String) : String :=
  text.map fun c => if c = '|' ∨ c = '\\' then '_' else c

theorem toList_underscored (text : String) :
    (underscored text).toList = text.toList.map quotedChar :=
  String.toList_map

/-- No bar and no backslash is left. -/
theorem ne_of_mem_underscored {text : String} {c : Char} (h : c ∈ (underscored text).toList) :
    c ≠ '|' ∧ c ≠ '\\' := by
  rw [toList_underscored] at h
  obtain ⟨d, _, rfl⟩ := List.mem_map.mp h
  exact quotedChar_ne d

/-- The characters that come out as underscores. -/
def underscores : List Char := ['|', '\\', '_']

theorem quotedChar_of_mem {c : Char} (h : c ∈ underscores) : quotedChar c = '_' := by
  simp only [underscores, List.mem_cons, List.not_mem_nil, or_false] at h
  rcases h with rfl | rfl | rfl <;> rfl

theorem quotedChar_of_not_mem {c : Char} (h : c ∉ underscores) : quotedChar c = c := by
  refine if_neg fun hc => h ?_
  rcases hc with rfl | rfl <;> decide

/-- Two characters come out the same exactly if they are the same or both come out as an underscore.
-/
theorem quotedChar_eq_iff {c d : Char} :
    quotedChar c = quotedChar d ↔ c = d ∨ c ∈ underscores ∧ d ∈ underscores := by
  -- The underscore is one of these characters, so no character but these comes out as one.
  by_cases hc : c ∈ underscores <;> by_cases hd : d ∈ underscores
  · simp [quotedChar_of_mem hc, quotedChar_of_mem hd, hc, hd]
  · have hne : ∀ x ∈ underscores, x ≠ d := fun x hx h => hd (h ▸ hx)
    simp [quotedChar_of_mem hc, quotedChar_of_not_mem hd, hd, hne c hc, hne '_' (by decide)]
  · have hne : ∀ x ∈ underscores, c ≠ x := fun x hx h => hc (h ▸ hx)
    simp [quotedChar_of_not_mem hc, quotedChar_of_mem hd, hc, hne d hd, hne '_' (by decide)]
  · simp [quotedChar_of_not_mem hc, quotedChar_of_not_mem hd, hc]

/-- Texts come out the same exactly if they differ only where both come out as underscores. -/
theorem underscored_eq_iff {m n : String} :
    underscored m = underscored n ↔
      List.Forall₂ (fun c d => c = d ∨ c ∈ underscores ∧ d ∈ underscores) m.toList n.toList := by
  simp only [← quotedChar_eq_iff]
  rw [← String.toList_inj, toList_underscored, toList_underscored, ← List.forall₂_eq_eq_eq,
    List.forall₂_map_left_iff, List.forall₂_map_right_iff]

/-! ## Symbols of names -/

variable {name : String}

/-- A simple symbol is spelled as it is. -/
theorem escape_of_simple (h : IsSimple name) : escape name = name :=
  if_pos (isSimpleSymbol_iff.mpr h)

/-- Any other name stands between bars, with its underscores. -/
theorem escape_of_not_simple (h : ¬ IsSimple name) :
    escape name = "|" ++ underscored name ++ "|" := by
  rw [escape, if_neg (mt isSimpleSymbol_iff.mp h), ← String.toList_inj, String.toList_ofList,
    String.toList_append, String.toList_append, toList_underscored]
  rfl

theorem head?_escape_of_not_simple (h : ¬ IsSimple name) :
    (escape name).toList.head? = some '|' := by
  rw [escape_of_not_simple h, String.toList_append, String.toList_append]
  rfl

/-- No name is spelled as a reserved word. -/
theorem escape_not_mem_reserved (name : String) : escape name ∉ reserved := by
  by_cases h : IsSimple name
  · rw [escape_of_simple h]
    exact h.free
  · have hwords : ∀ word ∈ reserved, word.toList.head? ≠ some '|' := by decide +kernel
    intro hmem
    exact hwords _ hmem (head?_escape_of_not_simple h)

theorem escape_ne_of_mem_reserved (name : String) {word : String} (h : word ∈ reserved) :
    escape name ≠ word := by
  rintro rfl
  exact escape_not_mem_reserved name h

/-- No symbol of a name begins with a digit. -/
theorem not_isDigit_of_mem_head?_escape {c : Char} (hc : c ∈ (escape name).toList.head?) :
    ¬ IsDigit c := by
  by_cases h : IsSimple name
  · rw [escape_of_simple h] at hc
    exact h.first c hc
  · rw [head?_escape_of_not_simple h] at hc
    cases hc
    decide

/-- Without bars, a symbol is its name with underscores. -/
theorem body_escape_eq_underscored (name : String) : body (escape name) = underscored name := by
  rw [← String.toList_inj, toList_body_escape, toList_underscored]

/-! ## Numbers -/

/-- The characters of a numeral: some, and all of them digits. -/
def IsNumeral (cs : List Char) : Prop := cs ≠ [] ∧ ∀ c ∈ cs, IsDigit c

/-- The characters of a number: a numeral, or one on each side of a point. -/
def IsNumber (cs : List Char) : Prop :=
  IsNumeral cs ∨
    ∃ whole fraction, cs = whole ++ '.' :: fraction ∧ IsNumeral whole ∧ IsNumeral fraction

/-- A numeral begins with a digit, whatever comes after it. -/
theorem IsNumeral.head? {cs : List Char} (h : IsNumeral cs) (rest : List Char) :
    ∃ c ∈ (cs ++ rest).head?, IsDigit c := by
  cases cs with
  | nil => exact absurd rfl h.1
  | cons c cs => exact ⟨c, rfl, h.2 c List.mem_cons_self⟩

theorem IsNumber.head? {cs : List Char} (h : IsNumber cs) : ∃ c ∈ cs.head?, IsDigit c := by
  rcases h with h | ⟨whole, fraction, rfl, h, _⟩
  · simpa using h.head? []
  · exact h.head? _

/-- No name is spelled as a number. -/
theorem not_isNumber_escape (name : String) : ¬ IsNumber (escape name).toList := by
  intro h
  obtain ⟨c, hc, hdigit⟩ := h.head?
  exact not_isDigit_of_mem_head?_escape hc hdigit

/-- A name that is a simple symbol is its own symbol, and any other stands between bars, with an
underscore for each bar and each backslash.  The symbol is neither a number nor `true` nor `false`.
What a solver sees of it is the name with the underscores, so two names are told apart exactly if
they differ in more than bars, backslashes and underscores. -/
theorem escape_legal (name : String) :
    (IsSimple name ∧ escape name = name ∨
      ¬ IsSimple name ∧ escape name = "|" ++ underscored name ++ "|" ∧
        ∀ c ∈ (underscored name).toList, c ≠ '|' ∧ c ≠ '\\') ∧
    ¬ IsNumber (escape name).toList ∧ escape name ≠ "true" ∧ escape name ≠ "false" ∧
    body (escape name) = underscored name ∧
    ∀ other : String,
      (body (escape other) = body (escape name) ↔ underscored other = underscored name) ∧
      (underscored other = underscored name ↔
        List.Forall₂ (fun c d => c = d ∨ c ∈ underscores ∧ d ∈ underscores)
          other.toList name.toList) := by
  refine ⟨?_, not_isNumber_escape name, escape_ne_of_mem_reserved name (by decide),
    escape_ne_of_mem_reserved name (by decide), body_escape_eq_underscored name,
    fun other => ⟨?_, underscored_eq_iff⟩⟩
  · by_cases h : IsSimple name
    · exact Or.inl ⟨h, escape_of_simple h⟩
    · exact Or.inr ⟨h, escape_of_not_simple h, fun c hc => ne_of_mem_underscored hc⟩
  · rw [body_escape_eq_underscored, body_escape_eq_underscored]

/-- A name that looks like a symbol between bars is put between bars of its own. -/
example : escape "|a|" = "|_a_|" ∧ body (escape "|a|") = "_a_" := by decide

end SmtEncoding.SmtLib
