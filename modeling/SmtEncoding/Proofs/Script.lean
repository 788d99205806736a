import SmtEncoding.Proofs.Lexing
import SmtEncoding.Proofs.Soundness
import SmtEncoding.SmtLib.Script

/-!
# Reading a script

What a name can put into a script is the symbol that is declared for it, and that is one token
whatever the name (`isToken_escape`).  Literals and operators are words.  So every atom of a term
that has a sort is one token (`tokenized_of_sort?`), and the answers of a session are such terms.

The text of a script is therefore read as the commands that it was written for, and the texts of
two answers are the same only if the terms are (`script_reads_back`).
-/

namespace SmtEncoding

namespace SExpr

variable {α : Type} {p : String → Prop} {atom : String → Option α}
  {apply : String → List α → Option α}

mutual

/-- What is read has a property at every atom, if atoms and operators that are read have it. -/
theorem everyAtom_of_read? (hatom : ∀ text a, atom text = some a → p text)
    (happly : ∀ operator as a, apply operator as = some a → p operator) :
    ∀ {x : SExpr} {a : α}, x.read? atom apply = some a → x.EveryAtom p
  | .atom text, a, h => by
    rw [read?] at h
    exact hatom text a h
  | .list (.atom operator :: operands), a, h => by
    rw [read?] at h
    obtain ⟨as, hs, ha⟩ := Option.bind_eq_some_iff.mp h
    exact ⟨happly operator as a ha, everyAtomAll_of_readAll? hatom happly hs⟩
  | .list [], a, h => by
    rw [read?] at h
    · cases h
    · nofun
  | .list (.list _ :: _), a, h => by
    rw [read?] at h
    · cases h
    · nofun

theorem everyAtomAll_of_readAll? (hatom : ∀ text a, atom text = some a → p text)
    (happly : ∀ operator as a, apply operator as = some a → p operator) :
    ∀ {xs : List SExpr} {as : List α}, readAll? atom apply xs = some as → EveryAtomAll p xs
  | [], _, _ => trivial
  | x :: xs, as, h => by
    rw [readAll?] at h
    obtain ⟨b, hb, h⟩ := Option.bind_eq_some_iff.mp h
    obtain ⟨bs, hbs, _⟩ := Option.map_eq_some_iff.mp h
    exact ⟨everyAtom_of_read? hatom happly hb, everyAtomAll_of_readAll? hatom happly hbs⟩

end

theorem everyAtomAll_iff {xs : List SExpr} : EveryAtomAll p xs ↔ ∀ x ∈ xs, x.EveryAtom p := by
  induction xs with
  | nil => exact ⟨fun _ => nofun, fun _ => trivial⟩
  | cons x xs ih => rw [EveryAtomAll, ih, List.forall_mem_cons]

end SExpr

namespace SmtLib

/-! ## Atoms that are tokens -/

/-- What is true of no white space and of no mark is true of characters of words only. -/
theorem isWordChar_of {q : Char → Bool} (h : (blanks ++ marks).any q = false) {c : Char}
    (hc : q c = true) : isWordChar c = true := by
  rw [isWordChar, Bool.not_eq_true', List.contains_eq_mem, decide_eq_false_iff_not]
  intro hmem
  exact List.any_eq_false.mp h c hmem hc

theorem isWordChar_of_isDigit {c : Char} (h : c.isDigit = true) : isWordChar c = true :=
  isWordChar_of (by decide) h

theorem isWordChar_of_isSymbolChar {c : Char} (h : isSymbolChar c = true) : isWordChar c = true :=
  isWordChar_of (by decide) h

/-- The symbol of a name is one token, whatever the name. -/
theorem isToken_escape (name : String) : IsToken (escape name).toList := by
  rcases toList_escape name with ⟨hshape, _, hlist⟩ | hlist
  · rw [hlist]
    refine .word (isWord_iff.mpr ⟨fun hnil => ?_, fun c hc => ?_⟩)
    · rw [hnil] at hshape
      cases hshape
    · exact isWordChar_of_isSymbolChar (isSymbolChar_of_mem hshape hc)
  · rw [hlist]
    refine .quoted fun c hc => ?_
    obtain ⟨d, _, rfl⟩ := List.mem_map.mp hc
    exact quotedChar_ne d

theorem isDigit_of_digits? {cs : List Char} {n : Nat} (h : digits? cs = some n) :
    cs ≠ [] ∧ ∀ c ∈ cs, c.isDigit = true := by
  unfold digits? at h
  split at h
  · rename_i hcs
    exact ⟨hcs.1, List.all_eq_true.mp hcs.2⟩
  · cases h

/-- The characters of a number are digits, with a point among them at most. -/
theorem isToken_of_number? {cs : List Char} {v : Value} (h : number? cs = some v) :
    IsToken cs := by
  have happend := List.takeWhile_append_dropWhile (p := Char.isDigit) (l := cs)
  unfold number? at h
  split at h
  · obtain ⟨n, hn, _⟩ := Option.map_eq_some_iff.mp h
    obtain ⟨hne, hdigits⟩ := isDigit_of_digits? hn
    exact .word (isWord_iff.mpr ⟨hne, fun c hc => isWordChar_of_isDigit (hdigits c hc)⟩)
  · rename_i fraction hdrop
    obtain ⟨n, hn, h⟩ := Option.bind_eq_some_iff.mp h
    obtain ⟨m, hm, _⟩ := Option.bind_eq_some_iff.mp h
    obtain ⟨_, hwhole⟩ := isDigit_of_digits? hn
    obtain ⟨_, hfraction⟩ := isDigit_of_digits? hm
    rw [hdrop] at happend
    rw [← happend]
    refine .word (isWord_iff.mpr ⟨List.append_ne_nil_of_right_ne_nil _ (List.cons_ne_nil _ _), ?_⟩)
    intro c hc
    rcases List.mem_append.mp hc with hc | hc
    · exact isWordChar_of_isDigit (hwhole c hc)
    · rcases List.mem_cons.mp hc with rfl | hc
      · decide +kernel
      · exact isWordChar_of_isDigit (hfraction c hc)
  · cases h

/-- A literal is one token. -/
theorem isToken_of_literal? {text : String} {v : Value} (h : literal? text = some v) :
    IsToken text.toList := by
  unfold literal? at h
  split at h
  · rename_i htext
    subst htext
    exact .word (by decide +kernel)
  · split at h
    · rename_i htext
      subst htext
      exact .word (by decide +kernel)
    · exact isToken_of_number? h

/-- The sign of an operator is one token. -/
theorem isToken_of_ofSymbol? {operator : String} {op : Operator}
    (h : Operator.ofSymbol? operator = some op) : IsToken operator.toList := by
  unfold Operator.ofSymbol? at h
  split at h
  case h_15 => cases h
  all_goals exact .word (by decide +kernel)

/-! ## Terms that are read back -/

variable {s : State}

theorem isToken_symbol (h : s.Wf) {d : Declaration} (hd : d ∈ s.declarations) :
    IsToken d.symbol.toList := by
  obtain ⟨name, hname⟩ := h.escaped d hd
  rw [hname]
  exact isToken_escape name

/-- Every atom of a term that has a sort is one token. -/
theorem tokenized_of_sort? (h : s.Wf) {x : SExpr} {sort : SolverSort} (hx : s.sort? x = some sort) :
    Tokenized x := by
  refine SExpr.everyAtom_of_read? (fun text a ha => ?_) (fun operator as a ha => ?_) hx
  · rcases Option.or_eq_some_iff.mp ha with ha | ⟨_, ha⟩
    · obtain ⟨v, hv, _⟩ := Option.map_eq_some_iff.mp ha
      exact isToken_of_literal? hv
    · obtain ⟨d, hd, _⟩ := Option.map_eq_some_iff.mp ha
      obtain ⟨hmem, rfl⟩ := (State.declared?_eq_some_iff h).mp hd
      exact isToken_symbol h hmem
  · obtain ⟨op, hop, _⟩ := Option.bind_eq_some_iff.mp ha
    exact isToken_of_ofSymbol? hop

/-- Every atom of the commands of a script is one token, if every atom of the assertions is. -/
theorem tokenizedAll_commands (h : s.Wf) {assertions : List SExpr}
    (hassertions : ∀ x ∈ assertions, Tokenized x) : TokenizedAll (commands s assertions) := by
  refine SExpr.everyAtomAll_iff.mpr fun x hx => ?_
  rcases List.mem_append.mp hx with hx | hx
  · rcases List.mem_append.mp hx with hx | hx
    · obtain ⟨d, hd, rfl⟩ := List.mem_map.mp hx
      refine ⟨.word (by decide +kernel), isToken_symbol h hd, ?_, trivial⟩
      cases d.sort <;> exact .word (by decide +kernel)
    · obtain ⟨y, hy, rfl⟩ := List.mem_map.mp hx
      exact ⟨.word (by decide +kernel), hassertions y hy, trivial⟩
  · rw [List.mem_singleton.mp hx]
    exact ⟨.word (by decide +kernel), trivial⟩

/-! ## Sessions -/

/-- Every atom of an answer of a session is one token. -/
theorem tokenized_answer (capabilities : Capabilities) (first : Nat) (options : Options)
    (steps : List Step) {o : Object Obj}
    (ho : .ok (some o) ∈ (Session.performAll steps
      (.start (B := backend) (.empty capabilities first) options)).value) :
    Tokenized o.value.expr := by
  obtain ⟨hsessions, _, houtcomes⟩ :=
    evaluation_performAll capabilities first options steps .zero
  obtain ⟨y, _, hy⟩ := exists_rel_of_mem houtcomes ho
  cases hy with
  | ok hop =>
    cases hop with
    | some hop =>
      cases hop with
      | mk hvalue =>
        have hsort := State.sort?_of_value? hvalue
        exact tokenized_of_sort? hsessions.encoder.backend.1 hsort

/-- The text of the script of a session, with any truth values that the session answered with as
assertions, is read as one declaration for each constant in order, one assertion of each of these
terms, and the command that asks for satisfiability.  Answers of two sessions have the same text
exactly if they are the same term. -/
theorem script_reads_back (capabilities : Capabilities) (first : Nat) (options : Options)
    (steps : List Step) :
    let reached := Session.performAll steps
      (.start (B := backend) (.empty capabilities first) options)
    (∀ assertions : List Node, (∀ x ∈ assertions, .ok (some ⟨.bool, x⟩) ∈ reached.value) →
      readText? (script reached.state.encoder.backend (assertions.map Node.expr)) = some
        (reached.state.encoder.backend.declarations.map
            (fun d => .list [.atom "declare-const", .atom d.symbol, .atom d.sort.name]) ++
          assertions.map (fun x => .list [.atom "assert", x.expr]) ++
          [.list [.atom "check-sat"]])) ∧
    ∀ (capabilities' : Capabilities) (first' : Nat) (options' : Options) (steps' : List Step)
      (o p : Object Obj), .ok (some o) ∈ reached.value →
      .ok (some p) ∈ (Session.performAll steps'
        (.start (B := backend) (.empty capabilities' first') options')).value →
        (o.value.expr.text = p.value.expr.text ↔ o.value.expr = p.value.expr) := by
  intro reached
  constructor
  · intro assertions hanswers
    have htokens : ∀ x ∈ assertions.map Node.expr, Tokenized x := by
      intro x hx
      obtain ⟨node, hnode, rfl⟩ := List.mem_map.mp hx
      exact tokenized_answer capabilities first options steps (hanswers node hnode)
    have hwf : reached.state.encoder.backend.Wf :=
      (evaluation_performAll capabilities first options steps .zero).1.encoder.backend.1
    refine (readText?_lines (tokenizedAll_commands hwf htokens)).trans ?_
    rw [commands, List.map_map]
    rfl
  · intro capabilities' first' options' steps' o p ho hp
    exact text_eq_iff (tokenized_answer capabilities first options steps ho)
      (tokenized_answer capabilities' first' options' steps' hp)

/-- A formula over names that look like commands, comments and quoted text. -/
def injecting : Expr :=
  .and [.literal ⟨"a)\n(assert false", .bool⟩ true, .literal ⟨"|;\"\\", .bool⟩ false]

/-- What the formula is encoded as. -/
def injectingTerm : SExpr :=
  .apply "and" [.atom "|a)\n(assert false|", .apply "not" [.atom "|_;\"_|"]]

/-- Names that look like syntax stay names. -/
theorem script_reads_back_injecting :
    let reached := Session.performAll [.encode injecting] (.start (B := backend) (.empty {} 0) {})
    readText? (script reached.state.encoder.backend [injectingTerm]) = some
      [.list [.atom "declare-const", .atom "|a)\n(assert false|", .atom "Bool"],
        .list [.atom "declare-const", .atom "|_;\"_|", .atom "Bool"],
        .list [.atom "assert", injectingTerm], .list [.atom "check-sat"]] ∧
    (injectingTerm.text = "|a)\n(assert false|" ↔
      injectingTerm = .atom "|a)\n(assert false|") := by
  intro reached
  have hterm : .ok (some ⟨.bool, ⟨3, injectingTerm⟩⟩) ∈ reached.value :=
    List.mem_of_getElem? (i := 0) rfl
  have hatom : .ok (some ⟨.int, ⟨0, .atom "|a)\n(assert false|"⟩⟩) ∈
      (Session.performAll [.declare ⟨"a)\n(assert false", .integer⟩]
        (.start (B := backend) (.empty {} 0) {})).value :=
    List.mem_of_getElem? (i := 0) rfl
  have h := script_reads_back {} 0 {} [.encode injecting]
  have hscript := h.1 [⟨3, injectingTerm⟩] (List.forall_mem_singleton.mpr hterm)
  exact ⟨hscript, h.2 {} 0 {} _ _ _ hterm hatom⟩

end SmtLib

end SmtEncoding
