import SmtEncoding.SmtLib.SExpr

/-!
# Reading a text

The lexical rules of SMT-LIB cut a text into tokens.  White space and comments stand between
tokens.  A token is a bracket, a string literal, a symbol between bars, or a word, which goes on
until a character that belongs to no word.  A token keeps the quotation marks or bars that it is
written with.  The tokens are then read as s-expressions, bracket by bracket.

A text that is one token (`IsToken`) is cut off as that token wherever a character follows that
ends it (`lex_token`).  So if every atom of an s-expression is a token, its text is cut into its
tokens (`lex_text`) and read as the s-expression again (`readText?_text`).  The same holds for
texts of s-expressions one a line (`readText?_lines`).
-/

namespace SmtEncoding

namespace SmtLib

/-! ## Tokens -/

/-- White space. -/
def blanks : List Char := [' ', '\t', '\n', '\r']

/-- The characters besides white space that belong to no word. -/
def marks : List Char := ['(', ')', ';', '"', '|']

/-- Whether a word may have a character. -/
def isWordChar (c : Char) : Bool := !(blanks ++ marks).contains c

/-- A bracket, or an atom as it is written. -/
inductive Token where
  | left
  | right
  | atom (text : String)
deriving DecidableEq, Repr

/-- What is being read.  The characters of a token that is not complete are kept last first. -/
inductive Scan where
  /-- White space, or nothing yet. -/
  | between
  | comment
  | word (read : List Char)
  /-- A symbol between bars, where any character but a bar and a backslash may stand. -/
  | quoted (read : List Char)
  | string (read : List Char)
  /-- A string literal with a quotation mark that ends it, unless another one follows. -/
  | stringMark (read : List Char)
deriving DecidableEq, Repr

/-- The atom whose characters were read. -/
def atomOf (read : List Char) : Token := .atom (String.ofList read.reverse)

namespace Scan

/-- What a character between tokens begins, after the bracket that it may be. -/
def start (c : Char) : List Token × Scan :=
  if blanks.contains c then ([], between)
  else match c with
    | '(' => ([.left], between)
    | ')' => ([.right], between)
    | ';' => ([], comment)
    | '"' => ([], string [c])
    | '|' => ([], quoted [c])
    | _ => ([], word [c])

/-- The tokens that a character completes, and what is being read after it.  A backslash between
bars is an error. -/
def step : Scan → Char → Option (List Token × Scan)
  | between, c => some (start c)
  | comment, c => some ([], if c = '\n' ∨ c = '\r' then between else comment)
  | word read, c =>
    if isWordChar c then some ([], word (c :: read))
    else some (atomOf read :: (start c).1, (start c).2)
  | quoted read, c =>
    if c = '|' then some ([atomOf (c :: read)], between)
    else if c = '\\' then none
    else some ([], quoted (c :: read))
  | string read, c => some ([], if c = '"' then stringMark (c :: read) else string (c :: read))
  | stringMark read, c =>
    if c = '"' then some ([], string (c :: read))
    else some (atomOf read :: (start c).1, (start c).2)

/-- The token that the end of a text completes.  Bars and string literals have to be closed. -/
def finish : Scan → Option (List Token)
  | between | comment => some []
  | word read | stringMark read => some [atomOf read]
  | quoted _ | string _ => none

end Scan

/-- Cuts a text into tokens. -/
def lex : Scan → List Char → Option (List Token)
  | r, [] => r.finish
  | r, c :: cs => (r.step c).bind fun p => (lex p.2 cs).map (p.1 ++ ·)

/-! ## S-expressions -/

/-- Reads tokens as s-expressions.  The items of the innermost list are kept last first, and before
them those of the lists around it. -/
def parse : List (List SExpr) → List SExpr → List Token → Option (List SExpr)
  | [], items, [] => some items.reverse
  | _ :: _, _, [] => none
  | outer, items, .left :: tokens => parse (items :: outer) [] tokens
  | [], _, .right :: _ => none
  | around :: outer, items, .right :: tokens => parse outer (.list items.reverse :: around) tokens
  | outer, items, .atom text :: tokens => parse outer (.atom text :: items) tokens

/-- Reads a text as s-expressions. -/
def readText? (text : String) : Option (List SExpr) :=
  (lex .between text.toList).bind (parse [] [])

section Tests

example : readText? "(a |b (c\n| \"d \"\" )\") ; e (\n f" =
    some [.list [.atom "a", .atom "|b (c\n|", .atom "\"d \"\" )\""], .atom "f"] := by decide +kernel
example : readText? "(a" = none := by decide +kernel
example : readText? "|a\\|" = none := by decide +kernel

end Tests

/-! ## Texts of tokens -/

/-- Whether characters are a word: some, and all of them characters of words. -/
def isWord (cs : List Char) : Bool := !cs.isEmpty && cs.all isWordChar

theorem isWord_iff {cs : List Char} :
    isWord cs = true ↔ cs ≠ [] ∧ ∀ c ∈ cs, isWordChar c = true := by
  simp [isWord]

/-- A text that is one token: a word, or a symbol between bars. -/
inductive IsToken : List Char → Prop where
  | word {cs : List Char} : isWord cs = true → IsToken cs
  | quoted {cs : List Char} : (∀ c ∈ cs, c ≠ '|' ∧ c ≠ '\\') → IsToken ('|' :: (cs ++ ['|']))

/-- A text that does not go on with a word. -/
def EndsWord (rest : List Char) : Prop := ∀ c ∈ rest.head?, isWordChar c = false

theorem start_of_isWordChar {c : Char} (h : isWordChar c = true) :
    Scan.start c = ([], .word [c]) := by
  simp only [isWordChar, blanks, marks, List.cons_append, List.nil_append, Bool.not_eq_true',
    List.contains_eq_mem, decide_eq_false_iff_not, List.mem_cons, not_or] at h
  unfold Scan.start
  split
  · rename_i hblank
    simp [blanks, h] at hblank
  · split <;> simp_all

theorem lex_cons {r : Scan} {c : Char} {out : List Token} {next : Scan}
    (h : r.step c = some (out, next)) (cs : List Char) :
    lex r (c :: cs) = (lex next cs).map (out ++ ·) := by
  rw [lex, h, Option.bind_some]

/-- A word is read up to its end as one token. -/
theorem lex_word {rest : List Char} (hrest : EndsWord rest) (read : List Char) {cs : List Char}
    (h : ∀ c ∈ cs, isWordChar c = true) :
    lex (.word read) (cs ++ rest) =
      (lex .between rest).map (atomOf (cs.reverse ++ read) :: ·) := by
  induction cs generalizing read with
  | nil =>
    cases rest with
    | nil => rfl
    | cons c rest =>
      have hc : isWordChar c = false := hrest c rfl
      have hstep : (Scan.word read).step c =
          some (atomOf read :: (Scan.start c).1, (Scan.start c).2) := by
        simp [Scan.step, hc]
      rw [List.nil_append, lex_cons hstep, lex_cons (r := .between) rfl, Option.map_map]
      rfl
  | cons c cs ih =>
    obtain ⟨hc, hcs⟩ := List.forall_mem_cons.mp h
    have hstep : (Scan.word read).step c = some ([], .word (c :: read)) := if_pos hc
    rw [List.cons_append, lex_cons hstep, ih (c :: read) hcs, Option.map_map]
    simp [Function.comp_def]

/-- What stands between bars is read up to the closing one as one token. -/
theorem lex_quoted (rest read : List Char) {cs : List Char} (h : ∀ c ∈ cs, c ≠ '|' ∧ c ≠ '\\') :
    lex (.quoted read) (cs ++ '|' :: rest) =
      (lex .between rest).map (atomOf ('|' :: (cs.reverse ++ read)) :: ·) := by
  induction cs generalizing read with
  | nil =>
    have hstep : (Scan.quoted read).step '|' = some ([atomOf ('|' :: read)], .between) := rfl
    exact lex_cons hstep rest
  | cons c cs ih =>
    obtain ⟨⟨hbar, hslash⟩, hcs⟩ := List.forall_mem_cons.mp h
    have hstep : (Scan.quoted read).step c = some ([], .quoted (c :: read)) := by
      simp [Scan.step, hbar, hslash]
    rw [List.cons_append, lex_cons hstep, ih (c :: read) hcs, Option.map_map]
    simp [Function.comp_def]

/-- A text that is one token is cut off as that token. -/
theorem lex_token {text : String} (h : IsToken text.toList) {rest : List Char}
    (hrest : EndsWord rest) :
    lex .between (text.toList ++ rest) = (lex .between rest).map (.atom text :: ·) := by
  generalize hcs : text.toList = cs at h
  cases h with
  | word hword =>
    obtain ⟨hne, hword⟩ := isWord_iff.mp hword
    obtain ⟨c, cs, rfl⟩ := List.exists_cons_of_ne_nil hne
    obtain ⟨hc, hcs'⟩ := List.forall_mem_cons.mp hword
    have hstep : Scan.between.step c = some ([], .word [c]) :=
      congrArg some (start_of_isWordChar hc)
    rw [List.cons_append, lex_cons hstep, lex_word hrest [c] hcs', Option.map_map]
    have hatom : atomOf (cs.reverse ++ [c]) = .atom text := by
      simp [atomOf, ← hcs]
    rw [hatom]
    rfl
  | @quoted cs hquoted =>
    have hatom : atomOf ('|' :: (cs.reverse ++ ['|'])) = .atom text := by
      rw [atomOf, ← String.ofList_toList (s := text), hcs]
      simp
    have hstep : Scan.between.step '|' = some ([], .quoted ['|']) := rfl
    rw [List.cons_append, List.append_assoc, List.singleton_append, lex_cons hstep,
      lex_quoted rest ['|'] hquoted, hatom, Option.map_map]
    rfl

end SmtLib

/-! ## Texts of s-expressions -/

namespace SExpr

mutual

/-- Every atom of an s-expression has a property. -/
def EveryAtom (p : String → Prop) : SExpr → Prop
  | atom text => p text
  | list items => EveryAtomAll p items

/-- Every atom of s-expressions has a property. -/
def EveryAtomAll (p : String → Prop) : List SExpr → Prop
  | [] => True
  | x :: xs => EveryAtom p x ∧ EveryAtomAll p xs

end

end SExpr

namespace SmtLib

mutual

/-- The tokens of an s-expression. -/
def tokens : SExpr → List Token
  | .atom text => [.atom text]
  | .list items => .left :: (tokensAll items ++ [.right])

/-- The tokens of s-expressions. -/
def tokensAll : List SExpr → List Token
  | [] => []
  | x :: xs => tokens x ++ tokensAll xs

end

/-- Every atom is written as one token. -/
abbrev Tokenized : SExpr → Prop := SExpr.EveryAtom fun text => IsToken text.toList

/-- Every atom of s-expressions is written as one token. -/
abbrev TokenizedAll : List SExpr → Prop := SExpr.EveryAtomAll fun text => IsToken text.toList

theorem endsWord_cons {c : Char} (h : isWordChar c = false) (rest : List Char) :
    EndsWord (c :: rest) := by
  rintro d ⟨⟩
  exact h

theorem lex_left (rest : List Char) :
    lex .between ('(' :: rest) = (lex .between rest).map (.left :: ·) := by
  have hstep : Scan.between.step '(' = some ([.left], .between) := rfl
  exact lex_cons hstep rest

theorem lex_right (rest : List Char) :
    lex .between (')' :: rest) = (lex .between rest).map (.right :: ·) := by
  have hstep : Scan.between.step ')' = some ([.right], .between) := rfl
  exact lex_cons hstep rest

theorem lex_blank {c : Char} (h : c ∈ blanks) (rest : List Char) :
    lex .between (c :: rest) = lex .between rest := by
  have hstep : Scan.between.step c = some ([], .between) :=
    congrArg some (if_pos (List.contains_iff_mem.mpr h))
  rw [lex_cons hstep]
  exact Option.map_id'

mutual

/-- The text of an s-expression is cut into its tokens. -/
theorem lex_text : ∀ {x : SExpr}, Tokenized x → ∀ {rest : List Char}, EndsWord rest →
    lex .between (x.text.toList ++ rest) = (lex .between rest).map (tokens x ++ ·)
  | .atom text, h, rest, hrest => by
    simp only [SExpr.text, tokens]
    exact lex_token h hrest
  | .list items, h, rest, hrest => by
    have htext : (SExpr.list items).text.toList ++ rest =
        '(' :: ((" ".intercalate (SExpr.texts items)).toList ++ ')' :: rest) := by
      simp [SExpr.text]
    rw [htext, lex_left, lex_texts h, lex_right, Option.map_map, Option.map_map]
    simp [tokens, Function.comp_def]

/-- The texts of s-expressions between brackets are cut into their tokens. -/
theorem lex_texts : ∀ {xs : List SExpr}, TokenizedAll xs → ∀ {rest : List Char},
    lex .between ((" ".intercalate (SExpr.texts xs)).toList ++ ')' :: rest) =
      (lex .between (')' :: rest)).map (tokensAll xs ++ ·)
  | [], _, rest => by
    simp [SExpr.texts, tokensAll]
  | [x], h, rest => by
    have htext : " ".intercalate (SExpr.texts [x]) = x.text := by
      simp [SExpr.texts]
    rw [htext, lex_text h.1 (endsWord_cons (by decide) rest)]
    simp [tokensAll]
  | x :: y :: ys, h, rest => by
    have htext : (" ".intercalate (SExpr.texts (x :: y :: ys))).toList ++ ')' :: rest =
        x.text.toList ++
          ' ' :: ((" ".intercalate (SExpr.texts (y :: ys))).toList ++ ')' :: rest) := by
      simp [SExpr.texts, String.intercalate_cons_cons]
    rw [htext, lex_text h.1 (endsWord_cons (by decide) _), lex_blank (by decide), lex_texts h.2,
      Option.map_map]
    simp [tokensAll, Function.comp_def]

end

mutual

/-- The tokens of an s-expression are read as that s-expression. -/
theorem parse_tokens : ∀ (x : SExpr) (outer : List (List SExpr)) (items : List SExpr)
    (rest : List Token), parse outer items (tokens x ++ rest) = parse outer (x :: items) rest
  | .atom text, outer, items, rest => by
    rw [tokens, List.singleton_append, parse]
  | .list xs, outer, items, rest => by
    rw [tokens, List.cons_append, parse, List.append_assoc, parse_tokensAll, List.singleton_append,
      parse, List.append_nil, List.reverse_reverse]

/-- The tokens of expressions are parsed back to them, whatever stands around them. -/
theorem parse_tokensAll : ∀ (xs : List SExpr) (outer : List (List SExpr)) (items : List SExpr)
    (rest : List Token),
    parse outer items (tokensAll xs ++ rest) = parse outer (xs.reverse ++ items) rest
  | [], outer, items, rest => by
    rw [tokensAll]
    rfl
  | x :: xs, outer, items, rest => by
    rw [tokensAll, List.append_assoc, parse_tokens, parse_tokensAll, List.reverse_cons,
      List.append_assoc, List.singleton_append]

end

/-- The text of an s-expression is read as that s-expression. -/
theorem readText?_text {x : SExpr} (h : Tokenized x) : readText? x.text = some [x] := by
  have hends : EndsWord [] := nofun
  have hlex := lex_text h hends
  rw [List.append_nil] at hlex
  rw [readText?, hlex]
  show parse [] [] (tokens x ++ []) = some [x]
  rw [parse_tokens]
  rfl

/-- S-expressions with different texts differ, and the other way round if every atom is a token. -/
theorem text_eq_iff {x y : SExpr} (hx : Tokenized x) (hy : Tokenized y) :
    x.text = y.text ↔ x = y := by
  refine ⟨fun h => ?_, congrArg SExpr.text⟩
  have hread : some [x] = some [y] := by
    rw [← readText?_text hx, ← readText?_text hy, h]
  exact List.singleton_inj.mp (Option.some.inj hread)

/-- The text of s-expressions, one a line. -/
def lines (xs : List SExpr) : String := String.join (xs.map fun x => x.text ++ "\n")

/-- Lines of expressions are read as the tokens of the expressions. -/
theorem lex_lines : ∀ {xs : List SExpr}, TokenizedAll xs →
    lex .between (lines xs).toList = some (tokensAll xs)
  | [], _ => rfl
  | x :: xs, h => by
    have hlines : (lines (x :: xs)).toList = x.text.toList ++ '\n' :: (lines xs).toList := by
      simp [lines]
    rw [hlines, lex_text h.1 (endsWord_cons (by decide) _), lex_blank (by decide), lex_lines h.2]
    rfl

/-- The text of s-expressions, one a line, is read as these s-expressions. -/
theorem readText?_lines {xs : List SExpr} (h : TokenizedAll xs) :
    readText? (lines xs) = some xs := by
  rw [readText?, lex_lines h, Option.bind_some, ← List.append_nil (tokensAll xs), parse_tokensAll,
    List.append_nil, parse, List.reverse_reverse]

end SmtLib

end SmtEncoding
