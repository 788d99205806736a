import SmtEncoding.Proofs.Requests

/-!
# What a history leaves

Two sessions on SMT-LIB backends may have done anything before they encode one formula.  Then they
may have registered different variables and declared different constants, and a constant may have
different symbols.  Nothing else can differ: the two terms are read as the same named term
(`history_shows_in_symbols`).

A symbol is that of the plain name unless the name clashes with one that was declared before.  So if
no two names clash in either session (`State.NamesApart`), the terms are literally the same.
-/

namespace SmtEncoding.SmtLib

/-! ## Names that do not clash -/

/-- The names of the declared constants stay different when bars and backslashes in them are
replaced, and each is declared under one sort only. -/
def State.NamesApart (s : State) : Prop :=
  ∀ k ∈ s.keys, ∀ l ∈ s.keys, k.1.toList.map quotedChar = l.1.toList.map quotedChar → k = l

instance (s : State) : Decidable s.NamesApart :=
  inferInstanceAs (Decidable (∀ k ∈ s.keys, ∀ l ∈ s.keys,
    k.1.toList.map quotedChar = l.1.toList.map quotedChar → k = l))

/-- If no names clash, every constant has the symbol of its name. -/
def State.KeepsNames (s : State) : Prop :=
  s.NamesApart → ∀ d ∈ s.declarations, d.symbol = escape d.name

namespace State

variable {s t : State}

/-- A name that clashes with none gets its own symbol. -/
theorem KeepsNames.declare (h : s.KeepsNames) {name : String} {sort : SolverSort}
    (hkey : (name, sort) ∉ s.keys) : (s.declare name sort).KeepsNames := by
  intro hapart d hd
  have hsub : ∀ k ∈ s.keys, k ∈ (s.declare name sort).keys := fun k hk => by
    rw [keys_declare]
    exact List.mem_append_left _ hk
  have hold := h fun k hk l hl => hapart k (hsub k hk) l (hsub l hl)
  rcases mem_declare hd with hd | rfl
  · exact hold d hd
  obtain ⟨j, _, hsymbol, _, htaken⟩ := freeSymbol_spec s.bodies name sort
  cases j with
  | zero => exact hsymbol
  | succ j =>
    -- The body of the name is taken, so a declared name is the same once it is quoted.
    obtain ⟨d, hd, hbody⟩ := List.mem_map.mp (htaken 0 (Nat.succ_pos j))
    rw [hold d hd] at hbody
    have hdkey : d.key ∈ s.keys := List.mem_map_of_mem hd
    have heq : d.key = (name, sort) := by
      refine hapart _ (hsub _ hdkey) _ ?_ (body_escape_eq_iff.mp hbody)
      rw [keys_declare]
      exact List.mem_append_right _ List.mem_cons_self
    exact absurd (heq ▸ hdkey) hkey

theorem KeepsNames.build (h : s.KeepsNames) (op : Operation Obj) :
    (build op s).state.KeepsNames := by
  rcases build_cases op s with ⟨name, sort, _, hb⟩ | ⟨_, hb | hb⟩
  · rw [hb]
    rcases constant_cases name sort s with ⟨_, _, _, hc⟩ | ⟨hkey, hc⟩
    · rw [hc]
      exact h
    · rw [hc]
      exact h.declare hkey
  · rw [hb]
    exact h
  · rw [hb]
    exact h

/-- Terms that are read as the same are the same if every constant has the symbol of its name. -/
theorem eq_of_namesApart {x y : SExpr} {a : NamedTerm} (hs : s.Wf ∧ s.KeepsNames ∧ s.NamesApart)
    (ht : t.Wf ∧ t.KeepsNames ∧ t.NamesApart) (hx : s.named? x = some a)
    (hy : t.named? y = some a) : x = y := by
  obtain ⟨hswf, hsnames, hsapart⟩ := hs
  obtain ⟨htwf, htnames, htapart⟩ := ht
  calc x
    _ = a.expr fun name _ => escape name := (expr_eq_of_named? (hsnames hsapart) hswf hx).symm
    _ = y := expr_eq_of_named? (htnames htapart) htwf hy

end State

/-! ## Sessions -/

/-- A consistent encoder on a backend that renames only what clashes. -/
def Named (e : Encoder backend) : Prop := Consistent e ∧ e.backend.KeepsNames

theorem upkeep_named : Upkeep (B := backend) Named (fun _ => True) (fun _ _ => True) :=
  upkeep_consistent.and (upkeep_state fun op _ h => h.build op)

/-- What is encoded twice is the same by its names, and if no names clash literally. -/
theorem Encodes.same {α : Type} {g : Action (Encoder backend) α} {expr : α → SExpr}
    {a : NamedTerm} {uses : List (Variable × SolverSort)} (h : Encodes g expr a uses)
    {e f : Encoder backend} (he : Named e) (hf : Named f) {m n : α} (hm : (g.run e).value = .ok m)
    (hn : (g.run f).value = .ok n) :
    let s := (g.run e).state.backend
    let t := (g.run f).state.backend
    (∃ a, s.named? (expr m) = some a ∧ t.named? (expr n) = some a) ∧
      (s.NamesApart → t.NamesApart → expr m = expr n ∧ (expr m).text = (expr n).text) := by
  intro s t
  have hsnamed : s.named? (expr m) = some a := h.named he.1 hm
  have htnamed : t.named? (expr n) = some a := h.named hf.1 hn
  obtain ⟨⟨⟨hs, _⟩, _⟩, hskeeps⟩ := h.keeps upkeep_named he
  obtain ⟨⟨⟨ht, _⟩, _⟩, htkeeps⟩ := h.keeps upkeep_named hf
  refine ⟨⟨a, hsnamed, htnamed⟩, fun hsapart htapart => ?_⟩
  have heq : expr m = expr n :=
    State.eq_of_namesApart ⟨hs, hskeeps, hsapart⟩ ⟨ht, htkeeps, htapart⟩ hsnamed htnamed
  exact ⟨heq, congrArg SExpr.text heq⟩

/-- The encoder is reached in a session that begins on a backend without declarations. -/
def Reachable (e : Encoder backend) : Prop :=
  ∃ capabilities first options steps,
    e = (Session.performAll steps
      (.start (B := backend) (.empty capabilities first) options)).state.encoder

theorem Reachable.named {e : Encoder backend} (h : Reachable e) : Named e := by
  obtain ⟨capabilities, first, options, steps, rfl⟩ := h
  have hstart : Interned (Encoder.new (B := backend) (.empty capabilities first) options) :=
    ⟨.empty capabilities first, nofun⟩
  exact (upkeep_named.performAll steps (s := .start (.empty capabilities first) options)
    (fun _ _ => trivial) ⟨⟨hstart, rfl⟩, fun _ _ => nofun⟩).1

/-- Whatever two sessions have done, a formula that both encode is encoded as terms that become
equal when every constant is replaced by the name and the sort that it was declared for, and so is a
term.  In a session in which no names clash every constant has the symbol of its name, and the
terms of two such sessions are the same. -/
theorem history_shows_in_symbols {e f : Encoder backend} (he : Reachable e) (hf : Reachable f) :
    (e.backend.NamesApart → ∀ d ∈ e.backend.declarations, d.symbol = escape d.name) ∧
    (∀ (x : Expr) (m n : Node), ((Encoder.encode x).run e).value = .ok m →
      ((Encoder.encode x).run f).value = .ok n →
      let s := ((Encoder.encode x).run e).state.backend
      let t := ((Encoder.encode x).run f).state.backend
      (∃ a, s.named? m.expr = some a ∧ t.named? n.expr = some a) ∧
        (s.NamesApart → t.NamesApart → m.expr = n.expr ∧ m.expr.text = n.expr.text)) ∧
    ∀ (x : Term) (m n : Numeral Obj), ((Encoder.encodeTerm x).run e).value = .ok m →
      ((Encoder.encodeTerm x).run f).value = .ok n →
      let s := ((Encoder.encodeTerm x).run e).state.backend
      let t := ((Encoder.encodeTerm x).run f).state.backend
      (∃ a, s.named? m.get.expr = some a ∧ t.named? n.get.expr = some a) ∧
        (s.NamesApart → t.NamesApart →
          m.get.expr = n.get.expr ∧ m.get.expr.text = n.get.expr.text) := by
  have he := he.named
  have hf := hf.named
  exact ⟨he.2, fun x _ _ => (encodes_encode x).same he hf,
    fun x _ _ => (encodes_encodeTerm x).same he hf⟩

/-- A declaration, a formula that fails behind a new variable, and a constant that the backend is
asked for. -/
def beforehand : List Step :=
  [.declare ⟨"n", .integer⟩, .encode (.and [.literal ⟨"c|", .bool⟩ true, .choose 1 []]),
    .operation (.core (.boolVar "a"))]

/-- A truth value and a whole number. -/
def bounded : Expr :=
  .implies (.literal ⟨"a", .bool⟩ true)
    (.compare .lessThan (.var ⟨"n", .integer⟩) (.constant (.integer 3)))

/-- What the formula is encoded as where the truth value has a symbol. -/
def boundedTerm (symbol : String) : SExpr :=
  .apply "=>" [.atom symbol, .apply "<" [.atom "n", .atom "3"]]

/-- The encoder that a session leaves. -/
def leaving (steps : List Step) : Encoder backend :=
  (Session.performAll steps (.start (B := backend) (.empty {} 0) {})).state.encoder

theorem reachable_leaving (steps : List Step) : Reachable (leaving steps) :=
  ⟨{}, 0, {}, steps, rfl⟩

/-- What was done before does not show, unless a number was declared under the name of the truth
value. -/
theorem history_shows_in_symbols_beforehand :
    let encoded := fun steps : List Step => (Encoder.encode bounded).run (leaving steps)
    ((encoded []).value = .ok ⟨4, boundedTerm "a"⟩ ∧ (encoded []).state.backend.NamesApart ∧
      ∃ n, (encoded beforehand).value = .ok n ∧ (encoded beforehand).state.backend.NamesApart ∧
        (boundedTerm "a").text = n.expr.text) ∧
    ((encoded [.declare ⟨"a", .double⟩]).value = .ok ⟨5, boundedTerm "a@Bool"⟩ ∧
      ∃ a, (encoded []).state.backend.named? (boundedTerm "a") = some a ∧
        (encoded [.declare ⟨"a", .double⟩]).state.backend.named? (boundedTerm "a@Bool") =
          some a) := by
  intro encoded
  have hbegun : (encoded []).value = .ok ⟨4, boundedTerm "a"⟩ := rfl
  have hused : (encoded beforehand).value = .ok ⟨5, boundedTerm "a"⟩ := rfl
  have hrenamed : (encoded [.declare ⟨"a", .double⟩]).value = .ok ⟨5, boundedTerm "a@Bool"⟩ := rfl
  have hapart : (encoded []).state.backend.NamesApart := by decide +kernel
  have hapart' : (encoded beforehand).state.backend.NamesApart := by decide +kernel
  have hsame := history_shows_in_symbols (reachable_leaving []) (reachable_leaving beforehand)
  have hnamed := history_shows_in_symbols (reachable_leaving [])
    (reachable_leaving [.declare ⟨"a", .double⟩])
  exact ⟨⟨hbegun, hapart, _, hused, hapart', ((hsame.2.1 _ _ _ hbegun hused).2 hapart hapart').2⟩,
    hrenamed, (hnamed.2.1 _ _ _ hbegun hrenamed).1⟩

end SmtEncoding.SmtLib
