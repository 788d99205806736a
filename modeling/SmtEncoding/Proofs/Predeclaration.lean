import SmtEncoding.Proofs.Requests

/-!
# Declaring before use

Variables may be declared one after another before a formula is encoded, or they may be created
where the formula is encoded.  In both cases the registry lists them in the order of their first
occurrences, if literals are over truth values (`Meets.typed`).  On an SMT-LIB backend the constants
follow the registry, so the same constants are declared under the same symbols
(`Requests.alike`).  Then the two encodings of the formula are the same (`predeclared_encoding`).
-/

namespace SmtEncoding

variable {B : Backend} {rules : Rules} {known later : KnownSorts}

theorem Encoder.registered_eq (e : Encoder B) :
    e.registry.registered = e.registeredSorts.map Prod.fst := by
  rw [Encoder.registeredSorts, List.map_map]
  rfl

/-! ## Declarations one after another -/

/-- To declare a variable is to use it under the sort of its type, if that may be used. -/
theorem settled?_judgeDeclaration {v : Variable}
    (hreal : v.type.sort = .real → rules.rationals = true) (known : KnownSorts) :
    settled? (rules.judgeDeclaration v) known = meet? true known v.typed := by
  unfold Rules.judgeDeclaration Rules.judgeVariable Variable.typed
  cases htype : v.type with
  | bool => exact settled?_meet true .bool v
  | integer => exact settled?_meet true .int v
  | double =>
    have hr : rules.rationals = true := hreal (by rw [htype]; rfl)
    rw [settled?_bind, Rules.needRationals, settled?_need, if_pos hr, Option.bind_some]
    exact settled?_meet true .real v

namespace Session

/-- Declarations succeed if variables can be used one after another under the sorts of their types,
and then these are the variables that are known. -/
theorem follows_declareAll {vs : List Variable} {s : Session B}
    (h : Follows rules s.encoder known)
    (hreal : ∀ v ∈ vs, v.type.sort = .real → rules.rationals = true)
    (hmeet : meetAll? true known (vs.map Variable.typed) = some later) :
    (∀ outcome ∈ (performAll (vs.map .declare) s).value, ∃ o, outcome = .ok (some o)) ∧
      Follows rules (performAll (vs.map .declare) s).state.encoder later := by
  induction vs generalizing s known with
  | nil =>
    cases hmeet
    exact ⟨nofun, h⟩
  | cons v vs ih =>
    obtain ⟨hv, hvs⟩ := List.forall_mem_cons.mp hreal
    rw [List.map_cons, meetAll?_cons] at hmeet
    obtain ⟨next, hnext, hmeet⟩ := Option.bind_eq_some_iff.mp hmeet
    rw [← settled?_judgeDeclaration hv] at hnext
    obtain ⟨o, ho, hfollows⟩ := (Judged.declare h v).ok_of_settled? hnext
    have hperform : perform (.declare v) s =
        ⟨.ok (some o), ⟨((Encoder.declare v).run s.encoder).state, s.held ++ [o]⟩,
          ((Encoder.declare v).run s.encoder).log⟩ := by
      rw [perform, Step.action, Action.run_map, ho]
      rfl
    have hstate : Follows rules (perform (.declare v) s).state.encoder next := by
      rw [hperform]
      exact hfollows
    obtain ⟨houtcomes, hlast⟩ := ih hstate hvs hmeet
    refine ⟨List.forall_mem_cons.mpr ⟨⟨o, ?_⟩, houtcomes⟩, hlast⟩
    rw [hperform]

theorem moves_declareAll (vs : List Variable) (s : Session B) :
    Encoder.Moves s.encoder (performAll (vs.map .declare) s).state.encoder := by
  induction vs generalizing s with
  | nil => exact .refl
  | cons v vs ih =>
    have hfirst : Encoder.Moves s.encoder (perform (.declare v) s).state.encoder :=
      Moving.moves (.map (Moving.declare v))
    exact hfirst.trans (ih _)

end Session

namespace SmtLib

/-! ## The same registry, the same constants -/

theorem constantKey_map (e : Encoder backend) :
    e.registry.entries.map constantKey = e.registeredSorts.map fun p => (p.1.name, p.2) := by
  rw [Encoder.registeredSorts, List.map_map]
  rfl

/-- Encoders that begin with nothing registered have declared the same constants once they know the
same variables. -/
theorem Requests.alike {e e' f f' : Encoder backend} (he : Requests e e') (hf : Requests f f')
    (hempty : e.registry = .empty ∧ f.registry = .empty) (hbegun : Alike e.backend f.backend)
    (hsorts : e'.registeredSorts = f'.registeredSorts) : Alike e'.backend f'.backend := by
  obtain ⟨new, hnew, hfirst⟩ := he
  obtain ⟨more, hmore, hsecond⟩ := hf
  rw [hempty.1] at hnew
  rw [hempty.2] at hmore
  obtain rfl : e'.registry.entries = new := hnew
  obtain rfl : f'.registry.entries = more := hmore
  rw [constantKey_map, hsorts] at hfirst
  rw [constantKey_map] at hsecond
  exact hfirst.trans ((hbegun.requestAll _).trans hsecond.symm)

namespace Encodes

variable {α : Type} {g : Action (Encoder backend) α} {expr : α → SExpr} {a : NamedTerm}
  {uses : List (Variable × SolverSort)} {n : α}

/-- From encoders whose backends end up alike, the same is encoded. -/
theorem expr_eq_of_alike (h : Encodes g expr a uses) {e f : Encoder backend} {m : α}
    (he : Consistent e) (hf : Consistent f) (hm : (g.run e).value = .ok m)
    (hn : (g.run f).value = .ok n)
    (halike : Alike (g.run e).state.backend (g.run f).state.backend) : expr m = expr n := by
  have hsymbol := State.symbol_eq_of_alike halike
  exact State.eq_of_named? (h.consistent he).1.wf (h.consistent hf).1.wf hsymbol (h.named he hm)
    (h.named hf hn)

variable {capabilities : Capabilities} {first : Nat} (h : Encodes g expr a uses)
  (huses : ∀ use ∈ uses, use.2 = use.1.type.sort)
  (hn : (g.run (.new (.empty capabilities first))).value = .ok n) (next : Nat) (options : Options)

include h huses hn

/-- If variables are used under the sorts of their types, what is registered where it is met can be
declared as well, in the order of first uses. -/
theorem declareAll :
    let declared := Session.performAll ((uses.map Prod.fst).eraseDups.map .declare)
      (.start (B := backend) (.empty capabilities next) options)
    (∀ outcome ∈ declared.value, ∃ o, outcome = .ok (some o)) ∧
      declared.state.encoder.registeredSorts =
        (g.run (.new (.empty capabilities first))).state.registeredSorts := by
  obtain ⟨walk, hmeets, hjudged⟩ := h.judged capabilities.rationals
  obtain ⟨_, hfirst⟩ := hjudged (.new (.empty capabilities first) {}) rfl
  have hcreated := hfirst.settled?_of_ok hn
  have hsorts := hmeets.typed huses hcreated
  have hnodup : (((uses.map Prod.fst).eraseDups.map Variable.typed).map Prod.fst).Nodup := by
    rw [← hsorts, ← Encoder.registered_eq]
    exact (h.moves _).keeps (P := fun e => e.registry.registered.Nodup)
      Encoder.Move.registered_nodup .nil
  have hreal : ∀ v ∈ (uses.map Prod.fst).eraseDups,
      v.type.sort = .real → capabilities.rationals = true := by
    intro v hv hsort
    obtain ⟨use, huse, rfl⟩ := List.mem_map.mp (List.mem_eraseDups.mp hv)
    exact (hmeets.of_settled hcreated).1 use huse ((huses use huse).trans hsort)
  obtain ⟨houtcomes, hfollows⟩ := Session.follows_declareAll
    (s := .start (B := backend) (.empty capabilities next) options)
    (Consistent.new (.empty capabilities next) options).follows hreal
    (meetAll?_of_nodup hnodup fun _ _ => List.lookup_nil)
  exact ⟨houtcomes, hfollows.known_eq.trans hsorts.symm⟩

/-- What is encoded with variables created where they are met is encoded the same after their
declarations. -/
theorem predeclared :
    let created := (g.run (.new (.empty capabilities first))).state
    let declared := Session.performAll ((uses.map Prod.fst).eraseDups.map .declare)
      (.start (B := backend) (.empty capabilities next) options)
    let encoded := g.run declared.state.encoder
    (∀ outcome ∈ declared.value, ∃ o, outcome = .ok (some o)) ∧
      (∃ m, encoded.value = .ok m ∧ expr m = expr n) ∧
      Alike encoded.state.backend created.backend ∧
      encoded.state.registry.registered = created.registry.registered := by
  intro created declared encoded
  have hfresh : Consistent (.new (.empty capabilities first)) := .new (.empty capabilities first) {}
  have hstart : Consistent (.new (.empty capabilities next) options) :=
    .new (.empty capabilities next) options
  obtain ⟨houtcomes, hdeclared⟩ := h.declareAll huses hn next options
  have hconsistent : Consistent declared.state.encoder :=
    hstart.performAll (s := .start (.empty capabilities next) options) _
  have hmoves := Session.moves_declareAll (uses.map Prod.fst).eraseDups
    (.start (B := backend) (.empty capabilities next) options)
  have hrationals : declared.state.encoder.capabilities.rationals = capabilities.rationals :=
    congrArg Capabilities.rationals (Encoder.Moves.capabilities_eq hmoves)
  -- All that is looked up is registered, so nothing more is.
  obtain ⟨m, hm, hsame⟩ := h.succeeds hfresh hn hconsistent hrationals (hdeclared ▸ .refl _)
  have hsorts : encoded.state.registeredSorts = created.registeredSorts := hsame.trans hdeclared
  have halike : Alike encoded.state.backend created.backend :=
    (requests_of_moves (hmoves.trans (h.moves _))).alike (requests_of_moves (h.moves _))
      ⟨rfl, rfl⟩ rfl hsorts
  refine ⟨houtcomes, ⟨m, hm, h.expr_eq_of_alike hconsistent hfresh hm hn halike⟩, halike, ?_⟩
  rw [Encoder.registered_eq, Encoder.registered_eq, hsorts]

end Encodes

/-- If a formula with literals over truth values is encoded by an encoder on a new SMT-LIB backend
that creates its variables, then on another one with the same capabilities, and with strict options,
all its variables can be declared in the order of their first occurrences.  After that the formula
is encoded as the same s-expression, with the same declarations and the same registered variables in
the same order. -/
theorem predeclared_encoding (capabilities : Capabilities) (first next : Nat) (x : Expr)
    (hliterals : ∀ v ∈ x.literals, v.type = .bool) (n : Node)
    (hn : ((Encoder.encode x).run (.new (B := backend) (.empty capabilities first))).value =
      .ok n) :
    let created := ((Encoder.encode x).run (.new (B := backend) (.empty capabilities first))).state
    let declared := Session.performAll (x.occurrences.eraseDups.map .declare)
      (.start (B := backend) (.empty capabilities next) .strict)
    let encoded := (Encoder.encode x).run declared.state.encoder
    (∀ outcome ∈ declared.value, ∃ o, outcome = .ok (some o)) ∧
      (∃ m, encoded.value = .ok m ∧ m.expr = n.expr) ∧
      encoded.state.backend.declarations.map Declaration.shape =
        created.backend.declarations.map Declaration.shape ∧
      encoded.state.registry.registered = created.registry.registered :=
  (encodes_encode x).predeclared (Expr.sort_of_uses hliterals) hn next .strict

/-- Two numbers and a truth value of one name, with a node between them. -/
def interleaved : Expr :=
  .and [.not (.compare .lessThan (.var ⟨"n", .integer⟩) (.var ⟨"n", .double⟩)),
    .literal ⟨"n", .bool⟩ true]

/-- The formula with the symbols that the variables get in the order of their occurrences. -/
def interleavedTerm : SExpr :=
  .apply "and" [.apply "not" [.apply "<" [.apply "to_real" [.atom "n"], .atom "n@Real"]],
    .atom "n@Bool"]

theorem predeclared_encoding_interleaved :
    (∀ v ∈ interleaved.literals, v.type = .bool) ∧
      ((Encoder.encode interleaved).run (.new (B := backend) (.empty {} 0))).value =
        .ok ⟨5, interleavedTerm⟩ ∧
      interleaved.occurrences.eraseDups =
        [⟨"n", .integer⟩, ⟨"n", .double⟩, ⟨"n", .bool⟩] ∧
      let declared := Session.performAll (interleaved.occurrences.eraseDups.map .declare)
        (.start (B := backend) (.empty {} 7) .strict)
      ∃ m, ((Encoder.encode interleaved).run declared.state.encoder).value = .ok m ∧
        m.expr = interleavedTerm := by
  have hliterals : ∀ v ∈ interleaved.literals, v.type = .bool := by decide
  have hcreated : ((Encoder.encode interleaved).run (.new (B := backend) (.empty {} 0))).value =
      .ok ⟨5, interleavedTerm⟩ := rfl
  obtain ⟨_, hencoded, _, _⟩ := predeclared_encoding {} 0 7 interleaved hliterals _ hcreated
  exact ⟨hliterals, hcreated, by decide, hencoded⟩

end SmtLib

end SmtEncoding
