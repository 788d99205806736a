import SmtEncoding.Proofs.Requests

/-!
# Encoding again

What has been encoded once on an SMT-LIB backend can be encoded again at any later time of the
session, with the same result.  Other steps may come in between, also steps that fail, operations of
the backend and the choice to create no more variables.  Every variable that is looked up is
registered by then, so nothing is created (`Encodes.again`).

The same holds after the encoder is given up for a new one on the same backend, if that creates
variables.  Every constant that it asks for is declared by then, so it finds the constants of the
encoder before it (`Encodes.afresh`).  `repeated_encoding` states both for sessions.
-/

namespace SmtEncoding

variable {B : Backend}

/-! ## What stays registered -/

/-- A registry that begins with another one is no longer if the same sorts are known. -/
theorem Encoder.registry_eq_of_prefix {e f : Encoder B}
    (h : e.registry.entries <+: f.registry.entries)
    (hsorts : f.registeredSorts = e.registeredSorts) : f.registry = e.registry := by
  have hlength := congrArg List.length hsorts
  rw [Encoder.registeredSorts, Encoder.registeredSorts, List.length_map, List.length_map] at hlength
  exact congrArg Registry.mk (h.eq_of_length hlength.symm).symm

/-- Variables that are registered are known. -/
theorem Encoder.within_of_prefix {e f : Encoder B}
    (h : e.registry.entries <+: f.registry.entries) :
    KnownSorts.Within e.registeredSorts f.registeredSorts := by
  obtain ⟨more, hmore⟩ := h
  rw [Encoder.registeredSorts, Encoder.registeredSorts, ← hmore, List.map_append]
  exact .append _ _

theorem Encoder.Moves.registry_grows {e f : Encoder B} (h : Encoder.Moves e f) :
    e.registry.entries <+: f.registry.entries :=
  h.keeps (P := fun f => e.registry.entries <+: f.registry.entries)
    (fun hmove he => he.trans hmove.registry_prefix) List.prefix_rfl

namespace Session

/-- A step leaves every entry of the registry where it is unless it gives the encoder up. -/
theorem registry_prefix_perform (s : Session B) (step : Step)
    (hstep : ∀ options, step ≠ .restart options) :
    s.encoder.registry.entries <+: (perform step s).state.encoder.registry.entries := by
  have hplain : step.Plain →
      s.encoder.registry.entries <+: (perform step s).state.encoder.registry.entries := fun h =>
    keeps_perform (P := fun e => s.encoder.registry.entries <+: e.registry.entries)
      (fun hmove he => he.trans hmove.registry_prefix) (fun _ _ he => he) h List.prefix_rfl
  cases step with
  | encode _ => exact hplain trivial
  | encodeTerm _ => exact hplain trivial
  | declare _ => exact hplain trivial
  | setCreateVariables _ => exact hplain trivial
  | compare _ _ _ => exact hplain trivial
  | operation op =>
    -- The backend does not see the registry.
    show _ <+: ((Step.action s.held (.operation op)).run s.encoder).state.registry.entries
    unfold Step.action
    dsimp only
    cases op.at? s.held with
    | none => exact List.prefix_rfl
    | some op =>
      dsimp only
      rw [Action.run_map]
      exact List.prefix_rfl
  | restart options => exact absurd rfl (hstep options)

theorem registry_prefix_performAll {steps : List Step}
    (hsteps : ∀ options, .restart options ∉ steps) (s : Session B) :
    s.encoder.registry.entries <+: (performAll steps s).state.encoder.registry.entries := by
  induction steps generalizing s with
  | nil => exact List.prefix_rfl
  | cons step steps ih =>
    have hfirst := registry_prefix_perform s step fun options heq =>
      hsteps options (heq ▸ List.mem_cons_self)
    exact hfirst.trans (ih (fun options h => hsteps options (List.mem_cons_of_mem step h)) _)

end Session

namespace SmtLib

/-! ## The same result -/

/-- An action succeeds on an encoder with a given s-expression, and declares nothing. -/
def Repeats {α : Type} (g : Action (Encoder backend) α) (expr : α → SExpr) (x : SExpr)
    (e : Encoder backend) : Prop :=
  (∃ m, (g.run e).value = .ok m ∧ expr m = x) ∧
    (g.run e).state.backend.declarations = e.backend.declarations

theorem State.Grows.keys_prefix {s t : State} (h : s.Grows t) : s.keys <+: t.keys :=
  h.declarations.map Declaration.key

namespace Encodes

variable {α : Type} {g : Action (Encoder backend) α} {expr : α → SExpr} {a : NamedTerm}
  {uses : List (Variable × SolverSort)} {e f : Encoder backend} {n : α}

/-- On a backend that has grown since, success means the same s-expression. -/
theorem expr_eq (h : Encodes g expr a uses) (he : Consistent e) (hf : Consistent f)
    (hgrows : (g.run e).state.backend.Grows f.backend) {m : α} (hn : (g.run e).value = .ok n)
    (hm : (g.run f).value = .ok m) : expr m = expr n := by
  have hfirst := (h.consistent he).1.wf
  have hlast := (h.consistent hf).1.wf
  have hall := hgrows.trans (grows_of_moves (h.moves f))
  exact State.eq_of_named? hlast hlast rfl (h.named hf hm)
    (hall.named? hfirst hlast (h.named he hn))

theorem rationals_eq (h : Encodes g expr a uses) (he : Consistent e) (hf : Consistent f)
    (hgrows : (g.run e).state.backend.Grows f.backend) :
    f.capabilities.rationals = e.capabilities.rationals := by
  rw [hf.2, hgrows.capabilities, (grows_of_moves (h.moves e)).capabilities, he.2]

/-- What was encoded is encoded again by an encoder that has kept the variables, whether or not it
creates any. -/
theorem again (h : Encodes g expr a uses) (he : Consistent e) (hn : (g.run e).value = .ok n)
    (hf : Consistent f) (hgrows : (g.run e).state.backend.Grows f.backend)
    (hkept : (g.run e).state.registry.entries <+: f.registry.entries) :
    Repeats g expr (expr n) f ∧ (g.run f).state.registry = f.registry := by
  -- All that was known after the first time is known now, so nothing is created.
  obtain ⟨m, hm, hsorts⟩ :=
    h.succeeds he hn hf (h.rationals_eq he hf hgrows) (Encoder.within_of_prefix hkept)
  have hregistry : (g.run f).state.registry = f.registry :=
    Encoder.registry_eq_of_prefix (h.moves f).registry_grows hsorts
  refine ⟨⟨⟨m, hm, h.expr_eq he hf hgrows hn hm⟩, ?_⟩, hregistry⟩
  refine declarations_eq_of_moves (h.moves f) fun p hp => hf.1.key_mem ?_
  rw [← hregistry]
  exact hp

/-- What was encoded is encoded again by a new encoder on the same backend. -/
theorem afresh (h : Encodes g expr a uses) (he : Consistent e) (hn : (g.run e).value = .ok n)
    {s : State} (hs : s.Wf) (hgrows : (g.run e).state.backend.Grows s) :
    Repeats g expr (expr n) (.new s) := by
  have hnew : Consistent (.new s) := .new hs {}
  obtain ⟨walk, hmeets, hjudged⟩ := h.judged e.capabilities.rationals
  obtain ⟨_, hfirst⟩ := hjudged he rfl
  obtain ⟨_, hafresh⟩ := hjudged hnew (h.rationals_eq he hnew hgrows)
  obtain ⟨known, hsettled, hwithin⟩ := hmeets.afresh (hfirst.settled?_of_ok hn)
  obtain ⟨m, hm, hfollows⟩ := hafresh.ok_of_settled? hsettled
  refine ⟨⟨m, hm, h.expr_eq he hnew hgrows hn hm⟩, ?_⟩
  refine declarations_eq_of_moves (h.moves _) fun p hp => ?_
  -- A variable that is registered now was registered under the same sort the first time.
  have hlookup := hwithin (p.1, p.2.sort) (hfollows.known_eq ▸ List.mem_map_of_mem hp)
  exact hgrows.keys_prefix.subset ((h.consistent he).1.key_mem_of_lookup hlookup)

/-- What a session has encoded is encoded again after any steps that follow. -/
theorem later (h : Encodes g expr a uses) (he : Consistent e) (hn : (g.run e).value = .ok n)
    {s : Session backend} (hs : s.encoder = (g.run e).state) (steps : List Step) :
    let ended := (Session.performAll steps s).state.encoder
    Repeats g expr (expr n) (.new ended.backend) ∧
      ((∀ options, .restart options ∉ steps) →
        Repeats g expr (expr n) ended ∧ (g.run ended).state.registry = ended.registry) := by
  intro ended
  have hstart : Consistent s.encoder := hs ▸ h.consistent he
  have hended : Consistent ended := hstart.performAll steps
  have hgrow : Upkeep (fun f : Encoder backend => s.encoder.backend.Grows f.backend)
      (fun _ => True) (fun _ _ => True) := upkeep_state fun op t ht => ht.trans (grows_build t op)
  obtain ⟨hgrows, _⟩ := hgrow.performAll steps (fun _ _ => trivial) (.refl s.encoder.backend)
  rw [hs] at hgrows
  refine ⟨h.afresh he hn hended.1.wf hgrows, fun hsteps => h.again he hn hended hgrows ?_⟩
  have hkept := Session.registry_prefix_performAll hsteps s
  rw [hs] at hkept
  exact hkept

end Encodes

/-! ## Sessions -/

/-- If a session on an SMT-LIB backend has encoded a formula, then after any further steps a new
encoder on the same backend encodes it as the same s-expression and declares nothing.  So does the
encoder of the session itself, unless it was given up, and it registers nothing.  The same holds for
terms. -/
theorem repeated_encoding (capabilities : Capabilities) (first : Nat) (options : Options)
    (steps later : List Step) :
    let reached :=
      (Session.performAll steps (.start (B := backend) (.empty capabilities first) options)).state
    (∀ (x : Expr) (n : Node), ((Encoder.encode x).run reached.encoder).value = .ok n →
      let ended :=
        (Session.performAll later (Session.perform (.encode x) reached).state).state.encoder
      Repeats (Encoder.encode x) Node.expr n.expr (.new ended.backend) ∧
        ((∀ options, .restart options ∉ later) →
          Repeats (Encoder.encode x) Node.expr n.expr ended ∧
            ((Encoder.encode x).run ended).state.registry = ended.registry)) ∧
    ∀ (t : Term) (n : Numeral Obj), ((Encoder.encodeTerm t).run reached.encoder).value = .ok n →
      let ended :=
        (Session.performAll later (Session.perform (.encodeTerm t) reached).state).state.encoder
      Repeats (Encoder.encodeTerm t) (fun m => m.get.expr) n.get.expr (.new ended.backend) ∧
        ((∀ options, .restart options ∉ later) →
          Repeats (Encoder.encodeTerm t) (fun m => m.get.expr) n.get.expr ended ∧
            ((Encoder.encodeTerm t).run ended).state.registry = ended.registry) := by
  intro reached
  have hstart : Consistent (.new (B := backend) (.empty capabilities first) options) :=
    .new (.empty capabilities first) options
  have hreached : Consistent reached.encoder :=
    hstart.performAll (s := .start (.empty capabilities first) options) steps
  refine ⟨fun x n hn => ?_, fun t n hn => ?_⟩
  · have hstate : (Session.perform (.encode x) reached).state.encoder =
        ((Encoder.encode x).run reached.encoder).state := by
      rw [Session.perform, Step.action, Action.run_map]
    exact (encodes_encode x).later hreached hn hstate later
  · have hstate : (Session.perform (.encodeTerm t) reached).state.encoder =
        ((Encoder.encodeTerm t).run reached.encoder).state := by
      rw [Session.perform, Step.action, Action.run_map]
    exact (encodes_encodeTerm t).later hreached hn hstate later

/-- A whole number is less than a double of the same name. -/
def namesakes : Expr := .compare .lessThan (.var ⟨"n", .integer⟩) (.var ⟨"n", .double⟩)

/-- What the comparison is encoded as if the plain symbol is taken. -/
def namesakesTerm : SExpr := .apply "<" [.apply "to_real" [.atom "n@Int"], .atom "n@Real"]

/-- A session in which a truth value of that name is declared. -/
def begun : Session backend :=
  (Session.performAll [.declare ⟨"n", .bool⟩] (.start (B := backend) (.empty {} 0) {})).state

/-- No more variables are created, so a formula fails, and a constant is asked for directly. -/
def meanwhile : List Step :=
  [.setCreateVariables false, .encode (.literal ⟨"m", .bool⟩ true),
    .operation (.core (.boolVar "m"))]

/-- The numbers keep the symbols that they got, also for an encoder that creates no variables and
for one that has not met the truth value. -/
theorem repeated_encoding_namesakes :
    let ended :=
      (Session.performAll meanwhile (Session.perform (.encode namesakes) begun).state).state.encoder
    ((Encoder.encode namesakes).run begun.encoder).value = .ok ⟨3, namesakesTerm⟩ ∧
      ended.options.createVariables = false ∧
      Repeats (Encoder.encode namesakes) Node.expr namesakesTerm (.new ended.backend) ∧
      Repeats (Encoder.encode namesakes) Node.expr namesakesTerm ended := by
  intro ended
  have hbegun : ((Encoder.encode namesakes).run begun.encoder).value = .ok ⟨3, namesakesTerm⟩ := rfl
  have hkept : ∀ options, .restart options ∉ meanwhile := by simp [meanwhile]
  obtain ⟨hnew, hsame⟩ :=
    (repeated_encoding {} 0 {} [.declare ⟨"n", .bool⟩] meanwhile).1 namesakes _ hbegun
  exact ⟨hbegun, rfl, hnew, (hsame hkept).1⟩

end SmtLib

end SmtEncoding
