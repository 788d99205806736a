import SmtEncoding.Proofs.Upkeep
import SmtEncoding.SmtLib.Backend

/-!
# The sorts of registered variables

A term and a declaration register a variable under the sort of its declared type.  A literal
registers its variable as a truth value, and the declared type does not matter.  So a variable may
be met under the sort of its declared type, and under `Bool` if it stands in a literal (`Usable`).

Whatever a session does, and on whatever backends, its registry has no other entries, and every sort
mismatch is over a variable that stands in a literal and is declared a number
(`registered_sorts`).  Where all literals are over truth values, each variable has the sort of its
declared type and no sort ever mismatches.
-/

namespace SmtEncoding

variable {B : Backend} {literals : List Variable}

/-! ## Usable sorts -/

/-- The sorts under which a variable is looked up if literals are over the given variables. -/
def Usable (literals : List Variable) (v : Variable) (sort : SolverSort) : Prop :=
  sort = v.type.sort ∨ sort = .bool ∧ v ∈ literals

/-- Every variable is registered under a sort that it is looked up under. -/
def Encoder.SortsUsable (literals : List Variable) (e : Encoder B) : Prop :=
  ∀ p ∈ e.registry.entries, Usable literals p.1 p.2.sort

/-- A sort mismatch is between a truth value and a number, over a variable that stands in a literal
and is declared a number. -/
def EncodeError.MismatchOver (literals : List Variable) (err : EncodeError) : Prop :=
  ∀ name expected found, err = .sortMismatch name expected found →
    ∃ v ∈ literals, v.name = name ∧ v.type ≠ .bool ∧
      (expected = .bool ∧ found = v.type.sort ∨ expected = v.type.sort ∧ found = .bool)

theorem ValueType.ne_bool_of_sort_ne {t : ValueType} (h : t.sort ≠ .bool) : t ≠ .bool := by
  rintro rfl
  exact h rfl

theorem Usable.eq_of_forall_bool (h : ∀ v ∈ literals, v.type = .bool) {v : Variable}
    {sort : SolverSort} (hv : Usable literals v sort) : sort = v.type.sort := by
  obtain rfl | ⟨rfl, hmem⟩ := hv
  · rfl
  · rw [h v hmem]
    rfl

/-- Two sorts under which one variable is looked up are `Bool` and the sort of its declared type. -/
theorem Usable.mismatchOver {v : Variable} {expected found : SolverSort}
    (hexpected : Usable literals v expected) (hfound : Usable literals v found)
    (hne : found ≠ expected) :
    (EncodeError.sortMismatch v.name expected found).MismatchOver literals := by
  rintro _ _ _ ⟨⟩
  obtain rfl | ⟨rfl, hmem⟩ := hexpected
  · obtain rfl | ⟨rfl, hmem⟩ := hfound
    · exact absurd rfl hne
    · exact ⟨v, hmem, rfl, ValueType.ne_bool_of_sort_ne hne.symm, .inr ⟨rfl, rfl⟩⟩
  · obtain rfl | ⟨rfl, _⟩ := hfound
    · exact ⟨v, hmem, rfl, ValueType.ne_bool_of_sort_ne hne, .inl ⟨rfl, rfl⟩⟩
    · exact absurd rfl hne

/-! ## Backends without mismatches -/

/-- Rational operations of a backend do not fail with a sort mismatch. -/
def Backend.NeverMismatches (B : Backend) : Prop :=
  ∀ {s : SolverSort} (op : RationalOp B.Obj s) (b : B.State) (err : EncodeError),
    ((B.rational op).run b).value = .error err →
    ∀ name expected found, err ≠ .sortMismatch name expected found

theorem neverMismatches_smtLib : SmtLib.backend.NeverMismatches :=
  fun _ _ _ herr => absurd herr Action.value_lift_ne_error

/-- To create a variable does not fail with a sort mismatch. -/
theorem Backend.NeverMismatches.createVariable (hB : B.NeverMismatches) {name : String}
    {sort : SolverSort} {b : B.State} {err : EncodeError}
    (herr : ((B.createVariable name sort).run b).value = .error err) :
    err.MismatchOver literals := by
  cases sort with
  | bool => exact absurd herr Action.value_lift_ne_error
  | int => exact absurd herr Action.value_lift_ne_error
  | real => exact fun name expected found h => absurd h (hB (.var _) b err herr _ _ _)

/-! ## Sessions -/

/-- Encoding keeps the sorts of registered variables usable. -/
theorem upkeep_sorts (hB : B.NeverMismatches) (literals : List Variable) :
    Upkeep (B := B) (Encoder.SortsUsable literals) (EncodeError.MismatchOver literals)
      (Usable literals) where
  core op := .onBackend (fun _ he => he) fun b err herr =>
    absurd herr Action.value_lift_ne_error
  rational op := .onBackend (fun _ he => he) fun b err herr name expected found h =>
    absurd h (hB op b err herr name expected found)
  resolve allow sort v hv := by
    refine .resolve ?_ nofun ?_ fun e err he herr => ⟨he, hB.createVariable herr⟩
    · intro e found he hget hne
      exact hv.mismatchOver (he (v, found) (Registry.mem_of_get? hget)) hne
    · intro e x he _ _ p hp
      rcases List.mem_append.mp hp with hp | hp
      · exact he p hp
      · rw [List.mem_singleton.mp hp]
        exact hv
  typed v := .inl rfl
  raised err herr name expected found h := absurd h (herr name expected found)
  setCreateVariables _ _ he := he
  renew _ _ _ := nofun

/-- A new backend does not touch the registry. -/
theorem Encoder.registry_rebind (next : B.State) (e : Encoder B) :
    (Encoder.rebind next e).state.registry = e.registry := by
  rw [rebind, Call.bind_apply]
  split <;> rfl

/-- However a session goes, a variable is registered under the sort of its declared type, or as a
truth value if it stands in a literal.  A sort mismatch is over a variable that stands in a literal
and is declared a number.  If there are no such variables, every variable has the sort of its
declared type, and there is no sort mismatch. -/
theorem registered_sorts (hB : B.NeverMismatches) (backend : B.State) (options : Options)
    (turns : List (Turn B)) :
    let ended := Session.takeAll turns (.start backend options)
    let literals := turns.flatMap Turn.literals
    (∀ p ∈ ended.state.encoder.registry.entries,
      p.2.sort = p.1.type.sort ∨ p.2.sort = .bool ∧ p.1 ∈ literals) ∧
    (∀ name expected found, .error (.sortMismatch name expected found) ∈ ended.value →
      ∃ v ∈ literals, v.name = name ∧ v.type ≠ .bool ∧
        (expected = .bool ∧ found = v.type.sort ∨ expected = v.type.sort ∧ found = .bool)) ∧
    ((∀ v ∈ literals, v.type = .bool) →
      (∀ p ∈ ended.state.encoder.registry.entries, p.2.sort = p.1.type.sort) ∧
      ∀ name expected found, .error (.sortMismatch name expected found) ∉ ended.value) := by
  intro ended literals
  have hrebind : ∀ next (e : Encoder B), e.SortsUsable literals →
      (Encoder.rebind next e).state.SortsUsable literals := by
    intro next e he
    rw [Encoder.SortsUsable, Encoder.registry_rebind]
    exact he
  obtain ⟨hentries, herrors⟩ := (upkeep_sorts hB literals).takeAll turns
    (s := .start backend options) (fun v hv => .inr ⟨rfl, hv⟩) (fun next _ => hrebind next) nofun
  refine ⟨hentries, fun name expected found herr => herrors _ herr name expected found rfl,
    fun hbool => ⟨fun p hp => (hentries p hp).eq_of_forall_bool hbool, ?_⟩⟩
  intro name expected found herr
  obtain ⟨v, hv, _, hnumber, _⟩ := herrors _ herr name expected found rfl
  exact hnumber (hbool v hv)

/-- A number `x` on two backends, and a truth value `x` on the second one. -/
def rebound : List (Turn SmtLib.backend) :=
  [.step (.declare ⟨"x", .integer⟩), .rebind (.empty {} 7),
    .step (.encode (.literal ⟨"x", .bool⟩ false)), .step (.encodeTerm (.var ⟨"x", .integer⟩))]

theorem registered_sorts_rebound :
    let ended := Session.takeAll rebound (.start (.empty {} 0) {})
    ended.state.encoder.registeredSorts = [(⟨"x", .integer⟩, .int), (⟨"x", .bool⟩, .bool)] ∧
      (∀ p ∈ ended.state.encoder.registry.entries, p.2.sort = p.1.type.sort) ∧
      .error (.sortMismatch "x" .int .bool) ∉ ended.value := by
  intro ended
  obtain ⟨_, _, hbool⟩ := registered_sorts neverMismatches_smtLib (.empty {} 0) {} rebound
  obtain ⟨hsorts, hnone⟩ := hbool (by decide)
  exact ⟨rfl, hsorts, hnone "x" .int .bool⟩

/-- A literal over a number registers it as a truth value, and the number is refused from then
on. -/
theorem registered_sorts_literal_first :
    let ended := Session.takeAll (B := SmtLib.backend)
      [.step (.encode (.literal ⟨"x", .integer⟩ true)),
        .step (.encodeTerm (.var ⟨"x", .integer⟩))] (.start (.empty {} 0) {})
    (∃ p ∈ ended.state.encoder.registry.entries, p.2.sort ≠ p.1.type.sort) ∧
      .error (.sortMismatch "x" .int .bool) ∈ ended.value := by
  intro ended
  refine ⟨⟨(⟨"x", .integer⟩, ⟨.bool, ⟨0, .atom "x"⟩⟩), ?_, nofun⟩, ?_⟩
  · exact List.mem_of_getElem? (i := 0) rfl
  · exact List.mem_of_getElem? (i := 1) rfl

end SmtEncoding
