import Mathlib.Data.List.Forall2
import SmtEncoding.Encoder.Basic

/-!
# Resolving a variable

A registry finds every entry if no variable is registered twice (`get?_of_mem`).

What `Encoder.resolve` does to an encoder, case by case.  A registered variable changes nothing
(`run_resolve_registered`).  One that is not registered is refused (`run_resolve_refused`), or the
backend is asked to create it; then it is entered (`run_resolve_created`) unless the backend fails
(`run_resolve_failed`).
-/

namespace SmtEncoding

namespace Registry

variable {O : SolverSort → Type} {σ : Type} {sort : SolverSort}
  {create : String → Action σ (O sort)} {v : Variable} {s : σ} {r : Registry O}

/-- A variable is not found exactly if it is not registered. -/
theorem get?_eq_none_iff : r.get? v = none ↔ v ∉ r.registered := by
  rw [get?, List.lookup_eq_none_iff, registered, List.mem_map]
  constructor
  · rintro h ⟨p, hp, rfl⟩
    exact bne_iff_ne.mp (h p hp) rfl
  · exact fun h p hp => bne_iff_ne.mpr fun hv => h ⟨p, hp, hv.symm⟩

/-- An object that is found for a variable stands in an entry with it. -/
theorem mem_of_get? {o : Object O} (h : r.get? v = some o) : (v, o) ∈ r.entries := by
  obtain ⟨before, after, hentries, _⟩ := List.lookup_eq_some_iff.mp h
  rw [hentries]
  exact List.mem_append_right _ List.mem_cons_self

/-- Where no variable is registered twice, every entry is found. -/
theorem get?_of_mem (h : r.registered.Nodup) {o : Object O} (ho : (v, o) ∈ r.entries) :
    r.get? v = some o := by
  obtain ⟨before, after, hentries⟩ := List.append_of_mem ho
  rw [get?, List.lookup_eq_some_iff]
  refine ⟨before, after, hentries, fun p hp => bne_iff_ne.mpr fun hv => ?_⟩
  rw [registered, hentries, List.map_append, List.nodup_append] at h
  exact h.2.2 p.1 (List.mem_map_of_mem hp) v List.mem_cons_self hv.symm

/-- A registered variable is answered with its object, if that has the sort that is asked for. -/
theorem run_resolve_some {allow : Bool} {found : Object O} (h : r.get? v = some found) :
    (resolve create allow v).run (s, r) =
      ⟨match found.as? sort with
        | some x => .ok x
        | none => .error (.sortMismatch v.name sort found.sort), (s, r), []⟩ := by
  rw [resolve, Action.run_get_bind]
  simp only [h]
  cases found.as? sort <;> rfl

/-- Without creation, a variable that is not registered is refused. -/
theorem run_resolve_none_false (h : r.get? v = none) :
    (resolve create false v).run (s, r) =
      ⟨.error (.variableNotPreregistered v.name), (s, r), []⟩ := by
  rw [resolve, Action.run_get_bind]
  simp only [h]
  rfl

/-- With creation, a variable that is not registered is created, reported and entered, unless the
backend refuses it. -/
theorem run_resolve_none_true (h : r.get? v = none) :
    (resolve create true v).run (s, r) =
      match ((create v.name).run s).value with
      | .ok x => ⟨.ok x, (((create v.name).run s).state, r.insert v ⟨sort, x⟩),
          ((create v.name).run s).log ++ [.created v sort]⟩
      | .error e =>
        ⟨.error e, (((create v.name).run s).state, r), ((create v.name).run s).log⟩ := by
  rw [resolve, Action.run_get_bind]
  simp only [h, if_true]
  rw [Action.run_bind, Action.run_zoom]
  cases ((create v.name).run s).value with
  | ok x => rfl
  | error e => rfl

end Registry

namespace Encoder

variable {B : Backend} {sort : SolverSort} {v : Variable} {e : Encoder B}

theorem run_resolve_registered {allow : Bool} {found : Object B.Obj}
    (h : e.registry.get? v = some found) :
    (resolve allow sort v).run e =
      ⟨match found.as? sort with
        | some x => .ok x
        | none => .error (.sortMismatch v.name sort found.sort), e, []⟩ := by
  rw [resolve, Action.run_zoom, Registry.run_resolve_some h]
  cases found.as? sort <;> rfl

theorem run_resolve_refused (h : e.registry.get? v = none) :
    (resolve false sort v).run e = ⟨.error (.variableNotPreregistered v.name), e, []⟩ := by
  rw [resolve, Action.run_zoom, Registry.run_resolve_none_false h]

theorem run_resolve_created (h : e.registry.get? v = none) {x : B.Obj sort}
    (hx : ((B.createVariable v.name sort).run e.backend).value = .ok x) :
    (resolve true sort v).run e =
      ⟨.ok x, { e with backend := ((B.createVariable v.name sort).run e.backend).state,
                       registry := e.registry.insert v ⟨sort, x⟩ },
        ((B.createVariable v.name sort).run e.backend).log ++ [.created v sort]⟩ := by
  rw [resolve, Action.run_zoom, Registry.run_resolve_none_true h, hx]

theorem run_resolve_failed (h : e.registry.get? v = none) {error : EncodeError}
    (hx : ((B.createVariable v.name sort).run e.backend).value = .error error) :
    (resolve true sort v).run e =
      ⟨.error error, { e with backend := ((B.createVariable v.name sort).run e.backend).state },
        ((B.createVariable v.name sort).run e.backend).log⟩ := by
  rw [resolve, Action.run_zoom, Registry.run_resolve_none_true h, hx]

end Encoder

end SmtEncoding
