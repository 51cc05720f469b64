import Mission.Proofs.Classify.Typing
import Mission.Proofs.Execution.Tracking

/-! Running commands among objects of the catalogue. A command writes through accessors that fit the
objects, and a function works on copies of objects of the catalogue, so a run leaves all objects of
the form they were, whichever way it ends. -/
namespace Mission

open Registry Outcome

variable {given : String → Prop}

/-- The Parameter types are the builtin ones, and the functions declare objects of the catalogue. -/
structure Checker.Supplied (given : String → Prop) (ck : Checker) : Prop where
  kinds : ck.kinds = .builtin
  locals : ∀ f ∈ ck.functions.values, ∀ e ∈ f.locals, e.object.Catalogued given

theorem Checker.Supplied.enter {ck : Checker} (h : ck.Supplied given) (function : String) :
    (ck.enter function).Supplied given :=
  ⟨h.kinds, h.locals⟩

/-! ### Calls -/

theorem Scope.Within.enter {s : Scope} {r : Registry} (h : s.Within r) {locals : Store}
    (hLocals : locals.Within r) : (s.enter locals).Within r := by
  refine ⟨hLocals, fun hOuter => ?_⟩
  cases hOuter
  cases hSome : s.outer with
  | none => exact h.store
  | some outer => exact h.outer hSome

namespace Call

variable {r r' now : Registry} {store store' : Store}

/-- A copy of an input is as the objects of the catalogue. -/
theorem catalogued_inputObject (h : r.Catalogued given) {formal : String} {actual : Accessor} {a : Assembly}
    (hInput : inputObject r formal actual = .ok a) : a.Catalogued given := by
  unfold inputObject at hInput
  split at hInput
  · obtain ⟨id, -, hInput⟩ := bind_eq_ok.mp hInput
    cases hInput
    have hCopy := h.assembly id
    exact hCopy.withObject (hCopy.object.keep ⟨⟨rfl, rfl, .refl _⟩, rfl⟩)
  · obtain ⟨v, -, hInput⟩ := bind_eq_ok.mp hInput
    split at hInput
    · next m =>
        obtain ⟨o, hStore, hInput⟩ := bind_eq_ok.mp hInput
        cases hInput
        have hArray : (Catalog.userArray formal m.rows m.cols).Catalogued given :=
          (Catalog.Builds.userArray formal m.rows m.cols).catalogued
        have hTakes := Object.takes_store (CommandError.liftObject_eq_ok.mp hStore)
        exact hArray.withObject (hArray.object.takes hTakes)
    · cases hInput
      exact (Catalog.Builds.userVariable formal _).catalogued
    · cases hInput
      exact (Catalog.Builds.userVariable formal _).catalogued
    · cases hInput
      exact (Catalog.Builds.userString formal _).catalogued

theorem preserves_localStore (h : r.Catalogued given) {c : Call} {f : UserFunction}
    (hLocals : ∀ e ∈ f.locals, e.object.Catalogued given) (hStore : c.localStore f r = .ok (store, r')) :
    Preserves given r r' ∧ store.Within r' := by
  refine localStore_keeps (J := fun store r' => Preserves given r r' ∧ store.Within r') ?_
    (List.Subset.refl _) ⟨.refl h, (fun hMem => by cases hMem), fun hSystem => by cases hSystem⟩ hStore
  rintro s now a id s' r' ⟨hNow, hWithin⟩ hSource hAdd
  have ha : a.Catalogued given := by
    rcases hSource with hLocal | ⟨formal, actual, -, hInput⟩
    · obtain ⟨e, he, rfl⟩ := List.mem_map.mp hLocal
      exact every_copy h.objects Object.catalogued_default (hLocals e he)
    · exact catalogued_inputObject hNow.catalogued hInput
  obtain ⟨hFirst, hAll⟩ := Store.preserves_add hNow.catalogued hWithin ha hAdd
  exact ⟨hNow.trans hFirst, hAll⟩

end Call

namespace Execution

variable {ck : Checker} {scope : Scope} {c : Call} {f : UserFunction}
  {locate : CommandError → ValidationError}
  {s s' : RunState}

/-- Checked commands among objects of the catalogue. -/
structure Supplies (given : String → Prop) (ck : Checker) (scope : Scope) (r : Registry) (cs : List Command) :
    Prop where
  checker : ck.Supplied given
  registry : r.Catalogued given
  scope : scope.Within r
  fit : Checker.AllFit r cs

/-- The body of a function is checked among copies, and its accessors fit. -/
theorem Supplies.prepare {cs : List Command} (h : Supplies given ck scope s.registry cs)
    (hf : ck.functions.get? c.function = some f) {x : Except ValidationError Frame}
    (hPrepare : prepare ck scope c f locate s = (x, s')) :
    Preserves given s.registry s'.registry ∧
      ∀ {frame}, x = .ok frame → Supplies given (ck.enter c.function) frame.scope s'.registry frame.body := by
  rcases prepare_cases hPrepare with ⟨rfl, e, rfl⟩ | ⟨store, r, y, body, checked, hLocal, hCheck, rfl, hFrame⟩
  · exact ⟨.refl h.registry, nofun⟩
  · have hLocals := h.checker.locals f (List.mem_map.mpr ⟨_, Table.mem_of_get? hf, rfl⟩)
    obtain ⟨hFilled, hStore⟩ := Call.preserves_localStore h.registry hLocals hLocal
    have hw : Workspace.Catalogued given { registry := r, scope := scope.enter store, log := s.log } :=
      ⟨hFilled.catalogued, (h.scope.later hFilled).enter hStore⟩
    obtain ⟨hChanges, hSettled⟩ := (ck.enter c.function).validateAll_settles hCheck
    rw [(h.checker.enter c.function).kinds] at hChanges hSettled
    have hChecked := hChanges.preserves hw
    refine ⟨hFilled.trans hChecked.registry, fun hx => ?_⟩
    obtain ⟨rfl, valid, rfl⟩ := hFrame hx
    exact ⟨h.checker.enter _, hChecked.registry.catalogued, hChecked.scope, (hSettled valid rfl).allFit hw⟩

/-- What a run does to the objects. -/
theorem steady_preserves (given : String → Prop) :
    Steady (Preserves given) Accessor.Fits (Supplies given) where
  toKeptByWrites := keptByWrites_preserves given
  refl h := .refl h.registry
  next h hr := ⟨h.checker, hr.catalogued, h.scope.later hr, h.fit.later hr⟩
  part h hIn := ⟨h.checker, h.registry, h.scope, h.fit.of_occurs hIn⟩
  assigned h hTarget := h.fit.assigned .here hTarget
  called h ha := h.fit.called .here ha
  prepared h hf := h.prepare hf

end Execution

end Mission
