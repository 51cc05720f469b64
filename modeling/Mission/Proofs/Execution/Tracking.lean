import Mission.Proofs.Checking.Tracking
import Mission.Proofs.Execution.Keeping

/-! Running commands that have been checked. Assignments write through tracked accessors, and a
function works on objects of its own and writes its outputs back through tracked accessors, so the
objects evolve whichever way a run ends. -/
namespace Mission

open Registry Outcome

/-! ### The local store of a call -/

namespace Store

/-- What is added to a sound store is new to the registry. -/
theorem add_spec {s s' : Store} {r r' : Registry} {a : Assembly} {id : ObjectId}
    (hSound : s.Sound r) (hForest : r.Forest) (h : s.add r a = .ok (id, s', r')) :
    Grows r r' ∧ s'.Sound r' ∧ s'.solarSystem = s.solarSystem := by
  obtain ⟨hFree, rfl, rfl, rfl⟩ := add_eq_ok h
  obtain ⟨hGrows, hLoose⟩ := install_grows r a
  have hName := congrArg Object.name (object_install r a)
  exact ⟨hGrows, hSound.insert (hGrows.evolves none) hFree hLoose.new (hLoose.root hGrows hForest) hName, rfl⟩

theorem empty_sound (r : Registry) : Store.Sound {} r where
  root hMem := by cases hMem
  name hMem := by cases hMem
  distinct := List.nodup_nil
  system hSystem := by cases hSystem
  apart hSystem := by cases hSystem

end Store

namespace Call

/-- What filling a local store comes to. -/
structure Fills (r : Registry) (store : Store) (r' : Registry) : Prop where
  grows : Grows r r'
  sound : store.Sound r'
  system : store.solarSystem = none

theorem fills_localStore {c : Call} {f : UserFunction} {r r' : Registry} {store : Store}
    (hForest : r.Forest) (h : c.localStore f r = .ok (store, r')) : Fills r store r' := by
  refine localStore_keeps (J := Fills r) ?_ (List.Subset.refl _) ⟨.refl r, Store.empty_sound r, rfl⟩ h
  intro s r₁ a id s' r₂ hFills _ hAdd
  have hLater : r₁.Forest := hForest.later (hFills.grows.evolves none)
  obtain ⟨hGrows, hSound, hSystem⟩ := Store.add_spec hFills.sound hLater hAdd
  exact ⟨hFills.grows.trans hGrows, hSound, hSystem.trans hFills.system⟩

end Call

namespace Scope

theorem system_enter {s : Scope} {r : Registry} (hSound : s.Sound r) {locals : Store}
    (hNone : locals.solarSystem = none) : (s.enter locals).system = s.system := by
  unfold enter system
  rw [hNone]
  cases hOuter : s.outer with
  | none => simp
  | some outer => simp [(hSound.outer hOuter).2]

/-- Local names hide the names outside without breaking what these lead to. -/
theorem Sound.enter {s : Scope} {r : Registry} (hSound : s.Sound r) {locals : Store}
    (hLocals : locals.Sound r) (hNone : locals.solarSystem = none) : (s.enter locals).Sound r where
  store := hLocals
  outer hOuter := by
    cases hOuter
    refine ⟨?_, hNone⟩
    cases hOuter : s.outer with
    | none => exact hSound.store
    | some outer => exact (hSound.outer hOuter).1

end Scope

namespace Execution

variable {scope : Scope}

theorem becomes_of_evolves {s s' : RunState} (hSound : (s.workspace scope).Sound)
    (h : Evolves scope.system s.registry s'.registry) :
    (s.workspace scope).Becomes (s'.workspace scope) := by
  have hEvolve := (Workspace.Becomes.refl hSound).evolve h
  exact ⟨⟨hEvolve.sound.forest, hEvolve.sound.scope⟩, ⟨h, rfl, fun _ => rfl, rfl⟩⟩

/-- Commands that write only what can be written as a whole, in a sound scope. -/
structure Tracks (system : Option ObjectId) (_ck : Checker) (scope : Scope) (r : Registry)
    (cs : List Command) :
    Prop where
  within : scope.system = system
  forest : r.Forest
  scope : scope.Sound r
  writable : ∀ {c a}, Command.Occurs c cs → a ∈ c.accessors → a.Writable system r

/-- The body of a function is checked among its local objects, and the objects outside evolve. -/
theorem Tracks.prepare {system : Option ObjectId} {ck : Checker} {cs : List Command} {c : Call}
    {f : UserFunction} {locate : CommandError → ValidationError} {s s' : RunState}
    {x : Except ValidationError Frame} (h : Tracks system ck scope s.registry cs)
    (hPrepare : prepare ck scope c f locate s = (x, s')) :
    Evolves system s.registry s'.registry ∧
      ∀ {frame}, x = .ok frame → Tracks system (ck.enter c.function) frame.scope s'.registry frame.body := by
  rcases prepare_cases hPrepare with ⟨rfl, e, rfl⟩ | ⟨store, r, y, body, checked, hLocal, hCheck, rfl, hFrame⟩
  · exact ⟨.refl _ _, nofun⟩
  · have hFills := Call.fills_localStore h.forest hLocal
    have hEvolves : Evolves scope.system s.registry r := hFills.grows.evolves _
    have hSystem : (scope.enter store).system = system :=
      (Scope.system_enter h.scope hFills.system).trans h.within
    have hInner : Workspace.Sound { registry := r, scope := scope.enter store, log := s.log } :=
      ⟨h.forest.later hEvolves, (h.scope.later hEvolves).enter hFills.sound hFills.system⟩
    obtain ⟨hBecomes, hTracked⟩ := (ck.enter c.function).validateAll_spec hInner hCheck
    have hChecked := hBecomes.path.registry
    rw [show Workspace.system ⟨r, scope.enter store, s.log⟩ = system from hSystem] at hChecked
    refine ⟨(h.within ▸ hEvolves).trans hChecked, fun {frame} hx => ?_⟩
    obtain ⟨rfl, valid, rfl⟩ := hFrame hx
    have hSystem' : checked.workspace.scope.system = system := hBecomes.path.system.trans hSystem
    refine ⟨hSystem', hBecomes.sound.forest, hBecomes.sound.scope, fun hc ha => ?_⟩
    have hWritable := ((hTracked valid rfl).tracked hc ha).writable
    rwa [show checked.workspace.system = system from hSystem'] at hWritable

/-- What a run does to the objects makes them evolve. -/
theorem steady_evolves (system : Option ObjectId) :
    Steady (Evolves system) (·.Writable system ·) (Tracks system) where
  trans := .trans
  last _ := .refl _ _
  later := .later
  object _ hWritable := Accessor.evolves_setObject hWritable
  value _ _ := Accessor.evolves_setValue system
  output _ := Assignment.evolves_output system
  refl _ := .refl _ _
  next h hr := ⟨h.within, h.forest.later hr, h.scope.later (h.within ▸ hr), fun hc ha =>
    (h.writable hc ha).later hr⟩
  part h hIn := ⟨h.within, h.forest, h.scope, fun hc => h.writable (hIn hc)⟩
  assigned h hTarget := h.writable .here (Assignment.mem_accessors.mpr (.inl hTarget))
  called h ha := by
    obtain ⟨slot, hSlot, hAccessor⟩ := Slot.mem_accessors.mp ha
    exact h.writable .here (Slot.mem_accessors.mpr ⟨slot, List.mem_append_right _ hSlot, hAccessor⟩)
  prepared h _ := h.prepare

section

variable {ck : Checker} {stack : List String} {w₀ : Workspace} {s : RunState}

theorem tracks_of_becomes {cs : List Command} (h : w₀.Becomes (s.workspace scope))
    (hWritable : Checker.AllWritable cs w₀) : Tracks scope.system ck scope s.registry cs := by
  refine ⟨rfl, h.sound.forest, h.sound.scope, fun hc ha => ?_⟩
  have hLater := (hWritable.writable hc ha).later h.path.registry
  rwa [← h.path.system] at hLater

theorem execute_becomes (depth : Nat) {c : Command} (h : w₀.Becomes (s.workspace scope))
    (hWritable : Checker.AllWritable [c] w₀) :
    w₀.Becomes ((execute ck (invoke depth ck scope stack) c s).2.workspace scope) :=
  h.trans (becomes_of_evolves h.sound
    ((steady_evolves _).execute depth stack (tracks_of_becomes h hWritable)).registry)

theorem executeAll_becomes (depth : Nat) {cs : List Command} (h : w₀.Becomes (s.workspace scope))
    (hWritable : Checker.AllWritable cs w₀) :
    w₀.Becomes ((executeAll ck (invoke depth ck scope stack) cs s).2.workspace scope) :=
  h.trans
    (becomes_of_evolves h.sound
      ((steady_evolves _).executeAll depth stack (tracks_of_becomes h hWritable)).registry)

end

end Execution

end Mission
