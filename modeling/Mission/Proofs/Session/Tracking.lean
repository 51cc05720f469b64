import Mission.Proofs.Execution.Tracking
import Mission.Proofs.Store.Renaming
import Mission.Session

/-! Sessions that can come about. Whatever is asked of a session, its names lead to objects that
know them, no object is part of two others, and what the commands of a checked script write as a
whole can be written as a whole. -/
namespace Mission

open Registry Outcome Store Session

namespace Accessor

theorem Writable.rename {a : Accessor} {system : Option ObjectId} {r : Registry}
    (h : a.Writable system r) (old new : String) : (a.rename old new).Writable system r := by
  refine ⟨fun {d k id} ha => ?_⟩
  cases a with
  | whole d' k' target =>
    cases ha
    exact h.whole rfl
  | property d' p | element d' name array row column | number d' x | string d' s | boolean d' b
  | onOff d' b => cases ha

theorem Writable.sameParts {a : Accessor} {system : Option ObjectId} {r r' : Registry}
    (h : a.Writable system r) (hParts : SameParts r r') : a.Writable system r' :=
  ⟨fun ha => hParts.whole (h.whole ha)⟩

end Accessor

/-- The solar system is installed, and the default coordinate systems are added to it. -/
theorem Store.withDefaults_keeps {J : Store → Registry → Prop}
    (hAdd : ∀ {s r name axes a id s' r'}, J s r → Catalog.coordinateSystem name "Earth" axes = .ok a →
      s.add r a = .ok (id, s', r') → J s' r')
    (h : J { solarSystem := some (install {} Catalog.solarSystem).1 }
      (install {} Catalog.solarSystem).2) :
    J (withDefaults {}).1 (withDefaults {}).2 := by
  unfold withDefaults
  refine List.foldlRecOn (motive := fun p : Store × Registry => J p.1 p.2) _ _ h fun p hp system _ => ?_
  dsimp only
  split
  · exact hp
  · next known =>
      split
      · next added => exact hAdd hp known added
      · exact hp

namespace Session

variable {s s' : Session}

/-- The sessions that can come about: from a new one by requests, whether they succeed or fail, and by
writing objects directly. -/
inductive Reachable : Session → Prop
  | new (settings : Settings) : Reachable (.new settings)
  | add {s : Session} (a : Assembly) : Reachable s → Reachable (s.add a).2
  | create {s : Session} (typeName name : String) : Reachable s → Reachable (s.create typeName name).2
  | remove {s : Session} (name : String) : Reachable s → Reachable (s.remove name).2
  | addFunction {s : Session} (f : FunctionDeclaration) : Reachable s → Reachable (s.addFunction f)
  | push {s : Session} (c : Command) : Reachable s → Reachable (s.push c)
  | rename {s : Session} (old new : String) : Reachable s → Reachable (s.rename old new).2
  | classify {s : Session} (options : ClassifyOptions) (text : String) :
      Reachable s → Reachable (s.classify options text).2
  | evaluate {s : Session} (text : String) : Reachable s → Reachable (s.evaluate text).2
  | validate {s : Session} : Reachable s → Reachable s.validate.2
  | run {s : Session} : Reachable s → Reachable s.run.2
  | write {s : Session} {r : Registry} : Reachable s → Evolves s.store.solarSystem s.registry r →
      Reachable { s with registry := r }

theorem workspace_system (s : Session) : s.workspace.system = s.store.solarSystem := by
  change (s.store.solarSystem <|> none) = _
  simp

/-- What holds of every session that can come about. -/
structure Sound (s : Session) : Prop where
  workspace : s.workspace.Sound
  writable : s.validated = true → Checker.AllWritable s.commands s.workspace

/-- The registry and the store of a session that has not been checked. -/
theorem Sound.of_parts (hForest : s.registry.Forest) (hStore : s.store.Sound s.registry)
    (hValidated : s.validated = false) : s.Sound where
  workspace := ⟨hForest, hStore, fun h => by cases h⟩
  writable hTrue := by
    rw [hValidated] at hTrue
    cases hTrue

/-- Taking over a workspace that has come of that of the session. -/
theorem workspace_withWorkspace {w : Workspace} (h : s.workspace.Extends w) :
    (s.withWorkspace w).workspace = w := by
  have hOuter : w.scope.outer = none := h.outer
  obtain ⟨r, ⟨store, outer⟩, log⟩ := w
  cases hOuter
  rfl

theorem Sound.later (hSound : s.Sound) (h : s.workspace.Becomes s'.workspace)
    (hCommands : s'.commands = s.commands) (hValidated : s'.validated = s.validated) : s'.Sound where
  workspace := h.sound
  writable hTrue := by
    refine ⟨fun hc ha => ?_⟩
    rw [hCommands] at hc
    have hWritable := (hSound.writable (hValidated ▸ hTrue)).writable hc ha
    rw [h.path.system]
    exact hWritable.later h.path.registry

/-! ### The requests -/

theorem sound_withDefaults :
    (withDefaults {}).2.Forest ∧ (withDefaults {}).1.Sound (withDefaults {}).2 := by
  obtain ⟨hGrows, hLoose⟩ := install_grows {} Catalog.solarSystem
  have hRoot := hLoose.root hGrows forest_empty
  refine withDefaults_keeps (J := fun s r => r.Forest ∧ s.Sound r) ?_
    ⟨forest_empty.later (hGrows.evolves none), ?_, ?_, ?_, ?_, ?_⟩
  · intro s r _ _ _ _ _ _ ⟨hForest, hs⟩ _ hAdd
    obtain ⟨hGrows, hSound, -⟩ := add_spec hs hForest hAdd
    exact ⟨hForest.later (hGrows.evolves none), hSound⟩
  · exact fun hMem => by cases hMem
  · exact fun hMem => by cases hMem
  · exact List.nodup_nil
  · rintro id ⟨⟩
    exact ⟨hRoot, congrArg Object.name (object_install {} Catalog.solarSystem)⟩
  · exact fun _ hMem => by cases hMem

theorem Sound.add (h : s.Sound) (a : Assembly) : (s.add a).2.Sound := by
  dsimp only [Session.add]
  split
  · next hAdd =>
      obtain ⟨hGrows, hSound, -⟩ := add_spec h.workspace.scope.store h.workspace.forest hAdd
      exact .of_parts (h.workspace.forest.later (hGrows.evolves none)) hSound rfl
  · exact .of_parts h.workspace.forest h.workspace.scope.store rfl

theorem Sound.create (h : s.Sound) (typeName name : String) : (s.create typeName name).2.Sound := by
  unfold Session.create
  split
  · exact h.add _
  · exact h

theorem Sound.remove (h : s.Sound) (name : String) : (s.remove name).2.Sound :=
  .of_parts h.workspace.forest (h.workspace.scope.store.remove name) rfl

theorem Sound.addFunction (h : s.Sound) (f : FunctionDeclaration) : (s.addFunction f).Sound := by
  have hEvolves := (holdAll_grows s.registry f.locals).evolves s.store.solarSystem
  exact .of_parts (h.workspace.forest.later hEvolves) (h.workspace.scope.store.later hEvolves) rfl

theorem Sound.rename (h : s.Sound) (old new : String) : (s.rename old new).2.Sound := by
  unfold Session.rename
  split
  · exact h
  · next store r hRename =>
      obtain ⟨hSound, hParts, hSystem⟩ := rename_spec h.workspace.scope.store hRename
      refine ⟨⟨hParts.forest h.workspace.forest, hSound, fun h => by cases h⟩, fun hTrue => ?_⟩
      refine ⟨fun {c a} hc ha => ?_⟩
      rw [Command.renameAll_eq_map] at hc
      obtain ⟨d, hd, rfl⟩ := Command.exists_of_occurs_rename hc
      obtain ⟨b, hb, rfl⟩ := Command.mem_accessors_rename ha
      have hWritable := (h.writable hTrue).writable hd hb
      rw [workspace_system] at hWritable ⊢
      rw [hSystem]
      exact (hWritable.rename old new).sameParts hParts

/-! What requests leave the session with. -/

theorem classify_state (s : Session) (options : ClassifyOptions) (text : String) :
    (s.classify options text).2 =
      s.withWorkspace (Mission.classify s.checker.kinds options text s.workspace).2 := by
  unfold classify
  rcases Mission.classify s.checker.kinds options text s.workspace with ⟨_ | _, w⟩ <;> rfl

theorem evaluate_state (s : Session) (text : String) : (s.evaluate text).2 = (s.classify {} text).2 := by
  unfold evaluate
  rcases s.classify {} text with ⟨_ | a, s'⟩
  · rfl
  · dsimp only
    split <;> rfl

/-- The commands are checked, and then the objects unless the check stops before. -/
theorem validate_state (s : Session) :
    ∃ x commands c w errors validated,
      s.checker.validateAll s.commands { workspace := s.workspace } = (x, commands, c) ∧
      (w = c.workspace ∨ w = (s.checker.finalPass c).2.workspace) ∧
      (validated = true → ∃ valid, x = .ok valid) ∧
      s.validate.2 = { s.withWorkspace w with commands, errors, validated } := by
  rcases hAll : s.checker.validateAll s.commands { workspace := s.workspace } with ⟨x, commands, c⟩
  rw [validate_eq_match, hAll]
  cases x with
  | error e => exact ⟨_, commands, c, c.workspace, _, false, rfl, .inl rfl, nofun, rfl⟩
  | ok valid =>
    dsimp only
    rcases hFinal : s.checker.finalPass c with ⟨_ | fine, c'⟩
    · exact ⟨_, commands, c, c'.workspace, _, false, rfl, .inr (by rw [hFinal]), nofun, rfl⟩
    · have hLast : c'.workspace = (s.checker.finalPass c).2.workspace := by rw [hFinal]
      dsimp only
      split
      · exact ⟨_, commands, c, _, c'.errors, true, rfl, .inr hLast, fun _ => ⟨_, rfl⟩, rfl⟩
      · exact ⟨_, commands, c, _, c'.errors, false, rfl, .inr hLast, nofun, rfl⟩

theorem execute_state (s : Session) :
    ∃ log, s.execute.2 = { s with
      registry := (Execution.runAll s.checker { store := s.store } s.commands
        { registry := s.registry, log := s.log }).2.registry
      log } := by
  dsimp only [execute]
  split
  · exact ⟨_, rfl⟩
  · exact ⟨_, rfl⟩

/-- A script is accepted if its commands and then its objects are checked without an error. -/
theorem validate_eq_ok (h : s.validate = (.ok (), s')) :
    ∃ valid commands c fine c', s.checker.validateAll s.commands { workspace := s.workspace } =
    (.ok valid, commands, c) ∧
      s.checker.finalPass c = (.ok fine, c') ∧ c'.errors = [] ∧
      s' = { s.withWorkspace c'.workspace with commands, errors := [], validated := true } := by
  rw [validate_eq_match] at h
  rcases hAll : s.checker.validateAll s.commands { workspace := s.workspace } with ⟨_ | valid, commands, c⟩
  · rw [hAll] at h
    cases h
  rw [hAll] at h
  dsimp only at h
  rcases hFinal : s.checker.finalPass c with ⟨_ | fine, c'⟩
  · rw [hFinal] at h
    cases h
  rw [hFinal] at h
  dsimp only at h
  split at h
  · next hErrors =>
      cases h
      rw [List.isEmpty_iff] at hErrors
      refine ⟨valid, commands, c, fine, c', rfl, hFinal, hErrors, ?_⟩
      rw [withChecked, hErrors]
      rfl
  · cases h

theorem validated_of_validate (h : s.validate = (.ok (), s')) : s'.validated = true := by
  obtain ⟨_, _, _, _, _, -, -, -, rfl⟩ := validate_eq_ok h
  rfl

/-- A run checks the script unless that has been done, and executes it unless the check refuses it. -/
theorem run_state (s : Session) :
    (s.validated = true ∧ s.run.2 = s.execute.2) ∨ s.run.2 = s.validate.2 ∨
      (s.validate.2.validated = true ∧ s.run.2 = s.validate.2.execute.2) := by
  unfold Session.run
  split
  · next hValidated => exact .inl ⟨hValidated, rfl⟩
  · rcases hRun : s.validate with ⟨_ | _, s'⟩
    · exact .inr (.inl rfl)
    · exact .inr (.inr ⟨validated_of_validate hRun, rfl⟩)

theorem Sound.classify (h : s.Sound) (options : ClassifyOptions) (text : String) :
    (s.classify options text).2.Sound := by
  have hBecomes := (adds_classify h.workspace s.checker.kinds options text).becomes
  rw [classify_state]
  refine h.later ?_ rfl rfl
  rwa [workspace_withWorkspace hBecomes.path]

theorem Sound.evaluate (h : s.Sound) (text : String) : (s.evaluate text).2.Sound := by
  rw [evaluate_state]
  exact h.classify {} text

/-- A check leaves the objects of the session evolved, and where it accepts the script, the
accessors of all its commands are tracked. -/
theorem validate_spec {x : Except SessionError Unit} (hSound : s.workspace.Sound) (h : s.validate = (x, s')) :
    s.workspace.Becomes s'.workspace ∧
      (s'.validated = true → Checker.AllTracked s'.commands s'.workspace) := by
  obtain ⟨y, commands, c, w, errors, validated, hAll, hLast, hValid, hState⟩ := s.validate_state
  rw [h] at hState
  subst hState
  obtain ⟨hBecomes, hTracked⟩ := s.checker.validateAll_spec (s := { workspace := s.workspace }) hSound hAll
  have hFinal : c.workspace.Becomes w := by
    rcases hLast with rfl | rfl
    · exact .refl hBecomes.sound
    · exact s.checker.becomes_finalPass hBecomes.sound
  have hBoth := hBecomes.trans hFinal
  have hTaken : (s.withWorkspace w).workspace = w := workspace_withWorkspace hBoth.path
  change s.workspace.Becomes (s.withWorkspace w).workspace ∧
    (validated = true → Checker.AllTracked commands (s.withWorkspace w).workspace)
  rw [hTaken]
  refine ⟨hBoth, fun hTrue => ?_⟩
  obtain ⟨valid, rfl⟩ := hValid hTrue
  exact (hTracked valid rfl).later hFinal.path

theorem Sound.validate (h : s.Sound) : s.validate.2.Sound := by
  obtain ⟨hBecomes, hTracked⟩ := validate_spec h.workspace (Prod.eta s.validate).symm
  exact ⟨hBecomes.sound, fun hTrue => (hTracked hTrue).allWritable⟩

/-- Running a script leaves its objects evolved, whichever way it ends. -/
theorem execute_becomes (hSound : s.workspace.Sound)
    (hWritable : Checker.AllWritable s.commands s.workspace) : s.workspace.Becomes s.execute.2.workspace := by
  let start : RunState := { registry := s.registry, log := s.log }
  have hRun : s.workspace.Becomes
      ((Execution.runAll s.checker { store := s.store } s.commands start).2.workspace { store := s.store }) :=
    Execution.executeAll_becomes _ (Workspace.Becomes.refl (w := start.workspace { store := s.store }) hSound)
      hWritable
  obtain ⟨log, hState⟩ := s.execute_state
  rw [hState]
  exact ⟨⟨hRun.sound.forest, hRun.sound.scope⟩, hRun.path.registry, rfl, fun _ => rfl, rfl⟩

theorem Sound.execute (h : s.Sound) (hValidated : s.validated = true) : s.execute.2.Sound := by
  have hBecomes := execute_becomes h.workspace (h.writable hValidated)
  obtain ⟨log, hState⟩ := s.execute_state
  rw [hState] at hBecomes ⊢
  exact h.later hBecomes rfl rfl

theorem Sound.run (h : s.Sound) : s.run.2.Sound := by
  rcases s.run_state with ⟨hValidated, hState⟩ | hState | ⟨hValidated, hState⟩ <;> rw [hState]
  · exact h.execute hValidated
  · exact h.validate
  · exact h.validate.execute hValidated

theorem Reachable.sound (h : s.Reachable) : s.Sound := by
  induction h with
  | new settings => exact .of_parts sound_withDefaults.1 sound_withDefaults.2 rfl
  | add a _ ih => exact ih.add a
  | create typeName name _ ih => exact ih.create typeName name
  | remove name _ ih => exact ih.remove name
  | addFunction f _ ih => exact ih.addFunction f
  | push c _ ih => exact .of_parts ih.workspace.forest ih.workspace.scope.store rfl
  | rename old new _ ih => exact ih.rename old new
  | classify options text _ ih => exact ih.classify options text
  | evaluate text _ ih => exact ih.evaluate text
  | validate _ ih => exact ih.validate
  | run _ ih => exact ih.run
  | @write s r _ hEvolves ih =>
    refine ih.later ?_ rfl rfl
    rw [← workspace_system] at hEvolves
    exact (Workspace.Becomes.refl ih.workspace).evolve hEvolves

/-! ### Keys -/

theorem keys_add (h : s.store.objects.keys.Nodup) (a : Assembly) : (s.add a).2.store.objects.keys.Nodup := by
  dsimp only [Session.add]
  split
  · next hAdd =>
      obtain ⟨-, -, rfl, -⟩ := add_eq_ok hAdd
      exact Table.nodup_keys_insert h _ _
  · exact h

theorem keys_classify (h : s.store.objects.keys.Nodup) (options : ClassifyOptions) (text : String) :
    (s.classify options text).2.store.objects.keys.Nodup := by
  have hChanges : Changes s.checker.kinds (fun _ => True) s.workspace
      (Mission.classify s.checker.kinds options text s.workspace).2 := classify_changing options text _
  rw [classify_state]
  exact hChanges.keys h

theorem keys_validate (h : s.store.objects.keys.Nodup) : s.validate.2.store.objects.keys.Nodup := by
  obtain ⟨x, commands, c, w, errors, validated, hAll, hLast, -, hState⟩ := s.validate_state
  have hScope : w.scope = c.workspace.scope := by
    rcases hLast with rfl | rfl
    · rfl
    · exact s.checker.scope_finalPass c
  rw [hState]
  change w.scope.store.objects.keys.Nodup
  rw [hScope]
  exact (s.checker.validateAll_settles hAll).1.keys h

/-- No two objects of a session are stored under one name. -/
theorem Reachable.keys (h : s.Reachable) : s.store.objects.keys.Nodup := by
  induction h with
  | new settings =>
    change (withDefaults {}).1.objects.keys.Nodup
    decide +kernel
  | add a _ ih => exact keys_add ih a
  | create typeName name _ ih =>
    unfold Session.create
    split
    · exact keys_add ih _
    · exact ih
  | remove name _ ih => exact ih.sublist (List.filter_sublist.map Prod.fst)
  | addFunction f _ ih => exact ih
  | push c _ ih => exact ih
  | rename old new _ ih =>
    unfold Session.rename
    split
    · exact ih
    · next hRename => exact (rename_keys hRename).1
  | classify options text _ ih => exact keys_classify ih options text
  | evaluate text _ ih =>
    rw [evaluate_state]
    exact keys_classify ih {} text
  | validate _ ih => exact keys_validate ih
  | @run s _ ih =>
    have hExecute : ∀ s : Session, s.execute.2.store = s.store := by
      intro s
      obtain ⟨log, hState⟩ := s.execute_state
      rw [hState]
    rcases s.run_state with ⟨-, hState⟩ | hState | ⟨-, hState⟩ <;> rw [hState]
    · rwa [hExecute]
    · exact keys_validate ih
    · rw [hExecute]
      exact keys_validate ih
  | write _ _ ih => exact ih

end Session

end Mission
