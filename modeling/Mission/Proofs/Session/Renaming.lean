import Mission.Proofs.Command.Likeness
import Mission.Proofs.Execution.Positions
import Mission.Proofs.Store.Likeness

/-! Renaming an object does not change what a script does. -/
namespace Mission

open Name Execution

namespace Session

variable {old new : String}

/-- Where the run of a checked script begins. -/
def opening (s : Session) : Position :=
  ⟨s.checker, { store := s.store }, [], .all s.commands, { registry := s.registry, log := s.log }⟩

theorem opening_bounded (s : Session) : s.opening.Bounded s.checker :=
  ⟨rfl, rfl, .nil s.checker, Nat.zero_le _⟩

theorem runs_opening (s : Session) :
    Runs s.checker { store := s.store } [] (.all s.commands) s.opening.state
      (runAll s.checker { store := s.store } s.commands s.opening.state) :=
  runs_run (.nil s.checker) (Nat.le_refl _) (t := .all s.commands) (Nat.zero_le _) s.opening.state

/-- The report lines of a checked script are those of its run. -/
theorem runs_of_execute_eq_ok {s s₁ : Session} {lines : List ReportLine} (h : s.execute = (.ok lines, s₁)) :
    ∃ state, Runs s.checker { store := s.store } [] (.all s.commands) s.opening.state (.ok (), state) ∧
      state.output.toList = lines := by
  have hRuns := s.runs_opening
  rcases hRun : runAll s.checker { store := s.store } s.commands s.opening.state with ⟨x, state⟩
  rw [opening] at hRun
  unfold execute at h
  dsimp only at h hRun
  rw [hRun] at h
  rw [opening, hRun] at hRuns
  cases x with
  | error e => cases h
  | ok u =>
    cases h
    exact ⟨state, hRuns, rfl⟩

theorem execute_of_runs {s : Session} {state : RunState}
    (h : Runs s.checker { store := s.store } [] (.all s.commands) s.opening.state (.ok (), state)) :
    ∃ s₁, s.execute = (.ok state.output.toList, s₁) := by
  have hRun : (.ok (), state) = runAll s.checker { store := s.store } s.commands s.opening.state :=
    h.eq_run (.nil s.checker) (Nat.zero_le _) (Nat.le_refl _)
  rw [opening] at hRun
  unfold execute
  dsimp only at hRun ⊢
  rw [← hRun]
  exact ⟨_, rfl⟩

/-- A rename to a name that is nowhere in the script does not change what the script reports, if the
run goes through. The script calls no functions, whose bodies a rename does not reach, and it
reports numbers only, since other values can hold the name. -/
theorem rename_keeps_reports {s s₁ s' : Session} {lines : List ReportLine} (hReachable : s.Reachable)
    (hKeyed : s.Keyed) (hOld : isValid old = true) (hNew : isValid new = true) (hLacks : Lacks new s.texts)
    (hWord : Wordless old) (hRegistry : s.registry.Renamable old new) (hValidated : s.validated = true)
    (hCalls : ∀ c ∈ Command.preorderAll s.commands, c.isCall = false) (hNumbers : s.opening.OnlyNumbers)
    (hRun : s.run = (.ok lines, s₁)) (hRename : s.rename old new = (.ok (), s')) :
    ∃ lines' s₁', s'.run = (.ok lines', s₁') ∧ lines'.map ReportLine.text = lines.map ReportLine.text := by
  have hNames : Reversible old new := ⟨isIdentifier_of_isValid hOld, isIdentifier_of_isValid hNew⟩
  have hSound := hReachable.sound.workspace
  rw [texts, lacks_append, lacks_append, lacks_flatMap, lacks_flatMap] at hLacks
  obtain ⟨hKeys, -, hCommands⟩ := hLacks
  have hDistinct : ((s.store.renamedPairs old new).map Prod.fst).Nodup :=
    Table.nodup_keys_map (f := fun key => replace key old new) (g := fun key => replace key new old)
      id hReachable.keys fun entry hEntry => hNames.replace (hKeys entry.1 (List.mem_map_of_mem hEntry))
  have hAlike : Command.AllAlike old s.commands (Command.renameAll old new s.commands) :=
    Command.alike_renameAll hNames s.commands fun c hc => ⟨⟨hCommands c hc, hKeyed c hc⟩, hCalls c hc⟩
  unfold rename at hRename
  split at hRename
  · cases hRename
  · next store registry hStore =>
      cases hRename
      have hObjects := Store.rename_alike hNames.old hSound.scope.store hSound.forest hDistinct hRegistry
        hStore
      rw [run, if_pos hValidated] at hRun
      obtain ⟨state, hRuns, rfl⟩ := runs_of_execute_eq_ok hRun
      have hOpening : RunState.Alike old new s.opening.state
          { registry, log := s.log.push (Store.renameMessage old new) } := ⟨hObjects, rfl⟩
      obtain ⟨state', hRuns', hState⟩ := hRuns.alike hWord rfl (.all hAlike) hOpening hNumbers
      obtain ⟨s₁', hRun'⟩ := execute_of_runs (s := { s with
        store, registry, commands := Command.renameAll old new s.commands,
        log := s.log.push (Store.renameMessage old new) }) hRuns'
      refine ⟨_, s₁', ?_, hState.output⟩
      rw [run, if_pos hValidated]
      exact hRun'

/-- A script that has been checked. It copies one number to another and reports it. -/
def copyingScript : Session :=
  let s := ((Session.new {}).add (Catalog.userVariable "x" 7.0)).2
  let s := (s.add (Catalog.userVariable "y" 0.0)).2
  let s := (s.add (Catalog.reportFile "rf")).2
  let s := s.push (.assignment (.make "y" "x") none)
  let s := s.push (.report (.make "rf" ["y"]) none)
  s.validate.2

theorem reachable_copyingScript : copyingScript.Reachable :=
  .validate (.push _ (.push _ (.add _ (.add _ (.add _ (.new _))))))

theorem run_of_isOk (s : Session) (h : s.run.1.isOk = true) : ∃ lines, s.run = (.ok lines, s.run.2) := by
  rcases hRun : s.run with ⟨x, s'⟩
  rw [hRun] at h
  cases x with
  | error e => cases h
  | ok lines => exact ⟨lines, rfl⟩

/-- One number is copied to another under its new name, and the line that is reported is the same. -/
theorem rename_keeps_reports_copyingScript :
    ∃ lines lines' s₁ s₁', copyingScript.run = (.ok lines, s₁) ∧ lines.length = 1 ∧
      (copyingScript.rename "x" "z").1.isOk = true ∧ (copyingScript.rename "x" "z").2.run =
      (.ok lines', s₁') ∧
      lines'.map ReportLine.text = lines.map ReportLine.text := by
  have hScript : copyingScript.validated = true ∧
      (∀ c ∈ Command.preorderAll copyingScript.commands, c.bindings.keys.Nodup ∧ c.isCall = false) ∧
      Lacks "z" copyingScript.texts ∧ copyingScript.registry.Renamable "x" "z" ∧
      Position.onlyNumbers 5 copyingScript.opening = true ∧ copyingScript.run.1.isOk = true ∧
      (copyingScript.rename "x" "z").1.isOk = true ∧
      (copyingScript.run.1.toOption.map List.length) = some 1 := by
    decide +kernel
  obtain ⟨hValidated, hCommands, hLacks, hRegistry, hNumbers, hRun, hRename, hLength⟩ := hScript
  obtain ⟨lines, hLines⟩ := run_of_isOk copyingScript hRun
  rw [hLines] at hLength
  obtain ⟨lines', s₁', hRun', hTexts⟩ := rename_keeps_reports reachable_copyingScript
    (fun c hc => (hCommands c hc).1) (by decide) (by decide) hLacks
    ⟨⟨'x', [], rfl, by decide, by decide⟩, by decide, by decide⟩ hRegistry hValidated
      (fun c hc => (hCommands c hc).2)
    (Position.onlyNumbers_of_eq_true copyingScript.opening_bounded hNumbers) hLines
    (rename_of_isOk copyingScript "x" "z" hRename)
  exact ⟨lines, lines', _, s₁', hLines, Option.some.inj hLength, hRename, hRun', hTexts⟩

/-- A function that reads an object of the script, and a call of it. -/
def callingScript : Session :=
  let s := ((Session.new {}).add (Catalog.userVariable "x" 7.0)).2
  let s := (s.add (Catalog.userVariable "y" 0.0)).2
  let s := (s.add (Catalog.reportFile "rf")).2
  let s := s.addFunction
    { name := "F"
      inputs := []
      outputs := ["o"]
      locals := [Catalog.userVariable "o" 0.0]
      body := [.assignment (.make "o" "x") none] }
  let s := s.push (.call (.make "F" [] ["y"]) none)
  s.push (.report (.make "rf" ["y"]) none)

/-- The body of the function keeps the old name, which is no name of an object any more. -/
theorem rename_misses_function :
    Lacks "z" callingScript.texts ∧ callingScript.run.1.isOk = true ∧
      (callingScript.rename "x" "z").1.isOk = true ∧
      (callingScript.rename "x" "z").2.run.1.isOk = false := by
  decide +kernel

end Session

end Mission
