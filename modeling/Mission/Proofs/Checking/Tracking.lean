import Mission.Proofs.Checking.Changes
import Mission.Proofs.Checking.FinalPass

/-! Checking gives commands tracked accessors, since each one comes of classifying a name and a
check makes a workspace evolve whatever it does. -/
namespace Mission

open Registry Outcome

section

variable {kinds : ParameterKinds} {written : String → Prop} {w w' : Workspace}

/-- Parameters and axes are all that a check adds, and both keep the workspace sound. -/
theorem Changes.becomes (h : Changes kinds written w w') (hSound : w.Sound) : w.Becomes w' := by
  induction h with
  | refl => exact .refl hSound
  | note _ level text ih => exact ih.note level text
  | parameter _ dotted _ _ _ _ free ih =>
    exact ih.trans (Parameter.adds_withParameter ih.sound dotted rfl free).1.becomes
  | @axes w' _ _ _ id axes system _ _ found _ set ih =>
    have hWhole := ih.sound.find?_whole (Workspace.find?_of_findOfType? found)
    have hObject : Evolves w'.system w'.registry (w'.registry.setObject id system) :=
      evolves_setObject w'.system (Object.takes_set set).sameShape
    exact ih.evolve (hObject.trans (evolves_replaceOwned _ (hObject.has hWhole.has) .axisSystem axes))

/-- An accessor is tracked when it is made and stays so in all that comes later. -/
theorem Classified.tracked {text : String} {a : Accessor} (h : Classified kinds written w w' text a)
    (hSound : w.Sound) : a.Tracked w' := by
  obtain ⟨options, w₁, w₂, hBefore, hRun, hAfter⟩ := h
  have hGives := (Meets.of_ok hRun).mp (classify_meets (hBefore.becomes hSound).sound kinds options text)
  exact hGives.tracked.later (hAfter.becomes hGives.adds.becomes.sound).path

end

namespace Checker

variable {w w' : Workspace} (ck : Checker)
variable {cs : List Command} {s : CheckState} {w₀ : Workspace}

/-- Every accessor of the commands and of those inside them is tracked. -/
structure AllTracked (cs : List Command) (w : Workspace) : Prop where
  tracked : ∀ {c a}, Command.Occurs c cs → a ∈ c.accessors → a.Tracked w

theorem AllTracked.later (h : AllTracked cs w) (hw : w.Extends w') : AllTracked cs w' :=
  ⟨fun hc ha => (h.tracked hc ha).later hw⟩

/-- Every object that the commands can write as a whole can be written as a whole. -/
structure AllWritable (cs : List Command) (w : Workspace) : Prop where
  writable : ∀ {c a}, Command.Occurs c cs → a ∈ c.accessors → a.Writable w.system w.registry

theorem AllTracked.allWritable (h : AllTracked cs w) : AllWritable cs w :=
  ⟨fun hc ha => (h.tracked hc ha).writable⟩

/-- Whatever a check finds, the workspace evolves; where it ends, all accessors are tracked. -/
theorem validateAll_spec {cs' : List Command} {s' : CheckState} {x : Except ValidationError Bool}
    (hSound : s.workspace.Sound) (h : ck.validateAll cs s = (x, cs', s')) :
    s.workspace.Becomes s'.workspace ∧ (∀ valid, x = .ok valid → AllTracked cs' s'.workspace) := by
  obtain ⟨hChanges, hSettled⟩ := ck.validateAll_settles h
  refine ⟨hChanges.becomes hSound, fun valid hOk => ⟨fun hc ha => ?_⟩⟩
  obtain ⟨name, hClassified⟩ := ((hSettled valid hOk).settled hc).held ha
  exact hClassified.tracked hSound

/-! ### The final pass -/

theorem becomes_bindAll (h : w₀.Becomes w) : w₀.Becomes (Parameter.bindAll w).1 :=
  Parameter.bindAll_keeps (fun _ _ hw _ => hw.evolve (evolves_setObject _ ⟨rfl, rfl⟩)) h

/-- Axes are parts of a coordinate system that is there. -/
theorem GivesAxes.becomes (h : GivesAxes w w') (hSound : w.Sound) : w.Becomes w' := by
  induction h with
  | refl => exact .refl hSound
  | note _ level text ih => exact ih.note level text
  | part _ type _ _ ih =>
    exact ih.evolve (evolves_replaceOwned _ (has_of_coordinateSystem type) .axisSystem _)
  | @both w' _ id _ axes _ type _ set ih =>
    have hAxes := evolves_replaceOwned w'.system (has_of_coordinateSystem type) .axisSystem axes
    exact ih.evolve (hAxes.trans (evolves_setObject _ (Object.takes_set set).sameShape))

/-- The final pass binds Parameters and gives axes, and does nothing else. -/
theorem becomes_finalPass (hSound : s.workspace.Sound) :
    s.workspace.Becomes (ck.finalPass s).2.workspace := by
  have hBound : s.workspace.Becomes (Parameter.bindAll s.workspace).1 := becomes_bindAll (.refl hSound)
  exact hBound.trans ((ck.givesAxes_finalPass s).becomes hBound.sound)

end Checker

end Mission
