import Mission.Store

/-! The state that classifying and checking work on: all objects, the names in scope, and the log. -/
namespace Mission

structure Workspace where
  registry : Registry
  scope : Scope
  log : Log := {}

namespace Workspace

def find? (w : Workspace) (name : String) : Option ObjectId :=
  w.scope.find? w.registry name

def findOfType? (w : Workspace) (name : String) (t : ObjectType) : Option ObjectId :=
  w.scope.findOfType? w.registry name t

def note (w : Workspace) (level : Level) (text : String) : Workspace :=
  { w with log := w.log.push ⟨level, text⟩ }

end Workspace

/-- A step on the workspace that can fail. What it did before it failed remains. -/
abbrev Step (ε α : Type) := ExceptT ε (StateM Workspace) α

namespace Step

/-- Appends a message to the log. -/
def note {ε : Type} (level : Level) (text : String) : Step ε Unit :=
  modify fun w => w.note level text

/-- Recasts the error of a step. -/
def mapError {ε ε' α : Type} (f : ε → ε') (step : Step ε α) : Step ε' α :=
  fun w =>
    match step w with
    | (.ok a, w) => (.ok a, w)
    | (.error e, w) => (.error (f e), w)

end Step

end Mission
