import Mission.Classify.Basic
import Mission.Command.Basic
import Mission.Settings.Basic

/-! The setting in which a script is checked: its settings, the types of Parameter, the user functions,
and the function whose body is being checked. Errors that leave the script checkable are collected;
others end the check. -/
namespace Mission

structure Checker where
  settings : Settings := {}
  kinds : ParameterKinds := .builtin
  functions : Table UserFunction := {}
  /-- The function whose body is being checked. -/
  within : Option String := none

instance : Inhabited Checker := ⟨{}⟩

/-- What checking changes: the workspace, and the errors collected so far. -/
structure CheckState where
  workspace : Workspace
  errors : List ValidationError := []

/-- A step on the workspace that also edits a subject. What it did before it failed remains. -/
abbrev Edit (σ α : Type) := ExceptT CommandError (StateM (σ × Workspace)) α

namespace Edit

variable {σ α : Type}

def subject : Edit σ σ :=
  fun s => (.ok s.1, s)

def replace (subject : σ) : Edit σ Unit :=
  fun s => (.ok (), (subject, s.2))

def workspace : Edit σ Workspace :=
  fun s => (.ok s.2, s)

/-- A step that leaves the subject alone. -/
def step (f : Step CommandError α) : Edit σ α :=
  fun s =>
    let (result, w) := f s.2
    (result, (s.1, w))

/-- Edits a part of the subject. -/
def within {τ : Type} (part : τ) (rebuild : τ → σ) (f : Edit τ α) : Edit σ α :=
  fun s =>
    let (result, (part, w)) := f (part, s.2)
    (result, (rebuild part, w))

end Edit

namespace Checker

/-- The setting inside a function: the first error ends the check and names the function. -/
def enter (ck : Checker) (function : String) : Checker :=
  { ck with
    settings := { ck.settings with continueOnError := false, manage := .function }
    within := some function }

/-- Adds the place of an error to its cause. -/
def locate (ck : Checker) (e : CommandError) (text : String) (line : Option Nat) :
    ValidationError :=
  match ck.within with
  | some function => { cause := .inFunction function e, text, line }
  | none => { cause := e, text, line }

/-- Collects an error, or ends the check with it. The result is never `true`. -/
def handle (ck : Checker) (e : CommandError) (text : String) (line : Option Nat) (s : CheckState) :
    Except ValidationError Bool × CheckState :=
  let e := ck.locate e text line
  if e.errorClass = .fatal || !ck.settings.continueOnError then (.error e, s)
  else
    (.ok false,
      { workspace := s.workspace.note .warn e.message, errors := s.errors ++ [e] })

/-- Collects errors one by one. -/
def handleAll (ck : Checker) :
    List CommandError → (valid : Bool) → CheckState → Except ValidationError Bool × CheckState
  | [], valid, s => (.ok valid, s)
  | e :: rest, valid, s =>
    match ck.handle e "" none s with
    | (.error e, s) => (.error e, s)
    | (.ok fine, s) => ck.handleAll rest (valid && fine) s

end Checker

end Mission
