import Mission.Checking.Objects
import Mission.Execution

/-! A script as a whole: its objects, its functions and its commands. Commands are checked before they
run, and once more after the script has changed. -/
namespace Mission

inductive SessionError
  /-- Settings that cannot be read. -/
  | settings
  | object (error : ObjectError)
  | classify (error : ClassifyError)
  | access (error : AccessError)
  | validation (error : ValidationError)
  /-- The errors that a check has collected. -/
  | script (errors : List ValidationError)

namespace SessionError

def message : SessionError → String
  | settings => "invalid config"
  | object e => e.message
  | classify e => e.message
  | access e => e.message
  | validation e => e.message
  | script errors =>
    errors.foldl (fun text e => s!"{text}\n  {e.message}") s!"script has {errors.length} error(s):"

end SessionError

/-- What is asked of a session, as it is worded in the report of a failure. -/
inductive Request
  | add (name : String)
  | create (typeName name : String)
  | rename (old new : String)
  | classify (text : String)
  | evaluate (text : String)
  | validate
  | run

namespace Request

def describe : Request → String
  | add name => s!"add '{name}'"
  | create typeName name => s!"create {typeName} '{name}'"
  | rename old new => s!"rename '{old}' to '{new}'"
  | classify text => s!"classify '{text}'"
  | evaluate text => s!"evaluate '{text}'"
  | validate => "validate script"
  | run => "run script"

/-- The report of a failed request. -/
def failure (q : Request) (e : SessionError) : String :=
  s!"Error:\n  failed to {q.describe}:\n  {e.message}\n"

end Request

structure Session where
  registry : Registry
  store : Store
  checker : Checker := {}
  commands : List Command := []
  /-- The errors found by the last check. -/
  errors : List ValidationError := []
  /-- Whether the commands have been checked since the script last changed. -/
  validated : Bool := false
  log : Log := {}

namespace Session

/-- A script without commands, with the solar system and the default coordinate systems. -/
def new (settings : Settings) : Session :=
  let (store, registry) := Store.withDefaults {}
  { registry, store, checker := { settings } }

instance : Inhabited Session := ⟨new {}⟩

def note (s : Session) (level : Level) (text : String) : Session :=
  { s with log := s.log.push ⟨level, text⟩ }

def workspace (s : Session) : Workspace :=
  { registry := s.registry, scope := { store := s.store }, log := s.log }

def withWorkspace (s : Session) (w : Workspace) : Session :=
  { s with registry := w.registry, store := w.scope.store, log := w.log }

def find? (s : Session) (name : String) : Option ObjectId :=
  s.store.find? s.registry name

/-- Adds an object under its name. -/
def add (s : Session) (a : Assembly) : Except SessionError ObjectId × Session :=
  let s := { s with validated := false }
  match s.store.add s.registry a with
  | .ok (id, store, registry) => (.ok id, { s with store, registry })
  | .error e => (.error (.object e), s)

/-- Creates an object of a named type. -/
def create (s : Session) (typeName name : String) : Except SessionError ObjectId × Session :=
  match Catalog.create typeName name with
  | .ok a => s.add a
  | .error e => (.error (.object e), s)

/-- Takes a name out of the script, and gives the object it belonged to. -/
def remove (s : Session) (name : String) : Option ObjectId × Session :=
  (s.store.objects.get? name, { s with store := s.store.remove name, validated := false })

/-- Adds a user function, and the parts of its local objects to the registry. A function of the same
name is replaced. -/
def addFunction (s : Session) (f : FunctionDeclaration) : Session :=
  let (locals, registry) := s.registry.holdAll f.locals
  let function : UserFunction := { f with locals }
  let checker := { s.checker with functions := s.checker.functions.insert f.name function }
  { s with registry, checker, validated := false }.note .debug s!"Added function \"{f.name}\""

def push (s : Session) (c : Command) : Session :=
  { s with commands := s.commands ++ [c], validated := false }

/-- Renames an object, and follows in all objects and commands. Function bodies stay as they are. -/
def rename (s : Session) (old new : String) : Except SessionError Unit × Session :=
  match s.store.rename s.registry old new with
  | .error e => (.error (.object e), s)
  | .ok (store, registry) =>
    let commands := Command.renameAll old new s.commands
    (.ok (), { s with store, registry, commands, log := s.log.push (Store.renameMessage old new) })

/-- Gives a text its meaning among the objects of the script. -/
def classify (s : Session) (options : ClassifyOptions) (text : String) :
    Except SessionError Accessor × Session :=
  let (result, w) := Mission.classify s.checker.kinds options text s.workspace
  let s := s.withWorkspace w
  match result with
  | .ok a => (.ok a, s)
  | .error e => (.error (.classify e), s)

/-- The value of a text. -/
def evaluate (s : Session) (text : String) : Except SessionError Value × Session :=
  match s.classify {} text with
  | (.error e, s) => (.error e, s)
  | (.ok a, s) =>
    match a.evaluate s.registry with
    | .ok v => (.ok v, s)
    | .error e => (.error (.access e), s)

/-- Takes over what a check has found and changed. -/
def withChecked (s : Session) (c : CheckState) : Session :=
  { s.withWorkspace c.workspace with errors := c.errors }

/-- Checks the commands and then the objects. The errors of an earlier check are forgotten. -/
def validate (s : Session) : Except SessionError Unit × Session :=
  let s := { s with validated := false, errors := [] }
  match s.checker.validateAll s.commands { workspace := s.workspace } with
  | (.error e, commands, c) => (.error (.validation e), { s.withChecked c with commands })
  | (.ok _, commands, c) =>
    match s.checker.finalPass c with
    | (.error e, c) => (.error (.validation e), { s.withChecked c with commands })
    | (.ok _, c) =>
      if c.errors.isEmpty then (.ok (), { s.withChecked c with commands, validated := true })
      else (.error (.script c.errors), { s.withChecked c with commands })

/-- A check works on the commands and the workspace of the session as they stand. -/
theorem validate_eq_match (s : Session) :
    s.validate =
      let s₀ : Session := { s with validated := false, errors := [] }
      match s.checker.validateAll s.commands { workspace := s.workspace } with
      | (.error e, commands, c) => (.error (.validation e), { s₀.withChecked c with commands })
      | (.ok _, commands, c) =>
        match s.checker.finalPass c with
        | (.error e, c) => (.error (.validation e), { s₀.withChecked c with commands })
        | (.ok _, c) =>
          if c.errors.isEmpty then (.ok (), { s₀.withChecked c with commands, validated := true })
          else (.error (.script c.errors), { s₀.withChecked c with commands }) :=
  rfl

/-- Runs the commands of a script that has been checked. -/
def execute (s : Session) : Except SessionError (List ReportLine) × Session :=
  let start : RunState := { registry := s.registry, log := s.log }
  let (result, final) := Execution.runAll s.checker { store := s.store } s.commands start
  let s := { s with registry := final.registry, log := final.log }
  match result with
  | .error e => (.error (.validation e), s)
  | .ok () =>
    let text := s!"Ran {s.commands.length} command(s), wrote {final.output.size} report line(s)"
    (.ok final.output.toList, s.note .info text)

/-- Runs the commands, after checking them if the script has changed, and gives the report lines. -/
def run (s : Session) : Except SessionError (List ReportLine) × Session :=
  if s.validated then s.execute
  else
    match s.validate with
    | (.error e, s) => (.error e, s)
    | (.ok (), s) => s.execute

end Session

end Mission
