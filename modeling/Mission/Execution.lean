import Mission.Checking.Command

/-! Running commands that have been checked. Assignments write objects, reports append lines, and a
function runs on copies of its inputs in a local store of its own. Every run comes to an end: a loop has
a budget, and no function is entered while it is running. -/
namespace Mission

/-- A line written to a report file. -/
structure ReportLine where
  subscriber : String
  text : String
deriving DecidableEq, Repr

/-- What running changes. -/
structure RunState where
  registry : Registry
  log : Log := {}
  output : Array ReportLine := #[]

/-- A run from one state to another. What it did before it failed remains. -/
abbrev Run := RunState → Except ValidationError Unit × RunState

namespace RunState

def note (s : RunState) (level : Level) (text : String) : RunState :=
  { s with log := s.log.push ⟨level, text⟩ }

end RunState

namespace Report

/-- The values of slots as text. -/
def values (r : Registry) : List Slot → Except CommandError (List String)
  | [] => .ok []
  | slot :: rest => do
    match slot.accessor with
    | none => throw (.missingAccessor "Report" slot.name)
    | some a =>
      let v ← CommandError.liftAccess (a.evaluate r)
      return v.toText :: (← values r rest)

def reportLine (c : Report) (r : Registry) : Except CommandError ReportLine := do
  return { subscriber := c.subscriber, text := " ".intercalate (← values r c.slots) }

end Report

namespace Call

/-- A copy of an input under the name of the formal argument. A value becomes a Variable, an Array or
a String. -/
def inputObject (r : Registry) (formal : String) (actual : Accessor) :
    Except CommandError Assembly :=
  if actual.kind = .object then do
    let id ← CommandError.liftAccess actual.evaluateObject
    let source := r.assembly id
    return source.withObject { source.object with name := formal }
  else do
    match ← CommandError.liftAccess (actual.evaluate r) with
    | .matrix m => do
      let array := Catalog.userArray formal m.rows m.cols
      return array.withObject (← CommandError.liftObject (array.object.store (.matrix m)))
    | .integer n => return Catalog.userVariable formal (Real.ofInteger n)
    | .real x => return Catalog.userVariable formal x
    | v => return Catalog.userString formal v.toText

/-- Adds an object to a store that is being filled. -/
def addLocal (store : Store) (r : Registry) (a : Assembly) :
    Except CommandError (Store × Registry) := do
  let (_, store, r) ← CommandError.liftObject (store.add r a)
  return (store, r)

/-- Adds copies of the inputs, in order. -/
def addInputs : List (String × Slot) → Store → Registry → Except CommandError (Store × Registry)
  | [], store, r => .ok (store, r)
  | (formal, slot) :: rest, store, r => do
    match slot.accessor with
    | none => throw (.missingAccessor "CallFunction" formal)
    | some actual =>
      let (store, r) ← addLocal store r (← inputObject r formal actual)
      addInputs rest store r

/-- Adds copies of local objects, in order. -/
def addLocals : List Assembly → Store → Registry → Except CommandError (Store × Registry)
  | [], store, r => .ok (store, r)
  | a :: rest, store, r => do
    let (store, r) ← addLocal store r a
    addLocals rest store r

/-- The local store of a call: copies of the inputs, then of the objects that the function declares. -/
def localStore (c : Call) (f : UserFunction) (r : Registry) :
    Except CommandError (Store × Registry) := do
  let locals := f.locals.map r.copy
  let (store, r) ← addInputs (f.inputs.zip c.inputs) {} r
  addLocals locals store r

/-- Writes the local object of an output back through the accessor of the argument. -/
def writeOutput (locals : Store) (function formal : String) (slot : Slot) (r : Registry) :
    Except CommandError Registry :=
  match slot.accessor, locals.find? r formal with
  | none, _ => .error (.missingAccessor "CallFunction" formal)
  | some _, none => .error (.undefinedObject formal function)
  | some target, some id =>
    if target.kind = .object then CommandError.liftAccess (target.setObject r id)
    else do
      let v ← CommandError.liftObject (r.evaluate id)
      CommandError.liftAccess (target.setValue r v)

/-- Writes the outputs back in order. Those before one that fails stay written. -/
def writeOutputs (locals : Store) (function : String) :
    List (String × Slot) → Registry → Except CommandError Unit × Registry
  | [], r => (.ok (), r)
  | (formal, slot) :: rest, r =>
    match writeOutput locals function formal slot r with
    | .error e => (.error e, r)
    | .ok r => writeOutputs locals function rest r

end Call

namespace Execution

/-- Runs a body as long as the conditions hold, at most `budget` times. The budget is looked at only
when the conditions hold once more. -/
def loop (holds : Registry → Except CommandError Bool) (locate : CommandError → ValidationError)
    (exceeded : CommandError) (body : Run) : (budget : Nat) → Run
  | budget, s =>
    match holds s.registry with
    | .error e => (.error (locate e), s)
    | .ok false => (.ok (), s)
    | .ok true =>
      match budget with
      | 0 => (.error (locate exceeded), s)
      | budget + 1 =>
        match body s with
        | (.error e, s) => (.error e, s)
        | (.ok (), s) => loop holds locate exceeded body budget s

def runAssignment (a : Assignment) (locate : CommandError → ValidationError) : Run :=
  fun s =>
    match a.execute s.registry with
    | .ok registry => (.ok (), { s with registry })
    | .error e => (.error (locate e), s)

def runReport (c : Report) (locate : CommandError → ValidationError) : Run :=
  fun s =>
    match c.reportLine s.registry with
    | .ok written =>
      let s := s.note .debug s!"{written.subscriber}: {written.text}"
      (.ok (), { s with output := s.output.push written })
    | .error e => (.error (locate e), s)

mutual

/-- Runs a command. Calls of functions are left to `onCall`. -/
def execute (ck : Checker) (onCall : Call → (CommandError → ValidationError) → Run) :
    Command → Run
  | .assignment a line, s => runAssignment a (ck.locate · a.text line) s
  | .branch .ifThen chain body otherwise line, s =>
    match chain.evaluate s.registry with
    | .error e => (.error (ck.locate e s!"If {chain.text}" line), s)
    | .ok true => executeAll ck onCall body s
    | .ok false => executeAll ck onCall otherwise s
  | .branch .whileLoop chain body _ line, s =>
    let text := s!"While {chain.text}"
    let limit := ck.settings.maxLoopIterations.toNat
    loop chain.evaluate (ck.locate · text line) (.iterationLimit limit text)
      (executeAll ck onCall body) limit s
  | .report c line, s => runReport c (ck.locate · c.text line) s
  | .propagate c _, s =>
    (.ok (), s.note .warn s!"Propagation is not available, skipped \"{c.text}\"")
  | .call c line, s => onCall c (ck.locate · c.text line) s

/-- Runs commands in order up to the first error. -/
def executeAll (ck : Checker) (onCall : Call → (CommandError → ValidationError) → Run) :
    List Command → Run
  | [], s => (.ok (), s)
  | c :: rest, s =>
    match execute ck onCall c s with
    | (.error e, s) => (.error e, s)
    | (.ok (), s) => executeAll ck onCall rest s

end

/-- The scope and the body of a function, ready to be run. -/
structure Frame where
  scope : Scope
  body : List Command

/-- Makes the local store of a call and checks the body of the function in it. -/
def prepare (ck : Checker) (scope : Scope) (c : Call) (f : UserFunction)
    (locate : CommandError → ValidationError) (s : RunState) :
    Except ValidationError Frame × RunState :=
  match c.localStore f s.registry with
  | .error e => (.error (locate e), s)
  | .ok (store, registry) =>
    let workspace : Workspace := { registry, scope := scope.enter store, log := s.log }
    let (result, body, checked) := (ck.enter c.function).validateAll f.body { workspace }
    let s := { s with registry := checked.workspace.registry, log := checked.workspace.log }
    match result with
    | .error e => (.error e, s)
    | .ok _ => (.ok { scope := checked.workspace.scope, body }, s)

/-- Writes the outputs of a function that has run. -/
def finish (c : Call) (f : UserFunction) (locals : Store)
    (locate : CommandError → ValidationError) : Run :=
  fun s =>
    match Call.writeOutputs locals c.function (f.outputs.zip c.outputs) s.registry with
    | (.error e, registry) => (.error (locate e), { s with registry })
    | (.ok (), registry) =>
      (.ok (), { s with registry }.note .debug s!"Returned from function \"{c.function}\"")

/-- Calls a function, unless it is running already. `depth` is the number of functions that may still
be entered. It starts as the number of functions there are, and the names on the stack are all
different, so it is used up only when every function is running. -/
def invoke (depth : Nat) (ck : Checker) (scope : Scope) (stack : List String) (c : Call)
    (locate : CommandError → ValidationError) : Run :=
  fun s =>
    if stack.contains c.function then (.error (locate (.recursiveCall c.function)), s)
    else
      match ck.functions.get? c.function, depth with
      | none, _ => (.error (locate (.undefinedFunction c.function)), s)
      | some _, 0 => (.error (locate (.recursiveCall c.function)), s)
      | some f, depth + 1 =>
        match prepare ck scope c f locate s with
        | (.error e, s) => (.error e, s)
        | (.ok frame, s) =>
          let inner := ck.enter c.function
          let onCall := invoke depth inner frame.scope (c.function :: stack)
          match executeAll inner onCall frame.body s with
          | (.error e, s) => (.error e, s)
          | (.ok (), s) => finish c f frame.scope.store locate s

/-- Runs a sequence of commands in a scope. -/
def runAll (ck : Checker) (scope : Scope) (commands : List Command) : Run :=
  executeAll ck (invoke ck.functions.size ck scope []) commands

end Execution

end Mission
