import Mission.Proofs.Execution.Separation

/-! Running commands on an interpreter with a state of its own. The interpreter keeps one checker,
one list of collected errors, one stack of running functions and one current local store. A call
overwrites all of them and puts them back when it is over, whichever way it ends. That the
interpreter gives the runs of `Execution` and has its whole state again afterwards is one equation,
and the calls, the loops and the commands each keep it. -/
namespace Mission

open Registry Outcome

/-! ### What runs keep -/

namespace Registry

/-- Every object is still there under its name. -/
def KeepsNames (r r' : Registry) : Prop :=
  ∀ id, r.Has id → r'.Has id ∧ (r'.object id).name = (r.object id).name

namespace KeepsNames

variable {r r' r'' : Registry}

theorem refl (r : Registry) : KeepsNames r r :=
  fun _ hId => ⟨hId, rfl⟩

theorem trans (h : KeepsNames r r') (h' : KeepsNames r' r'') : KeepsNames r r'' := by
  intro id hId
  obtain ⟨hId', hName⟩ := h id hId
  obtain ⟨hId'', hName'⟩ := h' id hId'
  exact ⟨hId'', hName'.trans hName⟩

theorem of_evolves {system : Option ObjectId} (h : Evolves system r r') : KeepsNames r r' :=
  fun _ hId => ⟨h.has hId, h.name hId⟩

theorem of_grows (h : Grows r r') : KeepsNames r r' :=
  of_evolves (h.evolves none)

theorem modify {f : Entry → Entry} (id : ObjectId)
    (hf : ∀ e, r.entry id = e → (f e).object.name = e.object.name) : KeepsNames r (r.modify id f) := by
  intro other hOther
  refine ⟨hOther, ?_⟩
  by_cases hSame : other = id
  · subst hSame
    rw [object, entry_modify_self hOther]
    exact hf _ rfl
  · rw [object, entry_modify_ne hSame]
    rfl

/-- An object that is overwritten keeps its name, whatever it is part of. -/
theorem overwrite (r : Registry) (target : ObjectId) (a : Assembly) :
    KeepsNames r (r.overwrite target a) := by
  have hGrows := (installAll_grows r a.parts).1
  intro id hId
  refine ⟨hGrows.has hId, ?_⟩
  rw [Registry.overwrite, object]
  by_cases hSame : id = target
  · subst hSame
    rw [entry_modify_self (hGrows.has hId)]
  · rw [entry_modify_ne hSame, hGrows.entry hId]
    rfl

theorem replaceOwned (r : Registry) (id : ObjectId) (t : ObjectType) (part : Assembly) :
    KeepsNames r (r.replaceOwned id t part) :=
  (of_grows (install_grows r part).1).trans (modify id fun _ _ => rfl)

end KeepsNames

end Registry

theorem Changes.keepsNames {kinds : ParameterKinds} {written : String → Prop} {w w' : Workspace}
    (h : Changes kinds written w w') : KeepsNames w.registry w'.registry := by
  induction h with
  | refl => exact .refl _
  | note _ _ _ ih => exact ih
  | @parameter w' _ name kind p _ _ _ _ _ _ ih =>
    exact ih.trans (.of_grows (grows_push (.refl w'.registry) (by simp)).1)
  | axes _ _ _ _ _ set ih =>
    have hObject := evolves_setObject none (Object.takes_set set).sameShape
    exact (ih.trans (.of_evolves hObject)).trans (.replaceOwned _ _ _ _)

theorem Call.keepsNames_localStore {c : Call} {f : UserFunction} {r r' : Registry} {store : Store}
    (h : c.localStore f r = .ok (store, r')) : KeepsNames r r' := by
  refine localStore_keeps (J := fun _ r' => KeepsNames r r') ?_ (List.Subset.refl _) (.refl r) h
  intro s r₁ a id s' r₂ hr _ hAdd
  obtain ⟨-, -, -, rfl⟩ := Store.add_eq_ok hAdd
  exact hr.trans (.of_grows (install_grows r₁ a).1)

/-- The objects are still there under their names, and the report has only grown. -/
structure RunState.Follows (s s' : RunState) : Prop where
  names : KeepsNames s.registry s'.registry
  output : ∃ written, s'.output.toList = s.output.toList ++ written

namespace Execution

open RunState (Follows)

/-- Whatever the commands are, they keep the names of objects. -/
theorem steady_keepsNames : Steady KeepsNames (fun _ _ => True) fun _ _ _ _ => True where
  trans := .trans
  last _ := .refl _
  later _ _ := trivial
  object _ _ h := by
    obtain ⟨d, id, rfl, rfl | ⟨-, rfl⟩⟩ := Accessor.setObject_eq_ok h
    · exact .refl _
    · exact .overwrite _ _ _
  value _ _ h := .of_evolves (Accessor.evolves_setValue none h)
  output _ h := .of_evolves (Assignment.evolves_output none h)
  refl _ := .refl _
  next _ _ := trivial
  part _ _ := trivial
  assigned _ _ := trivial
  called _ _ := trivial
  prepared _ _ h := by
    refine ⟨?_, fun _ => trivial⟩
    rcases prepare_cases h with ⟨rfl, -⟩ | ⟨store, r, y, body, checked, hLocal, hCheck, rfl, -⟩
    · exact .refl _
    · exact (Call.keepsNames_localStore hLocal).trans (Checker.validateAll_settles _ hCheck).1.keepsNames

theorem executeAll_follows {ck : Checker} {onCall : Call → (CommandError → ValidationError) → Run}
    (hCall : ∀ c locate s, Follows s (onCall c locate s).2) (cs : List Command) (s : RunState) :
    Follows s (executeAll ck onCall cs s).2 := by
  have hCall' : ∀ c (_ : Option Nat) locate s, True → Keeps KeepsNames s (onCall c locate s).2 :=
    fun c _ locate s _ => ⟨(hCall c locate s).names, (hCall c locate s).output⟩
  have hRun := @Steady.executeAll_of ck ⟨{}, none⟩ _ _ _ _ steady_keepsNames hCall' cs s trivial
  exact ⟨hRun.registry, hRun.output⟩

theorem invoke_follows (depth : Nat) (ck : Checker) (scope : Scope) (stack : List String) (c : Call)
    (locate : CommandError → ValidationError) (s : RunState) :
    Follows s (invoke depth ck scope stack c locate s).2 := by
  have hRun := @Steady.invoke ck scope _ _ _ steady_keepsNames depth stack c none locate s trivial
  exact ⟨hRun.registry, hRun.output⟩

end Execution

/-! ### Checks that collect nothing -/

namespace Checker

/-- The outcome of a check, with other errors collected. -/
def withErrors {α : Type} (errors : List ValidationError)
    (r : Except ValidationError Bool × α × CheckState) : Except ValidationError Bool × α × CheckState :=
  (r.1, r.2.1, { r.2.2 with errors })

variable {ck : Checker}

theorem handle_of_stops (hStops : ck.settings.continueOnError = false) (e : CommandError) (text : String)
    (line : Option Nat) (s : CheckState) :
    ck.handle e text line s = (.error (ck.locate e text line), s) := by
  simp [handle, hStops]

theorem validateOne_withErrors (hStops : ck.settings.continueOnError = false)
    (errors : List ValidationError) (c : Command) (s : CheckState) :
    ck.validateOne c { s with errors } = withErrors errors (ck.validateOne c s) := by
  unfold validateOne
  rcases ck.check (c, s.workspace) with ⟨_ | _, c', w⟩
  · simp only [handle_of_stops hStops]
    rfl
  · rfl

mutual

theorem validate_withErrors (hStops : ck.settings.continueOnError = false)
    (errors : List ValidationError) (c : Command) (s : CheckState) :
    ck.validate c { s with errors } = withErrors errors (ck.validate c s) := by
  cases c with
  | branch kind chain body otherwise line =>
    rw [validate, validate, validateOne_withErrors hStops]
    rcases ck.validateOne (.branch kind chain body otherwise line) s with ⟨_ | valid, c₁, s₁⟩
    · rfl
    · have hBody := validateEach_withErrors hStops errors body valid s₁
      dsimp only [withErrors] at hBody ⊢
      rw [hBody]
      rcases ck.validateEach body valid s₁ with ⟨_ | valid, body', s₂⟩
      · rfl
      · have hOtherwise := validateEach_withErrors hStops errors otherwise valid s₂
        dsimp only [withErrors] at hOtherwise ⊢
        rw [hOtherwise]
  | assignment a line | report c line | propagate c line | call c line =>
    rw [validate, validate]
    exact validateOne_withErrors hStops errors _ s

theorem validateEach_withErrors (hStops : ck.settings.continueOnError = false)
    (errors : List ValidationError) (cs : List Command) (valid : Bool) (s : CheckState) :
    ck.validateEach cs valid { s with errors } = withErrors errors (ck.validateEach cs valid s) := by
  cases cs with
  | nil =>
    rw [validateEach, validateEach]
    rfl
  | cons c rest =>
    have hFirst := validate_withErrors hStops errors c s
    rw [validateEach, validateEach, hFirst]
    rcases ck.validate c s with ⟨_ | fine, c₁, s₁⟩
    · rfl
    · have hRest := validateEach_withErrors hStops errors rest (valid && fine) s₁
      dsimp only [withErrors] at hRest ⊢
      rw [hRest]

end

/-- A check that stops at the first error neither adds to the errors that were collected before it
nor looks at them. -/
theorem validateAll_withErrors (hStops : ck.settings.continueOnError = false)
    (errors : List ValidationError) (cs : List Command) (s : CheckState) :
    ck.validateAll cs { s with errors } = withErrors errors (ck.validateAll cs s) := by
  have hKept : (ck.validateEach cs true s).2.2.errors = s.errors :=
    congrArg (fun r => r.2.2.errors) (validateEach_withErrors hStops s.errors cs true s)
  dsimp only [validateAll]
  rw [validateEach_withErrors hStops]
  rcases hRun : ck.validateEach cs true s with ⟨_ | valid, cs', s'⟩
  · rfl
  · rw [hRun] at hKept
    dsimp only at hKept
    simp [withErrors, hKept]

end Checker

/-! ### The interpreter -/

/-- The state of an interpreter while it runs commands. -/
structure Interpreter where
  checker : Checker
  /-- The errors that checks have collected. -/
  errors : List ValidationError
  /-- The functions that are running, the innermost first. -/
  stack : List String
  /-- The store of the script. -/
  globals : Store
  /-- The local store of the function that is running. -/
  locals : Option Store
  /-- The objects, the log and the report. -/
  state : RunState

namespace Interpreter

/-- What the interpreter does, and the state it is in afterwards. -/
abbrev Action := Interpreter → Except ValidationError Unit × Interpreter

/-- The names that commands see. -/
def scope (m : Interpreter) : Scope :=
  match m.locals with
  | none => { store := m.globals }
  | some store => { store, outer := some m.globals }

def workspace (m : Interpreter) : Workspace :=
  { registry := m.state.registry, scope := m.scope, log := m.state.log }

/-- Takes over everything that a check has changed, also the stores and the errors. -/
def takeOver (m : Interpreter) (c : CheckState) : Interpreter :=
  { m with
    errors := c.errors
    globals := if m.locals.isSome then c.workspace.scope.outer.getD m.globals else c.workspace.scope.store
    locals := m.locals.map fun _ => c.workspace.scope.store
    state := { m.state with registry := c.workspace.registry, log := c.workspace.log } }

/-- Ends with an error at a place of the script. -/
def fail (e : CommandError) (text : String) (line : Option Nat) : Action :=
  fun m => (.error (m.checker.locate e text line), m)

/-- Does what concerns the objects, the log and the report only. -/
def perform (run : Run) : Action :=
  fun m => ((run m.state).1, { m with state := (run m.state).2 })

/-- What entering a function puts aside. -/
structure Saved where
  within : Option String
  continueOnError : Bool
  manage : Manage
  locals : Option Store

def save (m : Interpreter) : Saved where
  within := m.checker.within
  continueOnError := m.checker.settings.continueOnError
  manage := m.checker.settings.manage
  locals := m.locals

/-- Goes into a function with a local store and the objects that have been made for it. -/
def enter (m : Interpreter) (function : String) (store : Store) (registry : Registry) : Interpreter :=
  { m with
    checker := m.checker.enter function
    stack := function :: m.stack
    locals := some store
    state := { m.state with registry } }

/-- Comes back from a function. -/
def leave (m : Interpreter) (saved : Saved) : Interpreter :=
  { m with
    checker :=
      { m.checker with
        settings :=
          { m.checker.settings with continueOnError := saved.continueOnError, manage := saved.manage }
        within := saved.within }
    stack := m.stack.tail
    locals := saved.locals }

/-- Runs a body as long as the conditions hold. -/
def repeatWhile (chain : Chain) (line : Option Nat) (limit : Nat) (body : Action) : (budget : Nat) → Action
  | budget, m =>
    match chain.evaluate m.state.registry with
    | .error e => fail e s!"While {chain.text}" line m
    | .ok false => (.ok (), m)
    | .ok true =>
      match budget with
      | 0 => fail (.iterationLimit limit s!"While {chain.text}") s!"While {chain.text}" line m
      | budget + 1 =>
        match body m with
        | (.error e, m) => (.error e, m)
        | (.ok (), m) => repeatWhile chain line limit body budget m

mutual

/-- Runs a command. Calls of functions are left to `onCall`. -/
def execute (onCall : Call → Option Nat → Action) : Command → Action
  | .assignment a line, m => perform (Execution.runAssignment a (m.checker.locate · a.text line)) m
  | .branch .ifThen chain body otherwise line, m =>
    match chain.evaluate m.state.registry with
    | .error e => fail e s!"If {chain.text}" line m
    | .ok true => executeAll onCall body m
    | .ok false => executeAll onCall otherwise m
  | .branch .whileLoop chain body _ line, m =>
    let limit := m.checker.settings.maxLoopIterations.toNat
    repeatWhile chain line limit (executeAll onCall body) limit m
  | .report c line, m => perform (Execution.runReport c (m.checker.locate · c.text line)) m
  | .propagate c _, m =>
    (.ok (), { m with state := m.state.note .warn s!"Propagation is not available, skipped \"{c.text}\"" })
  | .call c line, m => onCall c line m

/-- Runs commands in order up to the first error. -/
def executeAll (onCall : Call → Option Nat → Action) : List Command → Action
  | [], m => (.ok (), m)
  | c :: rest, m =>
    match execute onCall c m with
    | (.error e, m) => (.error e, m)
    | (.ok (), m) => executeAll onCall rest m

end

/-- Checks the body of the function that has been entered and runs it. -/
def runBody (onCall : Call → Option Nat → Action) (body : List Command) : Action :=
  fun m =>
    let (result, body, checked) :=
      m.checker.validateAll body { workspace := m.workspace, errors := m.errors }
    match result with
    | .error e => (.error e, m.takeOver checked)
    | .ok _ => executeAll onCall body (m.takeOver checked)

/-- Calls a function. Whatever comes of its body, the interpreter leaves it before it goes on. -/
def call : (depth : Nat) → Call → Option Nat → Action
  | depth, c, line, m =>
    if m.stack.contains c.function then fail (.recursiveCall c.function) c.text line m
    else
      match m.checker.functions.get? c.function, depth with
      | none, _ => fail (.undefinedFunction c.function) c.text line m
      | some _, 0 => fail (.recursiveCall c.function) c.text line m
      | some f, depth + 1 =>
        match c.localStore f m.state.registry with
        | .error e => fail e c.text line m
        | .ok (store, registry) =>
          let saved := m.save
          let (result, m) := runBody (call depth) f.body (m.enter c.function store registry)
          let locals := m.locals.getD {}
          let m := m.leave saved
          match result with
          | .error e => (.error e, m)
          | .ok () => perform (Execution.finish c f locals (m.checker.locate · c.text line)) m

/-- Runs commands. Each function can be entered once. -/
def run (m : Interpreter) (commands : List Command) : Except ValidationError Unit × Interpreter :=
  executeAll (call m.checker.functions.size) commands m

/-! ### The interpreter has its state again -/

theorem perform_of_error {run : Run} {m : Interpreter} {e : ValidationError} {s : RunState}
    (h : run m.state = (.error e, s)) : perform run m = (.error e, { m with state := s }) := by
  rw [perform, h]

theorem perform_of_ok {run : Run} {m : Interpreter} {s : RunState} (h : run m.state = (.ok (), s)) :
    perform run m = (.ok (), { m with state := s }) := by
  rw [perform, h]

theorem repeatWhile_eq {m : Interpreter} {body : Action} {run : Run}
    (hBody : ∀ s, body { m with state := s } = perform run { m with state := s }) (chain : Chain)
    (line : Option Nat) (limit budget : Nat) (s : RunState) :
    repeatWhile chain line limit body budget { m with state := s } =
      perform
        (Execution.loop chain.evaluate (m.checker.locate · s!"While {chain.text}" line)
          (.iterationLimit limit s!"While {chain.text}") run budget)
        { m with state := s } := by
  induction budget generalizing s with
  | zero =>
    rw [repeatWhile, perform, Execution.loop]
    rcases chain.evaluate s.registry with _ | _ | _ <;> rfl
  | succ budget ih =>
    rw [repeatWhile, perform, Execution.loop]
    rcases chain.evaluate s.registry with _ | _ | _
    · rfl
    · rfl
    · dsimp only
      rw [hBody]
      rcases hRun : run s with ⟨_ | _, s'⟩
      · rw [perform_of_error hRun]
      · rw [perform_of_ok hRun]
        exact ih s'

/-- A call does what the call in the scope of the interpreter does, and leaves its state as it was. -/
def Agrees (depth : Nat) (onCall : Call → Option Nat → Action) : Prop :=
  ∀ c line m, onCall c line m =
    perform (Execution.invoke depth m.checker m.scope m.stack c (m.checker.locate · c.text line)) m

section

variable {depth : Nat} {onCall : Call → Option Nat → Action}

mutual

theorem execute_eq (hCall : Agrees depth onCall) (c : Command) (m : Interpreter) :
    execute onCall c m =
      perform (Execution.execute m.checker (Execution.invoke depth m.checker m.scope m.stack) c) m := by
  cases c with
  | assignment a line => rw [execute, perform, perform, Execution.execute]
  | branch kind chain body otherwise line =>
    cases kind with
    | ifThen =>
      have hBody := executeAll_eq hCall body m
      have hOtherwise := executeAll_eq hCall otherwise m
      rw [execute, perform, Execution.execute]
      rcases chain.evaluate m.state.registry with _ | _ | _
      · rfl
      · exact hOtherwise
      · exact hBody
    | whileLoop =>
      rw [execute, perform, Execution.execute]
      exact repeatWhile_eq (fun s => executeAll_eq hCall body { m with state := s }) chain line _ _ m.state
  | report c line => rw [execute, perform, perform, Execution.execute]
  | propagate c line => rw [execute, perform, Execution.execute]
  | call c line =>
    rw [execute, perform, Execution.execute]
    exact hCall c line m

theorem executeAll_eq (hCall : Agrees depth onCall) (cs : List Command) (m : Interpreter) :
    executeAll onCall cs m =
      perform (Execution.executeAll m.checker (Execution.invoke depth m.checker m.scope m.stack) cs) m := by
  cases cs with
  | nil => rw [executeAll, perform, Execution.executeAll]
  | cons c rest =>
    have hFirst := execute_eq hCall c m
    rw [executeAll, hFirst, perform, perform, Execution.executeAll]
    rcases hRun : Execution.execute m.checker (Execution.invoke depth m.checker m.scope m.stack) c m.state
      with ⟨_ | _, s⟩
    · rfl
    · exact executeAll_eq hCall rest { m with state := s }

end

end

theorem scope_enter (m : Interpreter) (function : String) (store : Store) (registry : Registry) :
    (m.enter function store registry).scope = m.scope.enter store := by
  unfold scope enter
  cases m.locals <;> rfl

/-- The interpreter in a function, after its body has been checked. -/
def checkedIn (m : Interpreter) (function : String) (w : Workspace) : Interpreter :=
  { m.enter function w.scope.store w.registry with
    state := { m.state with registry := w.registry, log := w.log } }

theorem scope_checkedIn {m : Interpreter} {function : String} {store : Store} {w : Workspace}
    (hOuter : w.scope.outer = (m.scope.enter store).outer) : (m.checkedIn function w).scope = w.scope := by
  have hGlobals : (m.scope.enter store).outer = some m.globals := by
    unfold scope Scope.enter
    cases m.locals <;> rfl
  change Scope.mk w.scope.store (some m.globals) = w.scope
  rw [← hGlobals, ← hOuter]

section

variable {m : Interpreter} {function : String} {store : Store} {registry : Registry}
  {body body' : List Command} {x : Except ValidationError Bool} {c : CheckState}

section

variable (hCheck : (m.checker.enter function).validateAll body
  { workspace := { registry, scope := m.scope.enter store, log := m.state.log } } = (x, body', c))
include hCheck

/-- The body of a function is checked as if no errors had been collected before. -/
theorem validateAll_enter
    :
    (m.enter function store registry).checker.validateAll body
        { workspace := (m.enter function store registry).workspace
          errors := (m.enter function store registry).errors } =
      (x, body', { c with errors := m.errors }) := by
  have hWorkspace : (m.enter function store registry).workspace =
      { registry, scope := m.scope.enter store, log := m.state.log } := by
    rw [workspace, scope_enter]
    rfl
  have hStops : (m.checker.enter function).settings.continueOnError = false := rfl
  have hErrors := Checker.validateAll_withErrors hStops m.errors body
    { workspace := { registry, scope := m.scope.enter store, log := m.state.log } }
  rw [hCheck] at hErrors
  rw [hWorkspace]
  exact hErrors

theorem outer_of_check
    :
    c.workspace.scope.outer = (m.scope.enter store).outer := by
  exact ((m.checker.enter function).validateAll_settles hCheck).1.outer

theorem takeOver_enter
    :
    (m.enter function store registry).takeOver { c with errors := m.errors } =
      m.checkedIn function c.workspace := by
  have hGlobals : c.workspace.scope.outer.getD m.globals = m.globals := by
    rw [outer_of_check hCheck]
    unfold scope Scope.enter
    cases m.locals <;> rfl
  simp only [takeOver, checkedIn, enter, Option.isSome_some, if_true, Option.map_some, hGlobals]

end

theorem runBody_of_error {onCall : Call → Option Nat → Action} {e : ValidationError}
    (hCheck : (m.checker.enter function).validateAll body
      { workspace := { registry, scope := m.scope.enter store, log := m.state.log } } =
        (.error e, body', c)) :
    runBody onCall body (m.enter function store registry) = (.error e, m.checkedIn function c.workspace) := by
  unfold runBody
  rw [validateAll_enter hCheck]
  dsimp only
  rw [takeOver_enter hCheck]

theorem runBody_of_ok {depth : Nat} {onCall : Call → Option Nat → Action} (hCall : Agrees depth onCall)
    {valid : Bool}
    (hCheck : (m.checker.enter function).validateAll body
      { workspace := { registry, scope := m.scope.enter store, log := m.state.log } } =
        (.ok valid, body', c)) :
    runBody onCall body (m.enter function store registry) =
      perform
        (Execution.executeAll (m.checker.enter function)
          (Execution.invoke depth (m.checker.enter function) c.workspace.scope (function :: m.stack)) body')
        (m.checkedIn function c.workspace) := by
  have hRun := executeAll_eq hCall body' (m.checkedIn function c.workspace)
  rw [scope_checkedIn (outer_of_check hCheck)] at hRun
  unfold runBody
  rw [validateAll_enter hCheck]
  dsimp only
  rw [takeOver_enter hCheck]
  exact hRun

end

theorem call_agrees (depth : Nat) : Agrees depth (call depth) := by
  induction depth with
  | zero =>
    intro c line m
    unfold call perform Execution.invoke
    dsimp only
    split
    · rfl
    · cases m.checker.functions.get? c.function <;> rfl
  | succ depth ih =>
    intro c line m
    unfold call perform Execution.invoke
    dsimp only
    split
    · rfl
    · cases m.checker.functions.get? c.function with
      | none => rfl
      | some f =>
        dsimp only
        unfold Execution.prepare
        cases hLocal : c.localStore f m.state.registry with
        | error e => rfl
        | ok filled =>
          obtain ⟨store, registry⟩ := filled
          dsimp only
          rcases hCheck : (m.checker.enter c.function).validateAll f.body
            { workspace := { registry, scope := m.scope.enter store, log := m.state.log } }
            with ⟨x, body, checked⟩
          cases x with
          | error e =>
            rw [runBody_of_error hCheck]
            rfl
          | ok valid =>
            rw [runBody_of_ok ih hCheck]
            unfold perform
            rcases hRun : Execution.executeAll (m.checker.enter c.function)
              (Execution.invoke depth (m.checker.enter c.function) checked.workspace.scope
                (c.function :: m.stack)) body (m.checkedIn c.function checked.workspace).state
              with ⟨y, s⟩
            have hState : (m.checkedIn c.function checked.workspace).state =
              { m.state with registry := checked.workspace.registry, log := checked.workspace.log } := rfl
            rw [hState] at hRun
            dsimp only
            rw [hRun]
            cases y with
            | error e => rfl
            | ok _ => rfl

/-- Whichever way a run ends, the interpreter has its checker with the functions, its collected errors,
its stack and its stores again. The report has only grown, and every object that was there is there
under its name. The parts of the local objects that functions declare are as they were, provided that
nothing else leads to them. Result and state are those of the run in the scope of the interpreter,
which for an interpreter outside all functions is `Execution.runAll`. -/
theorem run_restores_state (m : Interpreter) (commands : List Command) :
    ((m.run commands).2.checker = m.checker ∧ (m.run commands).2.errors = m.errors ∧
      (m.run commands).2.stack = m.stack) ∧
    ((m.run commands).2.globals = m.globals ∧ (m.run commands).2.locals = m.locals ∧
      KeepsNames m.state.registry (m.run commands).2.state.registry) ∧
    (∃ written, (m.run commands).2.state.output.toList = m.state.output.toList ++ written) ∧
    (Execution.Secludes (m.checker.Holds m.state.registry) m.checker m.scope m.state.registry commands →
      ∀ id, m.checker.Holds m.state.registry id →
        (m.run commands).2.state.registry.entry id = m.state.registry.entry id) ∧
    ((m.run commands).1, (m.run commands).2.state) =
      Execution.executeAll m.checker
        (Execution.invoke m.checker.functions.size m.checker m.scope m.stack) commands m.state := by
  have hRun : m.run commands = perform
      (Execution.executeAll m.checker
        (Execution.invoke m.checker.functions.size m.checker m.scope m.stack) commands) m :=
    executeAll_eq (call_agrees m.checker.functions.size) commands m
  have hFollows : RunState.Follows m.state
      (Execution.executeAll m.checker
        (Execution.invoke m.checker.functions.size m.checker m.scope m.stack) commands m.state).2 :=
    Execution.executeAll_follows (Execution.invoke_follows _ _ _ _) commands m.state
  rw [hRun]
  refine ⟨⟨rfl, rfl, rfl⟩, ⟨rfl, rfl, hFollows.names⟩, hFollows.output, fun hSecludes id hHolds => ?_, rfl⟩
  exact ((Execution.steady_untouched _).executeAll m.checker.functions.size m.stack hSecludes).registry.entry
    hHolds

/-- A function declares a coordinate system and writes to its axes. -/
def declaredAxes : Interpreter :=
  let (locals, registry) := Registry.holdAll {}
    (Catalog.coordinateSystem "cs" "Earth" "MJ2000Eq").toOption.toList
  let body := [.assignment (.make "cs.XAxis" "'R'") none]
  { checker := { functions := Table.insert {} "F" { name := "F", inputs := [], outputs := [], locals, body } }
    errors := []
    stack := []
    globals := {}
    locals := none
    state := { registry } }

/-- A call writes to the axes of its copy, and the declared ones stay as they are. -/
theorem run_restores_state_declaredAxes :
    (declaredAxes.run [.call (.make "F" [] []) none]).1.isOk = true ∧
      declaredAxes.checker.Holds declaredAxes.state.registry ⟨0⟩ ∧
      (declaredAxes.run [.call (.make "F" [] []) none]).2.state.registry.entry ⟨0⟩ =
        declaredAxes.state.registry.entry ⟨0⟩ := by
  obtain ⟨hOk, hAxes, hSize, hFunctions⟩ : (declaredAxes.run [.call (.make "F" [] []) none]).1.isOk = true ∧
      (declaredAxes.state.registry.owned ⟨0⟩ = [] ∧
        (declaredAxes.state.registry.object ⟨0⟩).parameter?.isNone = true) ∧
      declaredAxes.state.registry.entries.size = 1 ∧
      ∀ f ∈ declaredAxes.checker.functions.values, ∀ e ∈ f.locals,
        e.owned = [⟨0⟩] ∧ e.object.parameter?.isNone = true := by
    decide +kernel
  -- The axes are the only object there is.
  have hOnly : ∀ {id}, declaredAxes.state.registry.Has id → id = ⟨0⟩ := by
    rintro ⟨i⟩ hHas
    have hLess : i < declaredAxes.state.registry.entries.size := hHas
    rw [hSize] at hLess
    obtain rfl : i = 0 := by omega
    rfl
  have hOwned : ∀ {id part}, part ∉ declaredAxes.state.registry.owned id := by
    intro id part hPart
    rw [hOnly (has_of_mem_owned hPart), hAxes.1] at hPart
    cases hPart
  have hHeld : ∀ {id}, declaredAxes.checker.Holds declaredAxes.state.registry id → id = ⟨0⟩ := by
    rintro id (⟨hFunction, hLocal, hMem⟩ | ⟨-, hPart⟩)
    · rw [(hFunctions _ hFunction _ hLocal).1] at hMem
      exact List.mem_singleton.mp hMem
    · exact absurd hPart hOwned
  have hSecludes : Execution.Secludes (declaredAxes.checker.Holds declaredAxes.state.registry)
    declaredAxes.checker
      declaredAxes.scope declaredAxes.state.registry [.call (.make "F" [] []) none] := by
    refine ⟨⟨fun {id} hId => ?_, fun hPart => absurd hPart hOwned, fun id hId => ?_⟩, fun f hf e he => ?_,
      ⟨⟨fun hMem => (by cases hMem), nofun⟩, nofun⟩, fun c a hc ha => ?_⟩
    · rw [hHeld hId]
      change 0 < declaredAxes.state.registry.entries.size
      rw [hSize]
      exact Nat.zero_lt_one
    · rw [hOnly hId]
      exact Object.clear_of_none (Option.isNone_iff_eq_none.mp hAxes.2)
    · exact Object.clear_of_none (Option.isNone_iff_eq_none.mp (hFunctions f hf e he).2)
    · cases List.mem_singleton.mp hc.mem_preorderAll
      cases ha
  have hHolds : declaredAxes.checker.Holds declaredAxes.state.registry ⟨0⟩ :=
    .declared List.mem_cons_self List.mem_cons_self List.mem_cons_self
  exact ⟨hOk, hHolds, (run_restores_state declaredAxes _).2.2.2.1 hSecludes ⟨0⟩ hHolds⟩

/-- The same where the script has a name for the declared axes. -/
def sharedAxes : Interpreter :=
  { declaredAxes with globals := { objects := Table.insert {} "MJ2000Eq" ⟨0⟩ } }

/-- A script that replaces the solar system. -/
def otherBodies : Session :=
  let system := Catalog.plain "other" "SolarSystem" .solarSystem []
  let s := ((Session.new {}).add (.mk system [Catalog.celestialBody "Kerbin" 3531.6 600.0])).2
  (s.push (.assignment (.make "SolarSystem" "other") none)).validate.2

/-- A run writes to declared parts that are shared, and bodies come and go with the solar system. -/
theorem run_writes_shared_axes :
    let commands := (sharedAxes.checker.validateAll [.assignment (.make "MJ2000Eq.XAxis" "'R'") none]
      { workspace := sharedAxes.workspace }).2.1
    let xAxis (m : Interpreter) := ((m.state.registry.object ⟨0⟩).get "XAxis").toOption.map Value.toText
    sharedAxes.checker.Holds sharedAxes.state.registry ⟨0⟩ ∧ xAxis sharedAxes = some "" ∧
      xAxis (sharedAxes.run commands).2 = some "R" ∧
      (otherBodies.find? "Earth").isSome = true ∧ otherBodies.run.2.find? "Earth" = none := by
  refine ⟨.declared List.mem_cons_self List.mem_cons_self List.mem_cons_self, ?_⟩
  decide +kernel

end Interpreter

end Mission
