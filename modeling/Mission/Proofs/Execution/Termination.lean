import Mathlib.Data.List.Perm.Subperm
import Mathlib.Logic.Relation
import Mission.Execution
import Mission.Proofs.Command.Accessors

/-! Every run comes to an end. The runs of a script are described by rules that bound neither how
deep calls are nested nor how long a run is; there is exactly one run from every state, and it is
the one that is computed. The functions that are running are all different, so calls are nested at
most as deep as there are functions, and the number of functions that may still be called, the size
of what is left to run and the rounds left to a loop decrease in this order from one position of a
run to the next. -/
namespace Mission.Execution

variable {depth : Nat} {ck : Checker} {scope : Scope} {stack : List String} {c : Call} {f : UserFunction}

/-- What there is to run. -/
inductive Task
  | all (commands : List Command)
  | one (command : Command)
  /-- A loop that has gone through its body a number of times. -/
  | loop (chain : Chain) (body : List Command) (line : Option Nat) (rounds : Nat)

/-- How often a loop may go through its body. -/
abbrev limit (ck : Checker) : Nat :=
  ck.settings.maxLoopIterations.toNat

/-- The error of a loop. -/
def loopError (ck : Checker) (chain : Chain) (line : Option Nat) (e : CommandError) : ValidationError :=
  ck.locate e s!"While {chain.text}" line

/-- The error of a loop that has gone through its body as often as it may. -/
def exceeded (ck : Checker) (chain : Chain) : CommandError :=
  .iterationLimit (limit ck) s!"While {chain.text}"

/-- The runs of a task in a scope, while the functions on the stack are running. -/
inductive Runs : Checker → Scope → List String → Task → RunState →
    Except ValidationError Unit × RunState → Prop
  | nil {ck scope stack s} : Runs ck scope stack (.all []) s (.ok (), s)
  | stop {ck scope stack c rest s e s'} (first : Runs ck scope stack (.one c) s (.error e, s')) :
      Runs ck scope stack (.all (c :: rest)) s (.error e, s')
  | next {ck scope stack c rest s s' out} (first : Runs ck scope stack (.one c) s (.ok (), s'))
      (others : Runs ck scope stack (.all rest) s' out) :
      Runs ck scope stack (.all (c :: rest)) s out
  | assignment {ck scope stack a line s} :
      Runs ck scope stack (.one (.assignment a line)) s (runAssignment a (ck.locate · a.text line) s)
  | report {ck scope stack c line s} :
      Runs ck scope stack (.one (.report c line)) s (runReport c (ck.locate · c.text line) s)
  | propagate {ck scope stack c line s} :
      Runs ck scope stack (.one (.propagate c line)) s
        (.ok (), s.note .warn s!"Propagation is not available, skipped \"{c.text}\"")
  | undecided {ck scope stack chain body otherwise line s e} (holds : chain.evaluate s.registry = .error e) :
      Runs ck scope stack (.one (.branch .ifThen chain body otherwise line)) s
        (.error (ck.locate e s!"If {chain.text}" line), s)
  | taken {ck scope stack chain body otherwise line s out} (holds : chain.evaluate s.registry = .ok true)
      (inner : Runs ck scope stack (.all body) s out) :
      Runs ck scope stack (.one (.branch .ifThen chain body otherwise line)) s out
  | passed {ck scope stack chain body otherwise line s out} (holds : chain.evaluate s.registry = .ok false)
      (inner : Runs ck scope stack (.all otherwise) s out) :
      Runs ck scope stack (.one (.branch .ifThen chain body otherwise line)) s out
  | repeated {ck scope stack chain body otherwise line s out}
      (rounds : Runs ck scope stack (.loop chain body line 0) s out) :
      Runs ck scope stack (.one (.branch .whileLoop chain body otherwise line)) s out
  | loopUndecided {ck scope stack chain body line n s e} (holds : chain.evaluate s.registry = .error e) :
      Runs ck scope stack (.loop chain body line n) s (.error (loopError ck chain line e), s)
  | loopDone {ck scope stack chain body line n s} (holds : chain.evaluate s.registry = .ok false) :
      Runs ck scope stack (.loop chain body line n) s (.ok (), s)
  | loopExceeded {ck scope stack chain body line n s} (holds : chain.evaluate s.registry = .ok true)
      (last : n = limit ck) :
      Runs ck scope stack (.loop chain body line n) s
        (.error (loopError ck chain line (exceeded ck chain)), s)
  | loopFailed {ck scope stack chain body line n s e s'} (holds : chain.evaluate s.registry = .ok true)
      (more : n ≠ limit ck) (inner : Runs ck scope stack (.all body) s (.error e, s')) :
      Runs ck scope stack (.loop chain body line n) s (.error e, s')
  | loopNext {ck scope stack chain body line n s s' out} (holds : chain.evaluate s.registry = .ok true)
      (more : n ≠ limit ck) (inner : Runs ck scope stack (.all body) s (.ok (), s'))
      (others : Runs ck scope stack (.loop chain body line (n + 1)) s' out) :
      Runs ck scope stack (.loop chain body line n) s out
  | recursive {ck scope stack c line s} (running : c.function ∈ stack) :
      Runs ck scope stack (.one (.call c line)) s
        (.error (ck.locate (.recursiveCall c.function) c.text line), s)
  | unknown {ck scope stack c line s} (idle : c.function ∉ stack)
      (missing : ck.functions.get? c.function = none) :
      Runs ck scope stack (.one (.call c line)) s
        (.error (ck.locate (.undefinedFunction c.function) c.text line), s)
  | refused {ck scope stack c line f s e s'} (idle : c.function ∉ stack)
      (known : ck.functions.get? c.function = some f)
      (frame : prepare ck scope c f (ck.locate · c.text line) s = (.error e, s')) :
      Runs ck scope stack (.one (.call c line)) s (.error e, s')
  | failed {ck scope stack c line f s frame s₁ e s₂} (idle : c.function ∉ stack)
      (known : ck.functions.get? c.function = some f)
      (ready : prepare ck scope c f (ck.locate · c.text line) s = (.ok frame, s₁))
      (inner : Runs (ck.enter c.function) frame.scope (c.function :: stack) (.all frame.body) s₁
        (.error e, s₂)) :
      Runs ck scope stack (.one (.call c line)) s (.error e, s₂)
  | returned {ck scope stack c line f s frame s₁ s₂} (idle : c.function ∉ stack)
      (known : ck.functions.get? c.function = some f)
      (ready : prepare ck scope c f (ck.locate · c.text line) s = (.ok frame, s₁))
      (inner : Runs (ck.enter c.function) frame.scope (c.function :: stack) (.all frame.body) s₁
        (.ok (), s₂)) :
      Runs ck scope stack (.one (.call c line)) s
        (finish c f frame.scope.store (ck.locate · c.text line) s₂)

/-- The task as it is computed, with a number of functions that may still be entered. -/
def Task.run (depth : Nat) (ck : Checker) (scope : Scope) (stack : List String) : Task → Run
  | all cs => executeAll ck (invoke depth ck scope stack) cs
  | one c => execute ck (invoke depth ck scope stack) c
  | loop chain body line n =>
    Execution.loop chain.evaluate (loopError ck chain line) (exceeded ck chain)
      (executeAll ck (invoke depth ck scope stack) body) (limit ck - n)

def Task.rounds : Task → Nat
  | loop _ _ _ n => n
  | _ => 0

/-! ### The stack -/

/-- What holds of the names of the functions that are running. -/
structure Stacked (ck : Checker) (stack : List String) : Prop where
  distinct : stack.Nodup
  registered : ∀ name ∈ stack, ck.functions.contains name = true

namespace Stacked

variable {ck : Checker} {stack : List String}

theorem nil (ck : Checker) : Stacked ck [] :=
  ⟨List.nodup_nil, fun _ h => absurd h List.not_mem_nil⟩

theorem push (h : Stacked ck stack) {name : String} {f : UserFunction} (hIdle : name ∉ stack)
    (hSome : ck.functions.get? name = some f) : Stacked (ck.enter name) (name :: stack) := by
  refine ⟨List.nodup_cons.mpr ⟨hIdle, h.distinct⟩, fun other hOther => ?_⟩
  rcases List.mem_cons.mp hOther with rfl | hOther
  · change (ck.functions.get? other).isSome = true
    rw [hSome]
    rfl
  · exact h.registered other hOther

/-- No more functions are running than there are. -/
theorem length_le (h : Stacked ck stack) : stack.length ≤ ck.functions.size := by
  have hKeys : stack ⊆ ck.functions.keys := by
    intro name hName
    obtain ⟨f, hf⟩ := Option.isSome_iff_exists.mp (h.registered name hName)
    exact List.mem_map.mpr ⟨(name, f), Table.mem_of_get? hf, rfl⟩
  have hLength := (h.distinct.subperm hKeys).length_le
  rwa [Table.keys, List.length_map] at hLength

end Stacked

/-! ### There is one run -/

section

variable {holds : Registry → Except CommandError Bool} {locate : CommandError → ValidationError}
  {late : CommandError} {body : Run} {s s' : RunState}

theorem loop_of_error {e : CommandError} (h : holds s.registry = .error e) (n : Nat) :
    loop holds locate late body n s = (.error (locate e), s) := by
  cases n <;> rw [loop, h]

theorem loop_of_false (h : holds s.registry = .ok false) (n : Nat) :
    loop holds locate late body n s = (.ok (), s) := by
  cases n <;> rw [loop, h]

theorem loop_zero_of_true (h : holds s.registry = .ok true) :
    loop holds locate late body 0 s = (.error (locate late), s) := by
  rw [loop, h]

theorem loop_succ_of_fail {e : ValidationError} (h : holds s.registry = .ok true)
    (hBody : body s = (.error e, s')) (n : Nat) :
    loop holds locate late body (n + 1) s = (.error e, s') := by
  rw [loop, h]
  dsimp only
  rw [hBody]

theorem loop_succ_of_ok (h : holds s.registry = .ok true) (hBody : body s = (.ok (), s')) (n : Nat) :
    loop holds locate late body (n + 1) s = loop holds locate late body n s' := by
  rw [loop, h]
  dsimp only
  rw [hBody]

end

section

variable {ck : Checker} {scope : Scope} {stack : List String}

/-- A loop goes through its body as the rules say, if the body is run as they say. -/
theorem runs_loop {chain : Chain} {body : List Command} {line : Option Nat} {run : Run}
    (hBody : ∀ s, Runs ck scope stack (.all body) s (run s)) {n m : Nat} (hn : n + m = limit ck)
    (s : RunState) :
    Runs ck scope stack (.loop chain body line n) s
      (loop chain.evaluate (loopError ck chain line) (exceeded ck chain) run m s) := by
  induction m using Nat.strongRecOn generalizing n s with
  | ind m ih =>
    cases hHolds : chain.evaluate s.registry with
    | error e =>
      rw [loop_of_error hHolds]
      exact .loopUndecided hHolds
    | ok holds =>
      cases holds with
      | false =>
        rw [loop_of_false hHolds]
        exact .loopDone hHolds
      | true =>
        cases m with
        | zero =>
          rw [loop_zero_of_true hHolds]
          exact .loopExceeded hHolds hn
        | succ m =>
          have hMore : n ≠ limit ck := by omega
          have hInner := hBody s
          rcases hRun : run s with ⟨x, s'⟩
          rw [hRun] at hInner
          cases x with
          | error e =>
            rw [loop_succ_of_fail hHolds hRun]
            exact .loopFailed hHolds hMore hInner
          | ok _ =>
            rw [loop_succ_of_ok hHolds hRun]
            exact .loopNext hHolds hMore hInner (ih m (Nat.lt_succ_self m) (by omega) s')

/-- Calls are run as the rules say. -/
structure RunsCalls (ck : Checker) (scope : Scope) (stack : List String)
    (onCall : Call → (CommandError → ValidationError) → Run) : Prop where
  call : ∀ c line s, Runs ck scope stack (.one (.call c line)) s (onCall c (ck.locate · c.text line) s)

variable {onCall : Call → (CommandError → ValidationError) → Run}

mutual

theorem runs_execute (hCall : RunsCalls ck scope stack onCall) (c : Command) (s : RunState) :
    Runs ck scope stack (.one c) s (execute ck onCall c s) := by
  cases c with
  | assignment a line =>
    rw [execute]
    exact .assignment
  | branch kind chain body otherwise line =>
    cases kind with
    | ifThen =>
      rw [execute]
      cases hHolds : chain.evaluate s.registry with
      | error e => exact .undecided hHolds
      | ok holds =>
        cases holds with
        | false => exact .passed hHolds (runs_executeAll hCall otherwise s)
        | true => exact .taken hHolds (runs_executeAll hCall body s)
    | whileLoop =>
      rw [execute]
      exact .repeated (runs_loop (runs_executeAll hCall body) (Nat.zero_add _) s)
  | report c line =>
    rw [execute]
    exact .report
  | propagate c line =>
    rw [execute]
    exact .propagate
  | call c line =>
    rw [execute]
    exact hCall.call c line s

theorem runs_executeAll (hCall : RunsCalls ck scope stack onCall) (cs : List Command) (s : RunState) :
    Runs ck scope stack (.all cs) s (executeAll ck onCall cs s) := by
  cases cs with
  | nil =>
    rw [executeAll]
    exact .nil
  | cons c rest =>
    have hFirst := runs_execute hCall c s
    rw [executeAll]
    rcases hRun : execute ck onCall c s with ⟨x, s'⟩
    rw [hRun] at hFirst
    cases x with
    | error e => exact .stop hFirst
    | ok _ => exact .next hFirst (runs_executeAll hCall rest s')

end

end

theorem invoke_of_mem (h : c.function ∈ stack) (locate : CommandError → ValidationError) (s : RunState) :
    invoke depth ck scope stack c locate s = (.error (locate (.recursiveCall c.function)), s) := by
  have hContains : stack.contains c.function = true := by simpa using h
  unfold invoke
  exact if_pos hContains

theorem invoke_of_none (hIdle : c.function ∉ stack) (h : ck.functions.get? c.function = none)
    (locate : CommandError → ValidationError) (s : RunState) :
    invoke depth ck scope stack c locate s = (.error (locate (.undefinedFunction c.function)), s) := by
  have hContains : ¬ stack.contains c.function = true := by simpa using hIdle
  unfold invoke
  dsimp only
  rw [if_neg hContains, h]

theorem invoke_succ (hIdle : c.function ∉ stack) (h : ck.functions.get? c.function = some f)
    (locate : CommandError → ValidationError) (s : RunState) :
    invoke (depth + 1) ck scope stack c locate s =
      match prepare ck scope c f locate s with
      | (.error e, s) => (.error e, s)
      | (.ok frame, s) =>
        match Task.run depth (ck.enter c.function) frame.scope (c.function :: stack) (.all frame.body) s with
        | (.error e, s) => (.error e, s)
        | (.ok (), s) => finish c f frame.scope.store locate s := by
  have hContains : ¬ stack.contains c.function = true := by simpa using hIdle
  unfold invoke
  dsimp only
  rw [if_neg hContains, h]
  rfl

/-- Where a function can be called, some are not running, so one may still be entered. -/
theorem Stacked.exists_depth (h : Stacked ck stack) {name : String}
    (hDepth : ck.functions.size ≤ depth + stack.length) (hIdle : name ∉ stack)
    (hKnown : ck.functions.get? name = some f) :
    ∃ d, depth = d + 1 ∧ (ck.enter name).functions.size ≤ d + (name :: stack).length := by
  have hLength : stack.length + 1 ≤ ck.functions.size := (h.push hIdle hKnown).length_le
  refine ⟨depth - 1, by omega, ?_⟩
  change ck.functions.size ≤ depth - 1 + (stack.length + 1)
  omega

theorem runsCalls_invoke (hStack : Stacked ck stack) (hDepth : ck.functions.size ≤ depth + stack.length) :
    RunsCalls ck scope stack (invoke depth ck scope stack) := by
  induction depth using Nat.strongRecOn generalizing ck scope stack with
  | ind depth ih =>
    refine ⟨fun c line s => ?_⟩
    by_cases hRunning : c.function ∈ stack
    · rw [invoke_of_mem hRunning]
      exact .recursive hRunning
    · cases hKnown : ck.functions.get? c.function with
      | none =>
        rw [invoke_of_none hRunning hKnown]
        exact .unknown hRunning hKnown
      | some f =>
        obtain ⟨depth, rfl, hSize⟩ := hStack.exists_depth hDepth hRunning hKnown
        rw [invoke_succ hRunning hKnown]
        rcases hReady : prepare ck scope c f (ck.locate · c.text line) s with ⟨x, s₁⟩
        cases x with
        | error e => exact .refused hRunning hKnown hReady
        | ok frame =>
          have hCalls : RunsCalls (ck.enter c.function) frame.scope (c.function :: stack)
              (invoke depth (ck.enter c.function) frame.scope (c.function :: stack)) :=
            ih depth (Nat.lt_succ_self depth) (hStack.push hRunning hKnown) hSize
          have hInner := runs_executeAll hCalls frame.body s₁
          dsimp only [Task.run]
          rcases hRun : executeAll (ck.enter c.function)
            (invoke depth (ck.enter c.function) frame.scope (c.function :: stack)) frame.body s₁
            with ⟨y, s₂⟩
          rw [hRun] at hInner
          cases y with
          | error e => exact .failed hRunning hKnown hReady hInner
          | ok _ => exact .returned hRunning hKnown hReady hInner

/-- What is computed is a run. -/
theorem runs_run (hStack : Stacked ck stack) (hDepth : ck.functions.size ≤ depth + stack.length) {t : Task}
    (hRounds : t.rounds ≤ limit ck) (s : RunState) :
    Runs ck scope stack t s (t.run depth ck scope stack s) := by
  have hCall : RunsCalls ck scope stack (invoke depth ck scope stack) := runsCalls_invoke hStack hDepth
  cases t with
  | all cs => exact runs_executeAll hCall cs s
  | one c => exact runs_execute hCall c s
  | loop chain body line n => exact runs_loop (runs_executeAll hCall body) (Nat.add_sub_cancel' hRounds) s

/-- There is no other run than what is computed. -/
theorem Runs.eq_run {t : Task} {s : RunState} {out : Except ValidationError Unit × RunState}
    (h : Runs ck scope stack t s out) (hStack : Stacked ck stack) (hRounds : t.rounds ≤ limit ck)
    (hDepth : ck.functions.size ≤ depth + stack.length) : out = t.run depth ck scope stack s := by
  induction h generalizing depth with
  | nil => rw [Task.run, executeAll]
  | stop first ih =>
    have hFirst : _ = execute _ (invoke depth _ _ _) _ _ := ih hStack (Nat.zero_le _) hDepth
    rw [Task.run, executeAll, ← hFirst]
  | next first others ihFirst ihOthers =>
    have hFirst : _ = execute _ (invoke depth _ _ _) _ _ := ihFirst hStack (Nat.zero_le _) hDepth
    rw [Task.run, executeAll, ← hFirst]
    exact ihOthers hStack (Nat.zero_le _) hDepth
  | assignment | report | propagate => rw [Task.run, execute]
  | undecided holds => rw [Task.run, execute, holds]
  | taken holds inner ih | passed holds inner ih =>
    rw [Task.run, execute, holds]
    exact ih hStack (Nat.zero_le _) hDepth
  | repeated rounds ih =>
    rw [Task.run, execute]
    exact ih hStack (Nat.zero_le _) hDepth
  | loopUndecided holds => rw [Task.run, loop_of_error holds]
  | loopDone holds => rw [Task.run, loop_of_false holds]
  | loopExceeded holds last =>
    subst last
    rw [Task.run, Nat.sub_self, loop_zero_of_true holds]
  | @loopFailed ck _ _ _ _ _ n _ _ _ holds more inner ih =>
    have hInner : _ = executeAll _ (invoke depth _ _ _) _ _ := ih hStack (Nat.zero_le _) hDepth
    have hBudget : limit ck - n = limit ck - (n + 1) + 1 := by
      change n ≤ limit ck at hRounds
      omega
    rw [Task.run, hBudget, loop_succ_of_fail holds hInner.symm]
  | @loopNext ck _ _ _ _ _ n _ _ _ holds more inner others ihInner ihOthers =>
    have hInner : _ = executeAll _ (invoke depth _ _ _) _ _ := ihInner hStack (Nat.zero_le _) hDepth
    have hLess : n < limit ck := Nat.lt_of_le_of_ne hRounds more
    have hBudget : limit ck - n = limit ck - (n + 1) + 1 := by omega
    rw [Task.run, hBudget, loop_succ_of_ok holds hInner.symm]
    exact ihOthers hStack hLess hDepth
  | recursive running => rw [Task.run, execute, invoke_of_mem running]
  | unknown idle missing => rw [Task.run, execute, invoke_of_none idle missing]
  | refused idle known frame =>
    obtain ⟨d, rfl, -⟩ := hStack.exists_depth hDepth idle known
    rw [Task.run, execute, invoke_succ idle known, frame]
  | failed idle known ready inner ih | returned idle known ready inner ih =>
    obtain ⟨d, rfl, hSize⟩ := hStack.exists_depth hDepth idle known
    have hInner := ih (hStack.push idle known) (Nat.zero_le _) hSize
    rw [Task.run, execute, invoke_succ idle known, ready]
    dsimp only
    rw [← hInner]

/-! ### Positions of a run -/

/-- Where a run stands: what is to be run in which state and scope, and which functions are running. -/
structure Position where
  checker : Checker
  scope : Scope
  stack : List String
  task : Task
  state : RunState

namespace Position

/-- The second position is the next one of a run inside the first or after a part of it. -/
inductive Leads : Position → Position → Prop
  | first {ck scope stack c rest s} :
      Leads ⟨ck, scope, stack, .all (c :: rest), s⟩ ⟨ck, scope, stack, .one c, s⟩
  | next {ck scope stack c rest s s'} (first : Runs ck scope stack (.one c) s (.ok (), s')) :
      Leads ⟨ck, scope, stack, .all (c :: rest), s⟩ ⟨ck, scope, stack, .all rest, s'⟩
  | taken {ck scope stack chain body otherwise line s} (holds : chain.evaluate s.registry = .ok true) :
      Leads ⟨ck, scope, stack, .one (.branch .ifThen chain body otherwise line), s⟩
        ⟨ck, scope, stack, .all body, s⟩
  | passed {ck scope stack chain body otherwise line s} (holds : chain.evaluate s.registry = .ok false) :
      Leads ⟨ck, scope, stack, .one (.branch .ifThen chain body otherwise line), s⟩
        ⟨ck, scope, stack, .all otherwise, s⟩
  | repeated {ck scope stack chain body otherwise line s} :
      Leads ⟨ck, scope, stack, .one (.branch .whileLoop chain body otherwise line), s⟩
        ⟨ck, scope, stack, .loop chain body line 0, s⟩
  | round {ck scope stack chain body line n s} (holds : chain.evaluate s.registry = .ok true)
      (more : n ≠ limit ck) :
      Leads ⟨ck, scope, stack, .loop chain body line n, s⟩ ⟨ck, scope, stack, .all body, s⟩
  | again {ck scope stack chain body line n s s'} (holds : chain.evaluate s.registry = .ok true)
      (more : n ≠ limit ck) (inner : Runs ck scope stack (.all body) s (.ok (), s')) :
      Leads ⟨ck, scope, stack, .loop chain body line n, s⟩
        ⟨ck, scope, stack, .loop chain body line (n + 1), s'⟩
  | called {ck scope stack c line f s frame s₁} (idle : c.function ∉ stack)
      (known : ck.functions.get? c.function = some f)
      (ready : prepare ck scope c f (ck.locate · c.text line) s = (.ok frame, s₁)) :
      Leads ⟨ck, scope, stack, .one (.call c line), s⟩
        ⟨ck.enter c.function, frame.scope, c.function :: stack, .all frame.body, s₁⟩

/-- What every position of a run keeps to. -/
structure Bounded (ck : Checker) (p : Position) : Prop where
  functions : p.checker.functions = ck.functions
  limit : limit p.checker = limit ck
  stacked : Stacked p.checker p.stack
  rounds : p.task.rounds ≤ Execution.limit p.checker

variable {ck : Checker} {p q : Position}

theorem Leads.bounded (h : p.Leads q) (hp : p.Bounded ck) : q.Bounded ck := by
  cases h with
  | again holds more inner =>
    exact ⟨hp.functions, hp.limit, hp.stacked, Nat.lt_of_le_of_ne hp.rounds more⟩
  | called idle known ready =>
    exact ⟨hp.functions, hp.limit, hp.stacked.push idle known, Nat.zero_le _⟩
  | _ => exact ⟨hp.functions, hp.limit, hp.stacked, Nat.zero_le _⟩

theorem bounded_of_reaches (h : Relation.ReflTransGen Leads p q) (hp : p.Bounded ck) : q.Bounded ck := by
  induction h with
  | refl => exact hp
  | tail _ hLast ih => exact hLast.bounded ih

/-- How much there is to run, apart from calls and from the rounds of a loop. It grows with the number of
commands, and with the steps that lead from commands to one of them and from a loop to its body. -/
def weight : Task → Nat
  | .all cs => 3 * (Command.preorderAll cs).length + 1
  | .one c => 3 * c.preorder.length
  | .loop _ body _ _ => 3 * (Command.preorderAll body).length + 2

/-- The functions that are not running, the weight of the task, and the rounds left to a loop. -/
def remaining (p : Position) : Nat × Nat × Nat :=
  (p.checker.functions.size - p.stack.length, weight p.task, limit p.checker - p.task.rounds)

theorem Leads.remaining_lt (h : p.Leads q) (hp : p.Bounded ck) :
    Prod.Lex (· < ·) (Prod.Lex (· < ·) (· < ·)) q.remaining p.remaining := by
  cases h with
  | @first _ _ _ c rest _ =>
    refine .right _ (.left _ _ ?_)
    simp only [weight, Command.preorderAll, List.length_append]
    omega
  | @next _ _ _ c rest _ _ first =>
    have hFirst := c.length_preorder_pos
    refine .right _ (.left _ _ ?_)
    simp only [weight, Command.preorderAll, List.length_append]
    omega
  | taken holds | passed holds | repeated =>
    refine .right _ (.left _ _ ?_)
    simp only [weight, Command.preorder, List.length_cons, List.length_append]
    omega
  | round holds more => exact .right _ (.left _ _ (Nat.lt_succ_self _))
  | @again ck' _ _ _ _ _ n _ _ holds more inner =>
    refine .right _ (.right _ ?_)
    have hLess : n < Execution.limit ck' := Nat.lt_of_le_of_ne hp.rounds more
    change Execution.limit ck' - (n + 1) < Execution.limit ck' - n
    omega
  | @called ck' _ stack c _ _ _ _ _ idle known ready =>
    refine .left _ _ ?_
    have hLength : stack.length + 1 ≤ ck'.functions.size := (hp.stacked.push idle known).length_le
    change ck'.functions.size - (stack.length + 1) < ck'.functions.size - stack.length
    omega

/-- No run goes on forever. -/
theorem acc_of_bounded (hp : p.Bounded ck) : Acc (fun q p : Position => p.Leads q) p := by
  have hLex := (Prod.lex Nat.lt_wfRel (Prod.lex Nat.lt_wfRel Nat.lt_wfRel)).wf
  induction p using (InvImage.wf remaining hLex).induction with
  | h p ih => exact Acc.intro p fun q hq => ih q (hq.remaining_lt hp) (hq.bounded hp)

end Position

/-- Every run of a script terminates, whatever its functions, commands, objects and settings are.
There is exactly one run, it is the one that is computed, and no sequence of positions in it goes on
forever. At every position the functions that are running are different from each other and known,
so calls are nested at most as deep as there are functions, and no loop has gone through its body
more often than it may. -/
theorem run_terminates (ck : Checker) (scope : Scope) (commands : List Command) (s : RunState) :
    (∀ out, Runs ck scope [] (.all commands) s out ↔ out = runAll ck scope commands s) ∧
    Acc (fun q p : Position => p.Leads q) ⟨ck, scope, [], .all commands, s⟩ ∧
    ∀ p, Relation.ReflTransGen Position.Leads ⟨ck, scope, [], .all commands, s⟩ p →
      p.stack.Nodup ∧ (∀ name ∈ p.stack, ck.functions.contains name = true) ∧
      p.stack.length ≤ ck.functions.size ∧ p.task.rounds ≤ limit ck := by
  have hStart : Position.Bounded ck ⟨ck, scope, [], .all commands, s⟩ :=
    ⟨rfl, rfl, .nil ck, Nat.zero_le _⟩
  have hDepth : ck.functions.size ≤ ck.functions.size + ([] : List String).length := Nat.le_refl _
  refine ⟨fun out => ⟨fun h => ?_, ?_⟩, Position.acc_of_bounded hStart, fun p hp => ?_⟩
  · exact h.eq_run (.nil ck) (Nat.zero_le _) hDepth
  · rintro rfl
    exact runs_run (.nil ck) hDepth (t := .all commands) (Nat.zero_le _) s
  · have hBounded := Position.bounded_of_reaches hp hStart
    have hLength := hBounded.stacked.length_le
    have hRegistered := hBounded.stacked.registered
    rw [hBounded.functions] at hLength
    simp only [hBounded.functions] at hRegistered
    exact ⟨hBounded.stacked.distinct, hRegistered, hLength, hBounded.limit ▸ hBounded.rounds⟩

/-- The position inside the function that the first command calls, if it can be called. -/
def Position.inside? (p : Position) : Option Position :=
  match p.task with
  | .all (.call c line :: _) =>
    if c.function ∈ p.stack then none
    else
      match p.checker.functions.get? c.function with
      | none => none
      | some f =>
        match prepare p.checker p.scope c f (p.checker.locate · c.text line) p.state with
        | (.ok frame, s) =>
          some ⟨p.checker.enter c.function, frame.scope, c.function :: p.stack, .all frame.body, s⟩
        | (.error _, _) => none
  | _ => none

theorem Position.reaches_inside {p q : Position} (h : p.inside? = some q) :
    Relation.ReflTransGen Leads p q := by
  obtain ⟨ck, scope, stack, task, s⟩ := p
  unfold inside? at h
  split at h
  · next c line rest hTask =>
      obtain rfl : task = .all (.call c line :: rest) := hTask
      split at h
      · cases h
      · next hIdle =>
          split at h
          · cases h
          · next f hKnown =>
              split at h
              · next frame s₁ hReady =>
                  cases h
                  exact .tail (.single .first) (.called hIdle hKnown hReady)
              · cases h
  · cases h

/-- Two functions that call each other, and the call of one of them. -/
def mutualCalls : Position :=
  let calling (name callee : String) : String × UserFunction :=
    (name, { name, inputs := [], outputs := [], body := [.call (.make callee [] []) none] })
  { checker := { functions := ⟨[calling "A" "B", calling "B" "A"]⟩ }
    scope := { store := {} }
    stack := []
    task := .all [.call (.make "A" [] []) none]
    state := { registry := {} } }

/-- Both functions are running when the first is called again, and the run fails there. -/
theorem run_terminates_mutual_calls :
    (∃ p, Relation.ReflTransGen Position.Leads mutualCalls p ∧ p.stack = ["B", "A"] ∧ p.stack.Nodup ∧
      p.stack.length ≤ mutualCalls.checker.functions.size) ∧
    ∃ e s, Runs mutualCalls.checker mutualCalls.scope [] mutualCalls.task mutualCalls.state
    (.error e, s) := by
  have hInside : (mutualCalls.inside?.bind Position.inside?).map Position.stack = some ["B", "A"] := by
    decide +kernel
  have hFails : (runAll mutualCalls.checker mutualCalls.scope [.call (.make "A" [] []) none]
      mutualCalls.state).1.isOk = false := by decide +kernel
  obtain ⟨hRuns, -, hBounds⟩ := run_terminates mutualCalls.checker mutualCalls.scope
    [.call (.make "A" [] []) none] mutualCalls.state
  constructor
  · obtain ⟨p, hp, hStack⟩ := Option.map_eq_some_iff.mp hInside
    obtain ⟨q, hq, hp⟩ := Option.bind_eq_some_iff.mp hp
    have hReach := (Position.reaches_inside hq).trans (Position.reaches_inside hp)
    obtain ⟨hNodup, -, hLength, -⟩ := hBounds p hReach
    exact ⟨p, hReach, hStack, hNodup, hLength⟩
  · rcases hRun : runAll mutualCalls.checker mutualCalls.scope [.call (.make "A" [] []) none]
      mutualCalls.state with ⟨x, s⟩
    rw [hRun] at hFails
    cases x with
    | ok _ => cases hFails
    | error e => exact ⟨e, s, (hRuns (.error e, s)).mpr hRun.symm⟩

end Mission.Execution
