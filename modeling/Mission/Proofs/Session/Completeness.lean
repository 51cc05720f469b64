import Mission.Proofs.Checking.Completeness
import Mission.Proofs.Execution.Readiness
import Mission.Proofs.Execution.Termination
import Mission.Proofs.Session.Binding

/-! Running a script that has been checked. Accessors and conditions are what a check prepares, and
a command that was complete when it was checked never fails for want of them. A check accepts
incomplete commands too: branches with too few or too many operators between their conditions,
assignments without a right-hand side, and calls with empty arguments. Those are the only commands
that can fail in this way, and none of them ever succeeds. -/
namespace Mission

open Outcome List Call Command Assignment

namespace Command

/-- Whether the command lacks a part that no accessor can stand in for. -/
def isIncomplete : Command → Bool
  | assignment a _ => !a.isEquation && a.rhs.isEmpty
  | branch _ chain _ _ _ => !chain.isBalanced
  | report _ _ | propagate _ _ => false
  | call c _ => c.slots.any fun slot => slot.name.isEmpty

/-- The command has what running it asks for. -/
def Ready : Command → Prop
  | assignment a _ => a.Ready
  | branch _ chain _ _ _ =>
    chain.isBalanced = true ∧ ∀ c ∈ chain.conditions, Accessor.Held c.left ∧ Accessor.Held c.right
  | report c _ => ∀ slot ∈ c.slots, Accessor.Held slot.accessor
  | propagate _ _ => True
  | call c _ => ∀ slot ∈ c.slots, Accessor.Held slot.accessor

theorem held_of_isSome {place : Option Accessor} {accessors : List Accessor}
    (hBound : ∀ a ∈ accessors, a.isBound = true) (hMem : ∀ a, place = some a → a ∈ accessors)
    (h : place.isSome = true) : Accessor.Held place := by
  obtain ⟨a, ha⟩ := Option.isSome_iff_exists.mp h
  exact ⟨a, ha, hBound a (hMem a ha)⟩

/-- A complete command that has its accessors is ready. -/
theorem Filled.ready {c : Command} (h : c.Filled) (hBound : ∀ a ∈ c.accessors, a.isBound = true)
    (hComplete : c.isIncomplete = false) : c.Ready := by
  have hSlots : ∀ {slots : List Slot}, c.accessors = Slot.accessors slots →
      (∀ slot ∈ slots, slot.accessor.isSome = true) → ∀ slot ∈ slots, Accessor.Held slot.accessor := by
    intro slots hSame hSome slot hSlot
    refine held_of_isSome hBound (fun a ha => ?_) (hSome slot hSlot)
    rw [hSame]
    exact mem_flatMap.mpr ⟨slot, hSlot, Option.mem_toList.mpr ha⟩
  cases c with
  | assignment a line =>
    refine ⟨?_, fun hSingle => ?_, fun f hFormula name hName => ?_⟩
    · exact held_of_isSome hBound (fun x hx => mem_accessors.mpr (.inl hx)) h.target
    · have hText : a.rhs.isEmpty = false := by simpa [isIncomplete, hSingle] using hComplete
      refine held_of_isSome hBound (fun x hx => mem_accessors.mpr (.inr (.inl hx))) ?_
      exact (h.single hSingle).mpr hText
    · obtain ⟨x, hx⟩ := h.leaves f hFormula name (Expr.mem_elements.mpr hName)
      refine ⟨x, hx, hBound x (mem_accessors.mpr (.inr (.inr ?_)))⟩
      exact Equation.mem_accessors.mpr (mem_map.mpr ⟨_, Table.mem_of_get? hx, rfl⟩)
  | branch kind chain body otherwise line =>
    refine ⟨by simpa [isIncomplete] using hComplete, fun c hc => ⟨?_, ?_⟩⟩
    · refine held_of_isSome hBound (fun a ha => ?_) ((h c.lhs c.left ?_).mpr rfl)
      · exact mem_flatMap.mpr ⟨c, hc, by simp [Condition.accessors, ha]⟩
      · exact mem_flatMap.mpr ⟨c, hc, by simp⟩
    · refine held_of_isSome hBound (fun a ha => ?_) ((h c.rhs c.right ?_).mpr rfl)
      · exact mem_flatMap.mpr ⟨c, hc, by simp [Condition.accessors, ha]⟩
      · exact mem_flatMap.mpr ⟨c, hc, by simp⟩
  | report c line =>
    refine hSlots rfl fun slot hSlot => (h slot.name slot.accessor ?_).mpr rfl
    exact mem_map.mpr ⟨slot, hSlot, rfl⟩
  | propagate c line => trivial
  | call c line =>
    refine hSlots rfl fun slot hSlot => (h slot.name slot.accessor ?_).mpr ?_
    · exact mem_map.mpr ⟨slot, hSlot, rfl⟩
    · have hNamed := any_eq_false.mp hComplete slot hSlot
      exact Bool.eq_false_iff.mpr hNamed

theorem text_ifThen (chain : Chain) (body otherwise : List Command) (line : Option Nat) :
    (branch .ifThen chain body otherwise line).text = s!"If {chain.text}" :=
  rfl

theorem text_whileLoop (chain : Chain) (body otherwise : List Command) (line : Option Nat) :
    (branch .whileLoop chain body otherwise line).text = s!"While {chain.text}" :=
  rfl

end Command

namespace Execution

variable {ck : Checker} {scope : Scope} {stack : List String} {s : RunState}
variable {e error : ValidationError} {text function : String} {line : Option Nat}
  {marked : String → Option Nat → Prop}
  {c : Call} {pairs : List (String × Slot)} {r : Registry}

/-! ### Where a run breaks off -/

/-- What there is to run is ready, or stands at one of the marked places. -/
def Task.Covered (marked : String → Option Nat → Prop) : Task → Prop
  | all cs => ∀ c, Command.Occurs c cs → c.Ready ∨ marked c.text c.line
  | one c => ∀ d, Command.Occurs d [c] → d.Ready ∨ marked d.text d.line
  | loop chain body line _ =>
    ((Command.branch .whileLoop chain body [] line).Ready ∨ marked s!"While {chain.text}" line) ∧
      ∀ c, Command.Occurs c body → c.Ready ∨ marked c.text c.line

/-- An error in a command of the script itself, and not of a function, is what its cause is. -/
theorem breaks_of_locate {e : CommandError} (h : ck.locate e text line = error)
    (hBreaks : error.cause.breaksInvariant = true) :
    ck.within = none ∧ e.breaksInvariant = true ∧ error.text = text ∧ error.line = line := by
  subst h
  unfold Checker.locate at hBreaks ⊢
  cases hWithin : ck.within with
  | none =>
    rw [hWithin] at hBreaks
    exact ⟨rfl, hBreaks, rfl, rfl⟩
  | some function =>
    rw [hWithin] at hBreaks
    cases hBreaks

/-- A failure that a ready command cannot have marks the place of the command. -/
theorem marked_of_locate {α : Type} {ready : Prop} (h : ready ∨ marked text line) {x : Except CommandError α}
    (hExcludes : ready → Excludes CommandError.breaksInvariant x) {e : CommandError} (hx : x = .error e)
    (hError : ck.locate e text line = error) (hBreaks : error.cause.breaksInvariant = true) :
    ck.within = none ∧ marked error.text error.line := by
  obtain ⟨hWithin, hCause, hText, hLine⟩ := breaks_of_locate hError hBreaks
  refine ⟨hWithin, ?_⟩
  rw [hText, hLine]
  refine h.resolve_left fun hReady => ?_
  have hNot := hExcludes hReady e hx
  rw [hCause] at hNot
  cases hNot

/-- The body of a function is checked as part of the function. -/
theorem enclosed_of_validateAll {cs cs' : List Command} {c c' : CheckState}
    (h : (ck.enter function).validateAll cs c = (.error e, cs', c')) : e.cause.breaksInvariant = false := by
  obtain ⟨refused, collected, hAgrees, -, hRefuses⟩ := (ck.enter function).validateAll_agrees cs c
  have hSelf : (ck.enter function).collecting false = ck.enter function := rfl
  rw [hSelf, h] at hAgrees
  cases hRefuses with
  | nil =>
    have hSame := hAgrees.clean rfl
    have hVerdict := hAgrees.verdict
    rw [← hSame] at hVerdict
    cases hVerdict
  | cons hFirst _ =>
    have hError := (hAgrees.first rfl).1
    cases hError
    obtain ⟨w, cause, -, rfl⟩ := hFirst
    rfl

/-- A call that cannot be prepared has lacked an argument, or the body of the function is at fault. -/
theorem marked_of_prepare (h : (call c line).Ready ∨ marked c.text line) {f : UserFunction} {s' : RunState}
    (hPrepare : prepare ck scope c f (ck.locate · c.text line) s = (.error e, s'))
    (hBreaks : e.cause.breaksInvariant = true) : ck.within = none ∧ marked e.text e.line := by
  unfold prepare at hPrepare
  split at hPrepare
  · next error hStore =>
      cases hPrepare
      refine marked_of_locate h (fun hReady => ?_) hStore rfl hBreaks
      exact excludes_localStore (fun slot hSlot => hReady slot (mem_append_left _ hSlot)) f
  · rcases hCheck : (ck.enter c.function).validateAll f.body _ with ⟨x, body, checked⟩
    dsimp only at hPrepare
    rw [hCheck] at hPrepare
    cases x with
    | error e' =>
      cases hPrepare
      rw [enclosed_of_validateAll hCheck] at hBreaks
      cases hBreaks
    | ok _ => cases hPrepare

/-- A run breaks off for want of what a check prepares only in the script itself, and only at a marked
place. -/
theorem Runs.breaks_at {task : Task} {out : Except ValidationError Unit × RunState}
    (h : Runs ck scope stack task s out) (hCovered : task.Covered marked) (hError : out.1 = .error e)
    (hBreaks : e.cause.breaksInvariant = true) : ck.within = none ∧ marked e.text e.line := by
  induction h generalizing marked with
  | nil => cases hError
  | stop _ ih => exact ih (fun d hd => hCovered d (occurs_append.mpr (.inl hd))) hError
  | next _ _ _ ih => exact ih (fun d hd => hCovered d (.later hd)) hError
  | assignment =>
    unfold runAssignment at hError
    split at hError
    · cases hError
    · next e' hRun =>
        cases hError
        exact marked_of_locate (hCovered _ .here) excludes_execute hRun rfl hBreaks
  | report =>
    unfold runReport at hError
    split at hError
    · cases hError
    · next e' hRun =>
        cases hError
        exact marked_of_locate (hCovered _ .here) Report.excludes_reportLine hRun rfl hBreaks
  | propagate => cases hError
  | undecided holds =>
    cases hError
    have hOwn := hCovered _ .here
    rw [text_ifThen] at hOwn
    exact marked_of_locate hOwn (fun hReady => Chain.excludes_evaluate hReady.1 hReady.2) holds rfl hBreaks
  | taken _ _ ih =>
    exact ih (fun d hd => hCovered d (.inside (occurs_append.mpr (.inl hd)))) hError
  | passed _ _ ih =>
    exact ih (fun d hd => hCovered d (.inside (occurs_append.mpr (.inr hd)))) hError
  | repeated _ ih =>
    have hOwn := hCovered _ .here
    rw [text_whileLoop] at hOwn
    refine ih ⟨hOwn, fun d hd => ?_⟩ hError
    exact hCovered d (.inside (occurs_append.mpr (.inl hd)))
  | loopUndecided holds =>
    cases hError
    refine marked_of_locate hCovered.1 (fun hReady => ?_) holds rfl hBreaks
    exact Chain.excludes_evaluate hReady.1 hReady.2
  | loopDone _ => cases hError
  | loopExceeded _ _ =>
    cases hError
    cases (breaks_of_locate rfl hBreaks).2.1
  | loopFailed _ _ _ ih => exact ih hCovered.2 hError
  | loopNext _ _ _ _ _ ih => exact ih hCovered hError
  | recursive _ | unknown _ _ =>
    cases hError
    cases (breaks_of_locate rfl hBreaks).2.1
  | refused _ _ frame =>
    cases hError
    exact marked_of_prepare (hCovered _ .here) frame hBreaks
  | @failed _ _ _ _ _ _ _ frame _ _ _ _ _ _ _ ih =>
    -- The errors of a function are located in the function, so no place needs to be marked there.
    have hAny : (Task.all frame.body).Covered fun _ _ => True := fun _ _ => .inr trivial
    cases (ih hAny hError).1
  | @returned ck scope stack c line f s frame s₁ s₂ _ _ _ _ _ =>
    unfold finish at hError
    split at hError
    · next e' r hWrite =>
        cases hError
        refine marked_of_locate (hCovered _ .here) (fun hReady => ?_) (congrArg Prod.fst hWrite) rfl hBreaks
        refine excludes_writeOutputs (fun pair hPair => ?_) _
        exact hReady pair.2 (mem_append_right _ (of_mem_zip hPair).2)
    · cases hError

/-! ### Incomplete commands -/

theorem isSome_of_addInputs {store : Store} {out : Store × Registry} (h : addInputs pairs store r = .ok out) :
    ∀ pair ∈ pairs, pair.2.accessor.isSome = true := by
  induction pairs generalizing store r with
  | nil => exact fun _ hPair => nomatch hPair
  | cons pair rest ih =>
    obtain ⟨formal, slot⟩ := pair
    intro other hOther
    rw [addInputs] at h
    cases hSlot : slot.accessor with
    | none =>
      rw [hSlot] at h
      cases h
    | some actual =>
      rw [hSlot] at h
      obtain ⟨copy, -, h⟩ := bind_eq_ok.mp h
      obtain ⟨⟨store', r'⟩, -, h⟩ := bind_eq_ok.mp h
      rcases mem_cons.mp hOther with rfl | hOther
      · rw [hSlot]
        rfl
      · exact ih h other hOther

theorem isSome_of_writeOutputs {locals : Store} (h : (writeOutputs locals function pairs r).1 = .ok ()) :
    ∀ pair ∈ pairs, pair.2.accessor.isSome = true := by
  induction pairs generalizing r with
  | nil => exact fun _ hPair => nomatch hPair
  | cons pair rest ih =>
    obtain ⟨formal, slot⟩ := pair
    intro other hOther
    rw [writeOutputs] at h
    split at h
    · cases h
    · next r' hWrite =>
        rcases mem_cons.mp hOther with rfl | hOther
        · cases hSlot : slot.accessor with
          | none =>
            rw [writeOutput, hSlot] at hWrite
            cases hWrite
          | some target => rfl
        · exact ih h other hOther

/-- A call whose function is known and takes that many arguments, but which lacks one of them. -/
theorem invoke_ne_ok (hTakes : ck.checkCall c = .ok ()) {slot : Slot} (hSlot : slot ∈ c.slots)
    (hOpen : slot.accessor = none) (depth : Nat) (locate : CommandError → ValidationError) :
    (invoke depth ck scope stack c locate s).1 ≠ .ok () := by
  obtain ⟨f, hKnown, hInputs, hOutputs⟩ : ∃ f, ck.functions.get? c.function = some f ∧
      f.inputs.length = c.inputs.length ∧ f.outputs.length = c.outputs.length := by
    unfold Checker.checkCall at hTakes
    split at hTakes
    · cases hTakes
    · next f hKnown =>
        split at hTakes
        · cases hTakes
        · next hInputs =>
            split at hTakes
            · cases hTakes
            · next hOutputs => exact ⟨f, hKnown, not_not.mp hInputs, not_not.mp hOutputs⟩
  -- Every argument stands beside a formal one, so it is looked at before or after the function runs.
  have hNone : ∀ {formals : List String} {slots : List Slot}, formals.length = slots.length →
      slot ∈ slots → ¬ ∀ pair ∈ formals.zip slots, pair.2.accessor.isSome = true := by
    intro formals slots hLength hMem hAll
    rw [← map_snd_zip (Nat.le_of_eq hLength.symm)] at hMem
    obtain ⟨pair, hPair, rfl⟩ := mem_map.mp hMem
    have hSome := hAll pair hPair
    rw [hOpen] at hSome
    cases hSome
  intro hOk
  unfold invoke at hOk
  split at hOk
  · cases hOk
  rw [hKnown] at hOk
  cases depth with
  | zero => cases hOk
  | succ depth =>
    dsimp only at hOk
    rcases hPrepare : prepare ck scope c f locate s with ⟨x, s₁⟩
    rw [hPrepare] at hOk
    cases x with
    | error e => cases hOk
    | ok frame =>
      dsimp only at hOk
      split at hOk
      · cases hOk
      · rcases mem_append.mp hSlot with hInput | hOutput
        · unfold prepare at hPrepare
          split at hPrepare
          · cases hPrepare
          · next store r hStore =>
              obtain ⟨filled, hFilled, -⟩ := bind_eq_ok.mp hStore
              exact hNone hInputs hInput (isSome_of_addInputs hFilled)
        · unfold finish at hOk
          split at hOk
          · cases hOk
          · next r hWrite =>
              exact hNone hOutputs hOutput (isSome_of_writeOutputs (congrArg Prod.fst hWrite))

/-- An incomplete command that has its other accessors never succeeds, and unless it is a call it
fails for want of what it lacks. -/
theorem execute_incomplete {c : Command} (hFilled : c.Filled) (hTakes : ck.Takes c)
    (h : c.isIncomplete = true) (depth : Nat) (s : RunState) :
    (execute ck (invoke depth ck scope stack) c s).1 ≠ .ok () ∧
    ((∀ call line, c ≠ .call call line) → ∃ e : CommandError, e.breaksInvariant = true ∧
      execute ck (invoke depth ck scope stack) c s = (.error (ck.locate e c.text c.line), s)) := by
  have hFails : ∀ {e : CommandError}, e.breaksInvariant = true →
      execute ck (invoke depth ck scope stack) c s = (.error (ck.locate e c.text c.line), s) →
      (execute ck (invoke depth ck scope stack) c s).1 ≠ .ok () ∧
      ((∀ call line, c ≠ .call call line) → ∃ e : CommandError, e.breaksInvariant = true ∧
        execute ck (invoke depth ck scope stack) c s = (.error (ck.locate e c.text c.line), s)) := by
    intro e hBreaks hRun
    refine ⟨fun hOk => ?_, fun _ => ⟨e, hBreaks, hRun⟩⟩
    rw [hRun] at hOk
    cases hOk
  cases c with
  | assignment a line =>
    obtain ⟨hSingle, hEmpty⟩ : a.isEquation = false ∧ a.rhs.isEmpty = true := by
      simpa [isIncomplete] using h
    have hSource : a.source = none := by
      have hOpen := hFilled.single hSingle
      rw [hEmpty] at hOpen
      simpa using hOpen
    have hExecute : a.execute s.registry = .error (.missingAccessor "Assignment" a.rhs) := by
      rw [Assignment.execute, Assignment.output, hSingle, hSource]
      rfl
    refine hFails (e := .missingAccessor "Assignment" a.rhs) rfl ?_
    rw [execute, runAssignment, hExecute]
    rfl
  | branch kind chain body otherwise line =>
    have hUndecided := chain.evaluate_of_not_balanced (by simpa [isIncomplete] using h) s.registry
    refine hFails (e := .logicalOperatorCount chain.conditions.length chain.operators.length) rfl ?_
    cases kind with
    | ifThen =>
      rw [execute, hUndecided]
      rfl
    | whileLoop => exact loop_of_error hUndecided _
  | report c line => cases h
  | propagate c line => cases h
  | call c line =>
    obtain ⟨slot, hSlot, hEmpty⟩ := any_eq_true.mp h
    have hOpen : slot.accessor = none := by
      have hSkipped := hFilled slot.name slot.accessor (mem_map.mpr ⟨slot, hSlot, rfl⟩)
      rw [show (call c line).skips slot.name = true from hEmpty] at hSkipped
      simpa using hSkipped
    refine ⟨?_, fun hOther => absurd rfl (hOther c line)⟩
    exact invoke_ne_ok hTakes hSlot hOpen depth _

end Execution

namespace Session

/-! ### The script as a whole -/

theorem checker_classify (s : Session) (options : ClassifyOptions) (text : String) :
    (s.classify options text).2.checker = s.checker := by
  rw [classify_state]
  rfl

theorem checker_validate (s : Session) : s.validate.2.checker = s.checker := by
  obtain ⟨x, commands, c, w, errors, validated, -, -, -, hState⟩ := s.validate_state
  rw [hState]
  rfl

theorem checker_execute (s : Session) : s.execute.2.checker = s.checker := by
  obtain ⟨log, hState⟩ := s.execute_state
  rw [hState]

/-- A script that fails has a run that fails. -/
theorem runs_of_execute {s s' : Session} {error : SessionError} (h : s.execute = (.error error, s')) :
    ∃ e, error = .validation e ∧ ∃ out : Except ValidationError Unit × RunState,
      Execution.Runs s.checker { store := s.store } [] (.all s.commands)
        { registry := s.registry, log := s.log } out ∧ out.1 = .error e := by
  have hRuns : Execution.Runs s.checker { store := s.store } [] (.all s.commands) _ _ :=
    Execution.runs_run (.nil s.checker) (Nat.le_refl _) (t := .all s.commands) (Nat.zero_le _)
      { registry := s.registry, log := s.log }
  dsimp only [execute] at h
  split at h
  · next e hError =>
      cases h
      exact ⟨e, rfl, _, hRuns, hError⟩
  · cases h

/-- Only adding a function changes the checker of a script. -/
theorem Reachable.checker_of {P : Checker → Prop} (hNew : ∀ settings, P { settings })
    (hFunction : ∀ {ck} (f : UserFunction), P ck → P { ck with functions := ck.functions.insert f.name f })
    {s : Session} (h : s.Reachable) : P s.checker := by
  induction h with
  | new settings => exact hNew settings
  | add a _ ih =>
    dsimp only [Session.add]
    split <;> exact ih
  | create typeName name _ ih =>
    unfold Session.create
    split
    · dsimp only [Session.add]
      split <;> exact ih
    · exact ih
  | remove name _ ih => exact ih
  | @addFunction s f _ ih => exact hFunction { f with locals := (s.registry.holdAll f.locals).1 } ih
  | push c _ ih => exact ih
  | rename old new _ ih =>
    unfold Session.rename
    split <;> exact ih
  | @classify s options text _ ih =>
    rw [checker_classify]
    exact ih
  | @evaluate s text _ ih =>
    rw [evaluate_state, checker_classify]
    exact ih
  | @validate s _ ih =>
    rw [checker_validate]
    exact ih
  | @run s _ ih =>
    rcases s.run_state with ⟨-, hState⟩ | hState | ⟨-, hState⟩
    · rwa [hState, checker_execute]
    · rwa [hState, checker_validate]
    · rwa [hState, checker_execute, checker_validate]
  | write _ _ ih => exact ih

/-- The commands of a script are in no function. -/
theorem Reachable.within {s : Session} (h : s.Reachable) : s.checker.within = none :=
  h.checker_of (P := fun ck => ck.within = none) (fun _ => rfl) fun _ hWithin => hWithin

/-- Every command of a script that has been accepted has its accessors, all of them bound. -/
theorem filled_of_validate {s s₁ : Session} (hReachable : s.Reachable)
    (hManaged : s.checker.settings.manage ≠ .unmanaged) (h : s.validate = (.ok (), s₁)) {c : Command}
    (hc : c.Occurs s₁.commands) :
    (c.Filled ∧ s.checker.Takes c) ∧ ∀ a ∈ c.accessors, a.isBound = true := by
  obtain ⟨checked, hCommands⟩ := commands_of_validate h
  have hAll : ∀ d, Command.Occurs d s₁.commands → d.Filled ∧ s.checker.Takes d := by
    refine s.checker.validateAll_passes ?_ ?_ hCommands
    · intro d w d' w' hCheck
      exact (Ends.of_ok hCheck).mp (s.checker.check_fills hManaged w)
    · intro d body otherwise hd
      cases d <;> exact hd
  exact ⟨hAll c hc, fun a ha => ((validate_tracks hReachable h).2.tracked hc ha).bound⟩

/-- A managed script that has been accepted, when it is run: a failure for want of an accessor, of a
bound object, of an equation or of a logical operator is one of an incomplete command, at whose
place it is reported. And an incomplete command never succeeds; unless it is a call, it fails in
that very way. -/
theorem run_breaks_iff_incomplete {s s₁ : Session} (hReachable : s.Reachable)
    (hManaged : s.checker.settings.manage ≠ .unmanaged) (hValid : s.validate = (.ok (), s₁)) :
    (∀ {error s₂}, s₁.run = (.error error, s₂) → ∃ e, error = .validation e ∧
      (e.cause.breaksInvariant = true → ∃ c : Command, c.Occurs s₁.commands ∧ c.isIncomplete = true ∧
        e.text = c.text ∧ e.line = c.line)) ∧
    (∀ {c : Command}, c.Occurs s₁.commands → c.isIncomplete = true → ∀ state : RunState,
      (s₁.executeCommand c state).1 ≠ .ok () ∧
      ((∀ call line, c ≠ .call call line) → ∃ e, s₁.executeCommand c state = (.error e, state) ∧
        e.cause.breaksInvariant = true ∧ e.text = c.text ∧ e.line = c.line)) := by
  have hFilled := fun {c : Command} => filled_of_validate (c := c) hReachable hManaged hValid
  have hChecker : s₁.checker = s.checker := by
    have hSame := s.checker_validate
    rwa [hValid] at hSame
  have hCovered : (Execution.Task.all s₁.commands).Covered fun text line =>
      ∃ c : Command, c.Occurs s₁.commands ∧ c.isIncomplete = true ∧ text = c.text ∧ line = c.line := by
    intro c hc
    obtain ⟨⟨hc', -⟩, hBound⟩ := hFilled hc
    cases hIncomplete : c.isIncomplete with
    | false => exact .inl (hc'.ready hBound hIncomplete)
    | true => exact .inr ⟨c, hc, hIncomplete, rfl, rfl⟩
  refine ⟨fun {error s₂} hRun => ?_, fun {c} hc hIncomplete state => ?_⟩
  · rw [run, if_pos (validated_of_validate hValid)] at hRun
    obtain ⟨e, rfl, out, hRuns, hFails⟩ := runs_of_execute hRun
    refine ⟨e, rfl, fun hBreaks => (hRuns.breaks_at hCovered hFails hBreaks).2⟩
  · obtain ⟨⟨hc', hTakes⟩, -⟩ := hFilled hc
    rw [← hChecker] at hTakes
    have hNever : (s₁.executeCommand c state).1 ≠ .ok () ∧ _ :=
      Execution.execute_incomplete hc' hTakes hIncomplete s₁.checker.functions.size state
    refine ⟨hNever.1, fun hOther => ?_⟩
    obtain ⟨e, hBreaks, hRun⟩ := hNever.2 hOther
    refine ⟨_, hRun, ?_⟩
    rw [Checker.locate, hChecker, hReachable.within]
    exact ⟨hBreaks, rfl, rfl⟩

/-- A script with a Variable, a function of one argument, and some commands. -/
def sampleScript (commands : List Command) : Session :=
  let s := ((new {}).add (Catalog.userVariable "x" 1.0)).2
  commands.foldl push (s.addFunction { name := "F", inputs := ["a"], outputs := [] })

theorem reachable_sampleScript (commands : List Command) : (sampleScript commands).Reachable := by
  have hPush : ∀ (commands : List Command) (s : Session), s.Reachable →
      (commands.foldl push s).Reachable := by
    intro commands
    induction commands with
    | nil => exact fun _ => id
    | cons c rest ih => exact fun s hs => ih _ (hs.push c)
  exact hPush commands _ (.addFunction _ (.add _ (.new _)))

/-- A complete assignment, one without a right-hand side, and a call without an argument. -/
def openCommands : List Command :=
  [.assignment (.make "x" "x") (some 1), .assignment (.make "x" "") (some 2),
    .call (.make "F" [""] []) (some 3)]

/-- That script is accepted, the commands that are left open never succeed, and where a run breaks
off it is at one of them. -/
theorem run_breaks_at_open_commands :
    ∃ s₁, (sampleScript openCommands).validate = (.ok (), s₁) ∧
      (s₁.commands.filter Command.isIncomplete).map Command.text = ["x = ", "F()"] ∧
      (∀ c ∈ s₁.commands, c.isIncomplete = true → ∀ state, (s₁.executeCommand c state).1 ≠ .ok ()) ∧
      ∀ {e s₂}, s₁.run = (.error (.validation e), s₂) → e.cause.breaksInvariant = true →
        ∃ c : Command, c.Occurs s₁.commands ∧ c.isIncomplete = true ∧ e.text = c.text := by
  have hAccepted : (sampleScript openCommands).validate.1.isOk = true := by decide +kernel
  have hTexts : ((sampleScript openCommands).validate.2.commands.filter Command.isIncomplete).map
      Command.text = ["x = ", "F()"] := by decide +kernel
  rcases hValid : (sampleScript openCommands).validate with ⟨_ | _, s₁⟩
  · rw [hValid] at hAccepted
    cases hAccepted
  rw [hValid] at hTexts
  obtain ⟨hBreaks, hOpen⟩ := run_breaks_iff_incomplete (reachable_sampleScript openCommands)
    (by decide) hValid
  refine ⟨s₁, rfl, hTexts, fun c hc hIncomplete state => ?_, fun {e s₂} hRun hCause => ?_⟩
  · exact (hOpen (Command.occurs_of_mem hc) hIncomplete state).1
  · obtain ⟨_, ⟨⟩, hPlace⟩ := hBreaks hRun
    obtain ⟨c, hc, hIncomplete, hText, -⟩ := hPlace hCause
    exact ⟨c, hc, hIncomplete, hText⟩

/-- A branch with two conditions and nothing to join them. -/
def unjoinedScript : Session :=
  sampleScript
    [.branch .ifThen { conditions := [.make "x" .lessThan "x", .make "x" .greaterThan "x"] } [] [] none]

/-- Whether a run has broken off at a command of the text. -/
def breaksOffAt (text : String) : Except SessionError (List ReportLine) → Bool
  | .error (.validation e) => e.cause.breaksInvariant && e.text == text
  | _ => false

/-- The script is managed and accepted, and its run breaks off at the branch. -/
theorem unjoined_conditions_accepted :
    unjoinedScript.checker.settings.manage ≠ .unmanaged ∧
    ∃ s₁ e s₂, unjoinedScript.validate = (.ok (), s₁) ∧ s₁.run = (.error (.validation e), s₂) ∧
      e.cause.breaksInvariant = true ∧ e.text = "If x < x ? x > x" := by
  refine ⟨by decide, ?_⟩
  have hAccepted : unjoinedScript.validate.1.isOk = true := by decide +kernel
  have hBroken : breaksOffAt "If x < x ? x > x" unjoinedScript.validate.2.run.1 = true := by
    decide +kernel
  rcases hValid : unjoinedScript.validate with ⟨_ | _, s₁⟩
  · rw [hValid] at hAccepted
    cases hAccepted
  rw [hValid] at hBroken
  rcases hRun : s₁.run with ⟨x, s₂⟩
  rw [hRun] at hBroken
  dsimp only [breaksOffAt] at hBroken
  split at hBroken
  · next e =>
      rw [Bool.and_eq_true, beq_iff_eq] at hBroken
      exact ⟨s₁, e, s₂, rfl, hRun, hBroken⟩
  · cases hBroken

end Session

end Mission
