import Mission.Proofs.Checking.Refusal
import Mission.Session

/-! Collecting errors beside ending at the first. Both checks visit the commands of a script in the
order in which they are written, and then its objects. Up to the first error they are the same
check, which is why the one that ends there reports the first of the errors that the other collects.
-/
namespace Mission

open Outcome List Command Checker

namespace Checker

variable {r r' : Except ValidationError Bool × CheckState} {s : CheckState} {collected : List ValidationError}
  {f : Bool → CheckState → Except ValidationError Bool × CheckState} {e : CommandError} {id : ObjectId}
    {w : Workspace}

/-- The same setting, with errors collected or ended by the first. -/
def collecting (ck : Checker) (flag : Bool) : Checker :=
  { ck with settings := { ck.settings with continueOnError := flag } }

/-! ### The check of one command and of one object -/

section

variable (ck : Checker) (flag : Bool)

theorem sourceAccessor_collecting : (ck.collecting flag).sourceAccessor = ck.sourceAccessor :=
  rfl

theorem bindSources_collecting (targetType : DataType) (referencedIn : String) (names : List String) :
    (ck.collecting flag).bindSources targetType referencedIn names =
      ck.bindSources targetType referencedIn names := by
  induction names with
  | nil => rfl
  | cons name rest ih => rw [bindSources, bindSources, ih, sourceAccessor_collecting]

theorem checkAssignment_collecting : (ck.collecting flag).checkAssignment = ck.checkAssignment := by
  unfold checkAssignment
  simp only [bindSources_collecting]
  rfl

theorem bindNames_collecting (options : ClassifyOptions) (referencedIn : String) (names : List String) :
    (ck.collecting flag).bindNames options referencedIn names =
      ck.bindNames options referencedIn names := by
  induction names with
  | nil => rfl
  | cons name rest ih =>
    rw [bindNames, bindNames, ih]
    rfl

theorem checkReferences_collecting (w : Workspace) (referencedIn : String)
    (references : List (ObjectType × String)) :
    (ck.collecting flag).checkReferences w referencedIn references =
      ck.checkReferences w referencedIn references := by
  induction references with
  | nil => rfl
  | cons reference rest ih =>
    rw [checkReferences, checkReferences, ih]
    rfl

/-- Whether errors are collected is not looked at before there is one. -/
theorem check_collecting : (ck.collecting flag).check = ck.check := by
  unfold check bindCommand
  simp only [checkAssignment_collecting, bindNames_collecting, checkReferences_collecting]
  rfl

theorem checkObject_collecting : (ck.collecting flag).checkObject = ck.checkObject :=
  rfl

end

/-! ### Checks one after the other -/

/-- Goes on with another check unless an error has ended the first. -/
def andThen (r : Except ValidationError Bool × CheckState)
    (next : Bool → CheckState → Except ValidationError Bool × CheckState) :
    Except ValidationError Bool × CheckState :=
  match r with
  | (.error e, s) => (.error e, s)
  | (.ok valid, s) => next valid s

/-- The result and the state of a check, without the commands. -/
def outcome {α : Type} (r : Except ValidationError Bool × α × CheckState) :
    Except ValidationError Bool × CheckState :=
  (r.1, r.2.2)

theorem andThen_of_ok {valid : Bool} (h : r.1 = .ok valid)
    (next : Bool → CheckState → Except ValidationError Bool × CheckState) :
    andThen r next = next valid r.2 := by
  obtain ⟨x, s⟩ := r
  cases h
  rfl

theorem andThen_of_error {e : ValidationError} (h : r.1 = .error e)
    (next : Bool → CheckState → Except ValidationError Bool × CheckState) : andThen r next = r := by
  obtain ⟨x, s⟩ := r
  cases h
  rfl

theorem andThen_assoc (r : Except ValidationError Bool × CheckState)
    (f g : Bool → CheckState → Except ValidationError Bool × CheckState) :
    andThen (andThen r f) g = andThen r fun valid s => andThen (f valid s) g := by
  rcases r with ⟨_ | _, s⟩ <;> rfl

/-- Checks commands one by one, each without those inside it. -/
def scan (ck : Checker) :
    List Command → (valid : Bool) → CheckState → Except ValidationError Bool × CheckState
  | [], valid, s => (.ok valid, s)
  | c :: rest, valid, s =>
    andThen (outcome (ck.validateOne c s)) fun fine s => ck.scan rest (valid && fine) s

variable (ck : Checker)

theorem scan_append (cs ds : List Command) (valid : Bool) (s : CheckState) :
    ck.scan (cs ++ ds) valid s = andThen (ck.scan cs valid s) (ck.scan ds) := by
  induction cs generalizing valid s with
  | nil => rfl
  | cons c rest ih =>
    simp only [cons_append, scan, andThen_assoc]
    congr
    funext fine s
    exact ih (valid && fine) s

/-- What was not valid before does not become valid. -/
theorem scan_and (cs : List Command) (u v : Bool) (s : CheckState) :
    ck.scan cs (u && v) s = andThen (ck.scan cs v s) fun v s => (.ok (u && v), s) := by
  induction cs generalizing v s with
  | nil => rfl
  | cons c rest ih =>
    simp only [scan, andThen_assoc]
    congr
    funext fine s
    rw [Bool.and_assoc]
    exact ih (v && fine) s

/-- A command without commands inside. -/
theorem outcome_of_validateOne {c : Command} (h : ck.validate c s = ck.validateOne c s) :
    outcome (ck.validate c s) = ck.scan [c] true s := by
  rw [h, scan]
  rcases ck.validateOne c s with ⟨_ | fine, c₁, s₁⟩ <;> rfl

mutual

theorem outcome_validate (c : Command) (s : CheckState) :
    outcome (ck.validate c s) = ck.scan c.preorder true s := by
  cases c with
  | branch kind chain body otherwise line =>
    rw [validate, preorder, scan]
    rcases ck.validateOne (.branch kind chain body otherwise line) s with ⟨_ | valid, c₁, s₁⟩
    · rfl
    · have hBody := outcome_validateEach body valid s₁
      change _ = ck.scan (preorderAll body ++ preorderAll otherwise) (true && valid) s₁
      rw [Bool.true_and, scan_append, ← hBody]
      dsimp only
      rcases ck.validateEach body valid s₁ with ⟨_ | valid, body', s₂⟩
      · rfl
      · exact outcome_validateEach otherwise valid s₂
  | assignment a line | report c line | propagate c line | call c line =>
    rw [preorder]
    exact ck.outcome_of_validateOne (by rw [validate])

theorem outcome_validateEach (cs : List Command) (valid : Bool) (s : CheckState) :
    outcome (ck.validateEach cs valid s) = ck.scan (preorderAll cs) valid s := by
  cases cs with
  | nil => rw [validateEach]; rfl
  | cons c rest =>
    have hFirst := outcome_validate c s
    rw [validateEach, preorderAll, scan_append]
    have hScan := ck.scan_and c.preorder valid true s
    rw [Bool.and_true, ← hFirst] at hScan
    rw [hScan]
    rcases ck.validate c s with ⟨_ | fine, c₁, s₁⟩
    · rfl
    · exact outcome_validateEach rest (valid && fine) s₁

end

theorem length_validateEach (cs : List Command) (valid : Bool) (s : CheckState) :
    (ck.validateEach cs valid s).2.1.length = cs.length := by
  induction cs generalizing valid s with
  | nil => rw [validateEach]
  | cons c rest ih =>
    rw [validateEach]
    rcases ck.validate c s with ⟨_ | fine, c₁, s₁⟩
    · rfl
    · exact congrArg (· + 1) (ih (valid && fine) s₁)

/-- The note that ends the check of a script. -/
def noteValidated (commands before : Nat) (valid : Bool) (s : CheckState) :
    Except ValidationError Bool × CheckState :=
  let text := s!"Validated {commands} command(s), {s.errors.length - before} error(s)"
  (.ok valid, { s with workspace := s.workspace.note .info text })

theorem outcome_validateAll (cs : List Command) (s : CheckState) :
    outcome (ck.validateAll cs s) =
      andThen (ck.scan (preorderAll cs) true s) (noteValidated cs.length s.errors.length) := by
  rw [← outcome_validateEach, ← ck.length_validateEach cs true s]
  dsimp only [validateAll]
  rcases ck.validateEach cs true s with ⟨_ | valid, cs', s'⟩ <;> rfl

theorem handleAll_cons (e : CommandError) (rest : List CommandError) (valid : Bool) (s : CheckState) :
    ck.handleAll (e :: rest) valid s =
      andThen (ck.handle e "" none s) fun fine s => ck.handleAll rest (valid && fine) s := by
  rw [handleAll]
  rcases ck.handle e "" none s with ⟨_ | fine, s'⟩ <;> rfl

theorem checkObjects_cons (id : ObjectId) (rest : List ObjectId) (valid : Bool) (s : CheckState) :
    ck.checkObjects (id :: rest) valid s =
      andThen
        (ck.handleAll (ck.checkObject id s.workspace).1 valid
          { s with workspace := (ck.checkObject id s.workspace).2 })
        (ck.checkObjects rest) := by
  rw [checkObjects]
  dsimp only
  rcases ck.handleAll (ck.checkObject id s.workspace).1 valid
    { s with workspace := (ck.checkObject id s.workspace).2 } with ⟨_ | fine, s'⟩ <;> rfl

/-- The note that ends the final pass. -/
def notePassed (objects before : Nat) (valid : Bool) (s : CheckState) :
    Except ValidationError Bool × CheckState :=
  let text := s!"Final pass checked {objects} object(s), {s.errors.length - before} error(s)"
  (.ok valid, { s with workspace := s.workspace.note .info text })

/-- The errors of the Parameters that have no owner. -/
def unresolved (w : Workspace) : List CommandError :=
  (Parameter.bindAll w).2.map fun name =>
    .object (.parameterOwnerMissing name (DottedName.parse name).owner)

theorem finalPass_eq (s : CheckState) :
    ck.finalPass s =
      andThen
        (ck.handleAll (unresolved s.workspace) true
          { s with workspace := (Parameter.bindAll s.workspace).1 })
        fun valid t =>
          andThen (ck.checkObjects t.workspace.scope.store.objects.values valid t)
            (notePassed t.workspace.scope.store.objects.values.length s.errors.length) := by
  dsimp only [finalPass, unresolved]
  rcases ck.handleAll _ true { s with workspace := (Parameter.bindAll s.workspace).1 } with ⟨_ | valid, t⟩
  · rfl
  · dsimp only [andThen]
    rcases ck.checkObjects t.workspace.scope.store.objects.values valid t with ⟨_ | valid, t'⟩ <;> rfl

/-! ### The two checks in step -/

/-- A check with errors collected, which has come to the end `r`, and the same check ended by its first
error, which has come to the end `r'`. There were the errors `before`, and the first check has added
those in `collected`. -/
structure Agrees (valid : Bool) (before collected : List ValidationError)
    (r r' : Except ValidationError Bool × CheckState) : Prop where
  errors : r.2.errors = before ++ collected
  recoverable : ∀ e ∈ collected, e.errorClass = .recoverable
  verdict : r.1 = .ok (valid && collected.isEmpty)
  clean : collected = [] → r' = r
  first : ∀ {e rest}, collected = e :: rest → r'.1 = .error e ∧ r'.2.errors = before

variable {ck} {valid : Bool} {before : List ValidationError}

/-- A step without errors. -/
theorem Agrees.pure (hErrors : s.errors = before) :
    Agrees valid before [] (.ok valid, s) (.ok valid, s) where
  errors := by rw [hErrors, append_nil]
  recoverable e he := by cases he
  verdict := by rw [isEmpty_nil, Bool.and_true]
  clean _ := rfl
  first h := by cases h

/-- The second check goes on only as long as the first has collected nothing. -/
theorem Agrees.andThen {more : List ValidationError} {start : Bool}
    {f' : Bool → CheckState → Except ValidationError Bool × CheckState}
    (h : Agrees start before collected r r')
    (hNext : Agrees (valid && collected.isEmpty) r.2.errors more (f (start && collected.isEmpty) r.2)
      (f' (start && collected.isEmpty) r.2)) :
    Agrees valid before (collected ++ more) (andThen r f) (andThen r' f') := by
  rw [andThen_of_ok h.verdict f]
  refine ⟨?_, ?_, ?_, ?_, ?_⟩
  · rw [hNext.errors, h.errors, append_assoc]
  · intro e he
    rcases mem_append.mp he with he | he
    · exact h.recoverable e he
    · exact hNext.recoverable e he
  · rw [hNext.verdict]
    cases collected <;> simp
  · intro hNone
    obtain ⟨hCollected, hMore⟩ := append_eq_nil_iff.mp hNone
    rw [h.clean hCollected, andThen_of_ok h.verdict f']
    exact hNext.clean hMore
  · intro e rest hFirst
    cases collected with
    | nil =>
      rw [h.clean rfl, andThen_of_ok h.verdict f']
      obtain ⟨hError, hErrors⟩ := hNext.first hFirst
      exact ⟨hError, by rw [hErrors, h.errors, append_nil]⟩
    | cons e' collected =>
      obtain ⟨rfl, -⟩ := List.cons.inj hFirst
      obtain ⟨hError, hErrors⟩ := h.first rfl
      rw [andThen_of_error hError f']
      exact ⟨hError, hErrors⟩

/-- A step of both checks that adds nothing. -/
theorem Agrees.then_pure (h : Agrees valid before collected r r')
    (hStep : ∀ valid s, ∃ s', f valid s = (.ok valid, s') ∧ s'.errors = s.errors) :
    Agrees valid before collected (Checker.andThen r f) (Checker.andThen r' f) := by
  obtain ⟨s', hRun, hErrors⟩ := hStep (valid && collected.isEmpty) r.2
  have hNext : Agrees (valid && collected.isEmpty) r.2.errors [] (f (valid && collected.isEmpty) r.2)
      (f (valid && collected.isEmpty) r.2) := by
    rw [hRun]
    exact .pure hErrors
  have hBoth : Agrees valid before (collected ++ []) _ _ := h.andThen hNext
  rwa [List.append_nil] at hBoth

variable (ck)

theorem errorClass_locate (e : CommandError) (text : String) (line : Option Nat) :
    (ck.locate e text line).errorClass = e.errorClass := by
  unfold locate
  split <;> rfl

theorem handle_agrees (he : e.errorClass = .recoverable) (text : String) (line : Option Nat)
    (s : CheckState) :
    Agrees true s.errors [ck.locate e text line] ((ck.collecting true).handle e text line s)
      ((ck.collecting false).handle e text line s) := by
  have hClass : (ck.locate e text line).errorClass = .recoverable :=
    (ck.errorClass_locate e text line).trans he
  have hOne : (ck.collecting true).handle e text line s =
      (.ok false, ⟨s.workspace.note .warn (ck.locate e text line).message,
        s.errors ++ [ck.locate e text line]⟩) := by
    change (if (ck.locate e text line).errorClass = .fatal || !true then _ else _) = _
    rw [hClass]
    rfl
  have hOther : (ck.collecting false).handle e text line s = (.error (ck.locate e text line), s) := by
    change (if (ck.locate e text line).errorClass = .fatal || !false then _ else _) = _
    rw [hClass]
    rfl
  rw [hOne, hOther]
  refine ⟨rfl, ?_, rfl, (fun h => by cases h), ?_⟩
  · intro e' he'
    rw [mem_singleton.mp he']
    exact hClass
  · intro e' rest h
    cases h
    exact ⟨rfl, rfl⟩

/-- The error is what the check of the command in some workspace gives, at the place of the command. -/
def Refuses (c : Command) (e : ValidationError) : Prop :=
  ∃ w cause, (ck.check (c, w)).1 = .error cause ∧ e = ck.locate cause c.text c.line

theorem validateOne_agrees (c : Command) (s : CheckState) :
    ∃ collected,
      Agrees true s.errors collected (outcome ((ck.collecting true).validateOne c s))
        (outcome ((ck.collecting false).validateOne c s)) ∧
      (collected = [] ∨ ∃ e, collected = [e] ∧ ck.Refuses c e) := by
  have hEnds := ck.check_ends s.workspace c
  unfold validateOne
  rw [check_collecting, check_collecting]
  rcases hRun : ck.check (c, s.workspace) with ⟨x, c', w⟩
  cases x with
  | ok _ => exact ⟨[], .pure rfl, .inl rfl⟩
  | error cause =>
    obtain ⟨hRefusal, hText, hLine, -⟩ := (Ends.of_error hRun).mp hEnds
    have hRecoverable := CommandError.recoverable_of_isRefusal hRefusal
    refine ⟨_, ck.handle_agrees hRecoverable c'.text c'.line { s with workspace := w }, .inr ⟨_, rfl, ?_⟩⟩
    refine ⟨s.workspace, cause, by rw [hRun], ?_⟩
    rw [hText, hLine]

/-- The errors of commands come in the order of the commands, at most one for each. -/
theorem scan_agrees (cs : List Command) (valid : Bool) (s : CheckState) :
    ∃ refused collected,
      Agrees valid s.errors collected ((ck.collecting true).scan cs valid s)
        ((ck.collecting false).scan cs valid s) ∧
      refused.Sublist cs ∧ List.Forall₂ ck.Refuses refused collected := by
  induction cs generalizing valid s with
  | nil => exact ⟨[], [], .pure rfl, .slnil, .nil⟩
  | cons c rest ih =>
    obtain ⟨collected, hFirst, hOne⟩ := ck.validateOne_agrees c s
    obtain ⟨refused, more, hRest, hSublist, hRefuses⟩ := ih (valid && collected.isEmpty)
      (outcome ((ck.collecting true).validateOne c s)).2
    have hBoth : Agrees valid s.errors (collected ++ more) ((ck.collecting true).scan (c :: rest) valid s)
        ((ck.collecting false).scan (c :: rest) valid s) := hFirst.andThen hRest
    rcases hOne with rfl | ⟨e, rfl, he⟩
    · exact ⟨refused, more, hBoth, hSublist.cons c, hRefuses⟩
    · exact ⟨c :: refused, e :: more, hBoth, hSublist.cons_cons c, .cons he hRefuses⟩

theorem handleAll_agrees {errors : List CommandError} (h : ∀ e ∈ errors, e.errorClass = .recoverable)
    (valid : Bool) (s : CheckState) :
    ∃ collected, Agrees valid s.errors collected ((ck.collecting true).handleAll errors valid s)
      ((ck.collecting false).handleAll errors valid s) := by
  induction errors generalizing valid s with
  | nil => exact ⟨[], .pure rfl⟩
  | cons e rest ih =>
    have hFirst := ck.handle_agrees (h e mem_cons_self) "" none s
    obtain ⟨more, hRest⟩ := ih (fun e he => h e (mem_cons_of_mem _ he)) (valid && false)
      ((ck.collecting true).handle e "" none s).2
    rw [handleAll_cons, handleAll_cons]
    exact ⟨_, hFirst.andThen hRest⟩

/-! ### Objects -/

theorem recoverable_of_referenceErrors (h : e ∈ referenceErrors w id) : e.errorClass = .recoverable := by
  obtain ⟨⟨t, name⟩, -, hReference⟩ := mem_filterMap.mp h
  dsimp only at hReference
  split at hReference
  · cases hReference
  · next hCheck =>
      cases hReference
      exact CommandError.recoverable_of_isRefusal (isRefusal_of_checkReference hCheck)

theorem recoverable_of_bodyErrors {o : Object} (h : e ∈ bodyErrors o) : e.errorClass = .recoverable := by
  unfold bodyErrors at h
  split at h
  · cases h
  · split at h
    · split at h
      · rw [mem_singleton.mp h]
        rfl
      · cases h
    · cases h

theorem recoverable_of_defaultAxes (h : e ∈ (ck.defaultAxes id w).1) : e.errorClass = .recoverable := by
  dsimp only [defaultAxes] at h
  split at h
  · cases h
  · split at h
    · rw [mem_singleton.mp h]
      rfl
    · split at h
      · cases h
      · rw [mem_singleton.mp h]
        rfl

theorem recoverable_of_checkObject (h : e ∈ (ck.checkObject id w).1) : e.errorClass = .recoverable := by
  rcases mem_append.mp h with h | h
  · rcases mem_append.mp h with h | h
    · exact recoverable_of_referenceErrors h
    · exact recoverable_of_bodyErrors h
  · exact ck.recoverable_of_defaultAxes h

theorem checkObjects_agrees (ids : List ObjectId) (valid : Bool) (s : CheckState) :
    ∃ collected, Agrees valid s.errors collected ((ck.collecting true).checkObjects ids valid s)
      ((ck.collecting false).checkObjects ids valid s) := by
  induction ids generalizing valid s with
  | nil => exact ⟨[], .pure rfl⟩
  | cons id rest ih =>
    rw [checkObjects_cons, checkObjects_cons, checkObject_collecting, checkObject_collecting]
    obtain ⟨collected, hFirst⟩ := ck.handleAll_agrees (fun e => ck.recoverable_of_checkObject) valid
      { s with workspace := (ck.checkObject id s.workspace).2 }
    obtain ⟨more, hRest⟩ := ih (valid && collected.isEmpty) _
    exact ⟨_, hFirst.andThen hRest⟩

theorem finalPass_agrees (s : CheckState) :
    ∃ collected, Agrees true s.errors collected ((ck.collecting true).finalPass s)
      ((ck.collecting false).finalPass s) := by
  rw [finalPass_eq, finalPass_eq]
  have hUnresolved : ∀ e ∈ unresolved s.workspace, e.errorClass = .recoverable := by
    intro e he
    obtain ⟨name, -, rfl⟩ := mem_map.mp he
    rfl
  obtain ⟨collected, hFirst⟩ := ck.handleAll_agrees hUnresolved true
    { s with workspace := (Parameter.bindAll s.workspace).1 }
  obtain ⟨more, hObjects⟩ := ck.checkObjects_agrees _ (true && collected.isEmpty) _
  exact ⟨_, hFirst.andThen (hObjects.then_pure fun valid s => ⟨_, rfl, rfl⟩)⟩

/-- The check of the commands. -/
theorem validateAll_agrees (cs : List Command) (s : CheckState) :
    ∃ refused collected,
      Agrees true s.errors collected (outcome ((ck.collecting true).validateAll cs s))
        (outcome ((ck.collecting false).validateAll cs s)) ∧
      refused.Sublist (preorderAll cs) ∧ List.Forall₂ ck.Refuses refused collected := by
  obtain ⟨refused, collected, hScan, hOrder⟩ := ck.scan_agrees (preorderAll cs) true s
  rw [outcome_validateAll, outcome_validateAll]
  exact ⟨refused, collected, hScan.then_pure fun valid s => ⟨_, rfl, rfl⟩, hOrder⟩

end Checker

namespace Session

/-- The same script, with errors collected or the check ended by the first. -/
def collecting (s : Session) (flag : Bool) : Session :=
  { s with checker := s.checker.collecting flag }

/-- All the errors that a check of the script reports: those it collects, then the one that ends it. -/
def found (s : Session) : List ValidationError :=
  s.validate.2.errors ++
    match s.validate.1 with
    | .error (.validation e) => [e]
    | _ => []

/-- The check of the commands and then of the objects. -/
def verdict (s : Session) : Except ValidationError Bool × CheckState :=
  Checker.andThen (Checker.outcome (s.checker.validateAll s.commands { workspace := s.workspace }))
    fun valid c => Checker.andThen (s.checker.finalPass c) fun fine c => (.ok (valid && fine), c)

/-- What a script is told of its check. -/
def conclusion : Except ValidationError Bool × CheckState → Except SessionError Unit
  | (.error e, _) => .error (.validation e)
  | (.ok _, c) => if c.errors.isEmpty then .ok () else .error (.script c.errors)

theorem conclusion_of_ok {r : Except ValidationError Bool × CheckState} {valid : Bool}
    (h : r.1 = .ok valid) :
    conclusion r = if r.2.errors.isEmpty then .ok () else .error (.script r.2.errors) := by
  obtain ⟨x, c⟩ := r
  cases h
  rfl

theorem conclusion_of_error {r : Except ValidationError Bool × CheckState} {e : ValidationError}
    (h : r.1 = .error e) : conclusion r = .error (.validation e) := by
  obtain ⟨x, c⟩ := r
  cases h
  rfl

theorem validate_eq (s : Session) :
    s.validate.1 = conclusion s.verdict ∧ s.validate.2.errors = s.verdict.2.errors := by
  rw [validate_eq_match, verdict]
  rcases s.checker.validateAll s.commands { workspace := s.workspace } with ⟨_ | valid, commands, c⟩
  · exact ⟨rfl, rfl⟩
  · dsimp only [outcome, andThen]
    rcases s.checker.finalPass c with ⟨_ | fine, c'⟩
    · exact ⟨rfl, rfl⟩
    · dsimp only [conclusion]
      split <;> exact ⟨rfl, rfl⟩

/-- The two checks of a script, from the same state on. -/
theorem verdict_agrees (s : Session) :
    ∃ collected, Checker.Agrees true [] collected (s.collecting true).verdict
      (s.collecting false).verdict := by
  obtain ⟨refused, collected, hCommands, -⟩ :=
    s.checker.validateAll_agrees s.commands { workspace := s.workspace }
  obtain ⟨more, hObjects⟩ := s.checker.finalPass_agrees
    (outcome ((s.checker.collecting true).validateAll s.commands { workspace := s.workspace })).2
  refine ⟨collected ++ (more ++ []), hCommands.andThen (hObjects.andThen ?_)⟩
  exact .pure rfl

/-- Collecting errors and ending at the first agree on every script. Ended by its first error, the
check reports the first of the errors that it would have found in all, and none if there are none.
The errors of commands stand in the order of the commands, at most one for each, and the commands
are valid exactly if none was added. -/
theorem validate_reports_first_found (s : Session) :
    ((s.collecting false).validate.1 =
      match (s.collecting true).found with
      | [] => .ok ()
      | e :: _ => .error (.validation e)) ∧
    (s.collecting false).validate.2.errors = [] ∧
    (∀ e ∈ (s.collecting true).validate.2.errors, e.errorClass = .recoverable) ∧
    ∀ start : CheckState, ∃ refused appended,
      ((s.collecting true).checker.validateAll s.commands start).2.2.errors = start.errors ++ appended ∧
      refused.Sublist (Command.preorderAll s.commands) ∧
      List.Forall₂ s.checker.Refuses refused appended ∧
      (((s.collecting true).checker.validateAll s.commands start).1 = .ok true ↔ appended = []) := by
  obtain ⟨collected, hAgrees⟩ := s.verdict_agrees
  obtain ⟨hResult, hErrors⟩ := (s.collecting true).validate_eq
  obtain ⟨hResult', hErrors'⟩ := (s.collecting false).validate_eq
  rw [hAgrees.errors, List.nil_append] at hErrors
  have hFound : (s.collecting true).found = collected := by
    rw [found, hErrors, hResult, conclusion_of_ok hAgrees.verdict]
    split
    · next h => split at h <;> cases h
    · exact List.append_nil collected
  rw [hFound, hErrors]
  refine ⟨?_, ?_, hAgrees.recoverable, ?_⟩
  · rw [hResult']
    cases hCollected : collected with
    | nil =>
      rw [hAgrees.clean hCollected, conclusion_of_ok hAgrees.verdict, hAgrees.errors, hCollected]
      rfl
    | cons e rest => exact conclusion_of_error (hAgrees.first hCollected).1
  · rw [hErrors']
    cases hCollected : collected with
    | nil =>
      rw [hAgrees.clean hCollected, hAgrees.errors, hCollected]
      rfl
    | cons e rest => exact (hAgrees.first hCollected).2
  · intro start
    obtain ⟨refused, appended, hCommands, hSublist, hRefuses⟩ :=
      s.checker.validateAll_agrees s.commands start
    have hVerdict : ((s.collecting true).checker.validateAll s.commands start).1 =
        .ok (true && appended.isEmpty) := hCommands.verdict
    refine ⟨refused, appended, hCommands.errors, hSublist, hRefuses, ?_⟩
    rw [hVerdict]
    simp

/-- A script whose branch is refused, and the command inside it as well. -/
def refusedTwice : Session :=
  let inner : Command := .assignment (.make "b" "1") (some 2)
  (new {}).push (.branch .ifThen (.single (.make "a" .lessThan "1")) [inner] [] (some 1))

/-- Both errors of that script are collected, the branch first, and the branch alone is reported if
the check ends there. -/
theorem validate_reports_refused_branch :
    (refusedTwice.collecting true).found.map (fun e => (e.text, e.line)) =
      [("If a < 1", some 1), ("b = 1", some 2)] ∧
    ∃ e, (refusedTwice.collecting true).found.head? = some e ∧
      (refusedTwice.collecting false).validate.1 = .error (.validation e) ∧
      ∀ e' ∈ (refusedTwice.collecting true).validate.2.errors, e'.errorClass = .recoverable := by
  have hFound : (refusedTwice.collecting true).found.map (fun e => (e.text, e.line)) =
      [("If a < 1", some 1), ("b = 1", some 2)] := by decide +kernel
  obtain ⟨hFirst, -, hRecoverable, -⟩ := validate_reports_first_found refusedTwice
  refine ⟨hFound, ?_⟩
  cases hAll : (refusedTwice.collecting true).found with
  | nil =>
    rw [hAll] at hFound
    cases hFound
  | cons e rest =>
    rw [hAll] at hFirst
    exact ⟨e, rfl, hFirst, hRecoverable⟩

end Session

end Mission
