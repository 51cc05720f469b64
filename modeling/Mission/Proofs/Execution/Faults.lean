import Mission.Proofs.Checking.Completeness
import Mission.Proofs.Execution.Interpreter
import Mission.Proofs.Execution.Termination

/-! Which command a run that fails tells of. An error arises at one position of the run and is
passed on by all positions around it, so the report has the text and the line of the command at that
position, and the tag of the function in whose body the command stands. A call fails in its own
place where its function cannot be entered or cannot return; where a command of the function is
refused or fails, the error is that command's. -/
namespace Mission

open Outcome Command List

/-! ### Sites of commands -/

namespace Command

/-- The texts and lines of commands and of all commands inside them, in the order in which they are
written. -/
def sites (cs : List Command) : List (String × Option Nat) :=
  (preorderAll cs).map fun c => (c.text, c.line)

theorem sites_cons (c : Command) (rest : List Command) :
    sites (c :: rest) = (c.text, c.line) :: (sites c.inner ++ sites rest) := by
  rw [sites, preorderAll, preorder_eq_cons]
  simp [sites]

theorem sites_append (cs ds : List Command) : sites (cs ++ ds) = sites cs ++ sites ds := by
  simp [sites, preorderAll_append]

theorem sites_cons_subset (c : Command) (rest : List Command) :
    sites [c] ⊆ sites (c :: rest) ∧ sites rest ⊆ sites (c :: rest) := by
  have hAll := sites_append [c] rest
  rw [singleton_append] at hAll
  rw [hAll]
  exact ⟨subset_append_left _ _, subset_append_right _ _⟩

theorem sites_branch (kind : BranchKind) (chain : Chain) (body otherwise : List Command) (line : Option Nat) :
    sites body ⊆ sites [branch kind chain body otherwise line] ∧
      sites otherwise ⊆ sites [branch kind chain body otherwise line] := by
  rw [sites_cons]
  change _ ⊆ _ :: (sites (body ++ otherwise) ++ _) ∧ _ ⊆ _ :: (sites (body ++ otherwise) ++ _)
  rw [sites_append]
  constructor
  · intro site h
    simp [h]
  · intro site h
    simp [h]

theorem SamePlace.sites {c c' : Command} (h : SamePlace c c') : sites [c'] = sites [c] := by
  rw [sites_cons, sites_cons, h.text, h.line, h.inner]

end Command

namespace Checker

open Command (sites sites_append)

variable (ck : Checker)
variable {c : Command} {cs : List Command} {s : CheckState} {v : ValidationError}

/-- Only a branch has commands inside, so nothing is lost where they are put back. -/
theorem sites_withInner {body otherwise : List Command} (h : sites (body ++ otherwise) = sites c.inner) :
    sites [withInner body otherwise c] = sites [c] := by
  cases c with
  | branch kind chain _ _ line => rw [sites_cons, sites_cons, ← h]; rfl
  | _ => rfl

mutual

/-- A command stays in its place when it is checked, whether it is accepted or refused. -/
theorem sites_validate (c : Command) (s : CheckState) : sites [(ck.validate c s).2.1] = sites [c] := by
  cases c with
  | branch kind chain body otherwise line =>
    have hOwn := ck.samePlace_validateOne (.branch kind chain body otherwise line) s
    rw [validate]
    rcases hOne : ck.validateOne (.branch kind chain body otherwise line) s with ⟨_ | valid, c, s₁⟩
    · rw [hOne] at hOwn
      exact hOwn.sites
    rw [hOne] at hOwn
    have hInner : sites c.inner = sites body ++ sites otherwise := by
      rw [hOwn.inner]
      exact sites_append body otherwise
    have hBody := sites_validateEach body valid s₁
    dsimp only
    rcases hEach : ck.validateEach body valid s₁ with ⟨_ | valid', body', s₂⟩
    · rw [hEach] at hBody
      exact (sites_withInner (by rw [hInner, sites_append, hBody])).trans hOwn.sites
    · rw [hEach] at hBody
      have hOtherwise := sites_validateEach otherwise valid' s₂
      exact (sites_withInner (by rw [hInner, sites_append, hBody, hOtherwise])).trans hOwn.sites
  | assignment a line | report c line | propagate c line | call c line =>
    rw [validate]
    exact (ck.samePlace_validateOne _ s).sites

theorem sites_validateEach (cs : List Command) (valid : Bool) (s : CheckState) :
    sites (ck.validateEach cs valid s).2.1 = sites cs := by
  cases cs with
  | nil => rw [validateEach]
  | cons c rest =>
    have hFirst := sites_validate c s
    have hAll := sites_append [c] rest
    rw [validateEach]
    rcases hOne : ck.validate c s with ⟨_ | fine, c', s₁⟩
    · rw [hOne] at hFirst
      rw [← hFirst] at hAll
      exact (sites_append [c'] rest).trans hAll.symm
    · rw [hOne] at hFirst
      rw [← hFirst, ← sites_validateEach rest (valid && fine) s₁] at hAll
      exact (sites_append [c'] _).trans hAll.symm

end

theorem sites_validateAll (cs : List Command) (s : CheckState) :
    sites (ck.validateAll cs s).2.1 = sites cs := by
  have hEach := ck.sites_validateEach cs true s
  dsimp only [validateAll]
  rcases hRun : ck.validateEach cs true s with ⟨_ | valid, cs', s'⟩ <;> rw [hRun] at hEach <;> exact hEach

/-! ### The command at which a check ends -/

/-- The check of the commands, in the order in which they are written, accepts those before this one and
refuses this one. -/
def RefusesAt (cs : List Command) (s : CheckState) (c : Command) (e : CommandError) : Prop :=
  ∃ before after t, Command.preorderAll cs = before ++ c :: after ∧
    ck.scan before true s = (.ok true, t) ∧ (ck.check (c, t.workspace)).1 = .error e

variable {ck}

/-- A check that ends at the first error either goes on with a command that is valid or ends at it. -/
theorem outcome_validateOne (hStops : ck.settings.continueOnError = false) (c : Command) (s : CheckState) :
    (∃ s', outcome (ck.validateOne c s) = (.ok true, s') ∧ (ck.check (c, s.workspace)).1 = .ok ()) ∨
    ∃ e s', outcome (ck.validateOne c s) = (.error (ck.locate e c.text c.line), s') ∧
      (ck.check (c, s.workspace)).1 = .error e := by
  have hEnds := ck.check_ends s.workspace c
  unfold validateOne
  rcases hRun : ck.check (c, s.workspace) with ⟨e | _, c', w⟩
  · obtain ⟨-, hText, hLine, -⟩ := (Ends.of_error hRun).mp hEnds
    refine .inr ⟨e, { s with workspace := w }, ?_, rfl⟩
    dsimp only [outcome]
    rw [handle_of_stops hStops, hText, hLine]
  · exact .inl ⟨{ s with workspace := w }, rfl, rfl⟩

theorem scan_eq_error_iff (hStops : ck.settings.continueOnError = false) :
    (ck.scan cs true s).1 = .error v ↔
      ∃ before c after t e, cs = before ++ c :: after ∧ ck.scan before true s = (.ok true, t) ∧
        (ck.check (c, t.workspace)).1 = .error e ∧ v = ck.locate e c.text c.line := by
  constructor
  · intro h
    induction cs generalizing s with
    | nil => cases h
    | cons c rest ih =>
      rw [scan] at h
      rcases outcome_validateOne hStops c s with ⟨s', hOne, -⟩ | ⟨e, s', hOne, hCheck⟩
      · rw [hOne] at h
        obtain ⟨before, d, after, t, e, rfl, hScan, hRest⟩ := ih h
        refine ⟨c :: before, d, after, t, e, rfl, ?_, hRest⟩
        rw [scan, hOne]
        exact hScan
      · rw [hOne] at h
        cases h
        exact ⟨[], c, rest, s, e, rfl, rfl, hCheck, rfl⟩
  · rintro ⟨before, c, after, t, e, rfl, hScan, hCheck, rfl⟩
    rw [scan_append, hScan]
    change (ck.scan (c :: after) true t).1 = _
    rw [scan]
    rcases outcome_validateOne hStops c t with ⟨s', -, hFine⟩ | ⟨e', s', hOne, hCheck'⟩
    · rw [hFine] at hCheck
      cases hCheck
    · rw [hOne]
      cases hCheck.symm.trans hCheck'
      rfl

/-- Where the check of commands ends, it tells of the command that is refused. -/
theorem validateAll_eq_error_iff (hStops : ck.settings.continueOnError = false) :
    (ck.validateAll cs s).1 = .error v ↔ ∃ c e, ck.RefusesAt cs s c e ∧ v = ck.locate e c.text c.line := by
  have hSame : (ck.validateAll cs s).1 = .error v ↔ (ck.scan (preorderAll cs) true s).1 = .error v := by
    have hOutcome := congrArg Prod.fst (ck.outcome_validateAll cs s)
    change (ck.validateAll cs s).1 = _ at hOutcome
    rw [hOutcome]
    rcases ck.scan (preorderAll cs) true s with ⟨_ | valid, t⟩
    · rfl
    · constructor
      · intro h
        cases h
      · intro h
        cases h
  rw [hSame, scan_eq_error_iff hStops]
  constructor
  · rintro ⟨before, c, after, t, e, hSplit, hScan, hCheck, hv⟩
    exact ⟨c, e, ⟨before, after, t, hSplit, hScan, hCheck⟩, hv⟩
  · rintro ⟨c, e, ⟨before, after, t, hSplit, hScan, hCheck⟩, hv⟩
    exact ⟨before, c, after, t, e, hSplit, hScan, hCheck, hv⟩

theorem RefusesAt.site_mem {e : CommandError} (h : ck.RefusesAt cs s c e) : (c.text, c.line) ∈ sites cs := by
  obtain ⟨before, after, t, hSplit, -⟩ := h
  simp [sites, hSplit]

end Checker

/-! ### Errors without a tag -/

/-- The error says somewhere that it arose in a function. -/
def CommandError.isTagged : CommandError → Bool
  | .inFunction _ _ => true
  | .context _ e => e.isTagged
  | _ => false

namespace CommandError

variable {α : Type}

theorem untagged_liftAccess (x : Except AccessError α) : Excludes isTagged (liftAccess x) := by
  cases x with
  | ok a => exact .ok a
  | error e => exact .error rfl

theorem untagged_liftMath (x : Except MathError α) : Excludes isTagged (liftMath x) := by
  cases x with
  | ok a => exact .ok a
  | error e => exact .error rfl

theorem untagged_liftObject (x : Except ObjectError α) : Excludes isTagged (liftObject x) := by
  cases x with
  | ok a => exact .ok a
  | error e => exact .error rfl

theorem untagged_of_isRefusal {e : CommandError} (h : e.isRefusal = true) : e.isTagged = false := by
  cases e <;> first | rfl | cases h

end CommandError

open CommandError (isTagged untagged_liftAccess untagged_liftMath untagged_liftObject)

theorem Assignment.untagged_execute (a : Assignment) (r : Registry) : Excludes isTagged (a.execute r) := by
  have hOutput : Excludes isTagged (a.output r) := by
    unfold output
    split
    · exact untagged_liftMath _
    · split
      · exact .ok _
      · exact .error rfl
  refine .bind hOutput fun result _ => ?_
  dsimp only
  split
  · exact untagged_liftAccess _
  · exact .error rfl

theorem Chain.untagged_evaluate (chain : Chain) (r : Registry) : Excludes isTagged (chain.evaluate r) := by
  have hOperand : ∀ name place, Excludes isTagged (Condition.operand r name place) := by
    intro name place
    cases place with
    | none => exact .error rfl
    | some a => exact untagged_liftAccess _
  unfold evaluate
  refine .ite (fun _ => .error rfl) fun _ => .bind (.mapM fun c _ => ?_) fun results _ => ?_
  · exact .bind (hOperand _ _) fun _ _ => .bind (hOperand _ _) fun _ _ => .ok _
  · split
    · exact .ok _
    · exact .ok _

theorem Report.untagged_reportLine (c : Report) (r : Registry) : Excludes isTagged (c.reportLine r) := by
  have hValues : ∀ slots, Excludes isTagged (values r slots) := by
    intro slots
    induction slots with
    | nil => exact .ok _
    | cons slot rest ih =>
      rw [values]
      split
      · exact .error rfl
      · exact .bind (untagged_liftAccess _) fun _ _ => .bind ih fun _ _ => .ok _
  exact .bind (hValues c.slots) fun _ _ => .ok _

namespace Call

theorem untagged_inputObject (r : Registry) (formal : String) (actual : Accessor) :
    Excludes isTagged (inputObject r formal actual) := by
  unfold inputObject
  refine .ite (fun _ => .bind (untagged_liftAccess _) fun _ _ => .ok _) fun _ => ?_
  refine .bind (untagged_liftAccess _) fun v _ => ?_
  split
  · exact .bind (untagged_liftObject _) fun _ _ => .ok _
  · exact .ok _
  · exact .ok _
  · exact .ok _

theorem untagged_addLocal (store : Store) (r : Registry) (a : Assembly) :
    Excludes isTagged (addLocal store r a) :=
  .bind (untagged_liftObject _) fun _ _ => .ok _

theorem untagged_localStore (c : Call) (f : UserFunction) (r : Registry) :
    Excludes isTagged (c.localStore f r) := by
  have hInputs : ∀ pairs store r, Excludes isTagged (addInputs pairs store r) := by
    intro pairs
    induction pairs with
    | nil => exact fun _ _ => .ok _
    | cons pair rest ih =>
      intro store r
      rw [addInputs]
      split
      · exact .error rfl
      · refine .bind (untagged_inputObject r _ _) fun copy _ => .bind (untagged_addLocal store r copy) ?_
        exact fun result _ => ih result.1 result.2
  have hLocals : ∀ locals store r, Excludes isTagged (addLocals locals store r) := by
    intro locals
    induction locals with
    | nil => exact fun _ _ => .ok _
    | cons a rest ih =>
      exact fun store r => .bind (untagged_addLocal store r a) fun result _ => ih result.1 result.2
  exact .bind (hInputs _ {} r) fun result _ => hLocals _ result.1 result.2

theorem untagged_writeOutputs (locals : Store) (function : String) (pairs : List (String × Slot))
    (r : Registry) : Excludes isTagged (writeOutputs locals function pairs r).1 := by
  have hWrite : ∀ formal slot r, Excludes isTagged (writeOutput locals function formal slot r) := by
    intro formal slot r
    unfold writeOutput
    split
    · exact .error rfl
    · exact .error rfl
    · refine .ite (fun _ => untagged_liftAccess _) fun _ => ?_
      exact .bind (untagged_liftObject _) fun _ _ => untagged_liftAccess _
  induction pairs generalizing r with
  | nil => exact .ok _
  | cons pair rest ih =>
    rw [writeOutputs]
    split
    · next e hError => exact .error (hWrite _ _ r e hError)
    · next r' _ => exact ih r'

end Call

namespace Execution

variable {ck : Checker} {stack : List String} {scope : Scope} {s : RunState} {v : ValidationError}

/-! ### Faults -/

/-- What went wrong with a command: the function in whose body the command stands, if it is not one
of the script itself, its text and its line, and the cause. -/
structure Fault where
  function : Option String
  text : String
  line : Option Nat
  cause : CommandError

/-- A fault as it is reported: the cause, in the tag of the function if there is one. -/
def Fault.report (fault : Fault) : ValidationError :=
  { cause := fault.function.elim fault.cause fun name => .inFunction name fault.cause
    text := fault.text
    line := fault.line }

theorem locate_eq_report (h : ck.within = stack.head?) (e : CommandError) (text : String)
    (line : Option Nat) : ck.locate e text line = Fault.report ⟨stack.head?, text, line, e⟩ := by
  rw [← h, Checker.locate]
  cases ck.within <;> rfl

/-- The state in which the body of a function is checked. -/
def entryState (scope : Scope) (s : RunState) (store : Store) (registry : Registry) : CheckState :=
  { workspace := { registry, scope := scope.enter store, log := s.log } }

/-- The faults that arise at a position itself, and not at one inside it. The function on top of the
stack is the one whose body is run, also where a call cannot be begun or ended; only what the check
of a body refuses stands in the function that is called. -/
inductive Position.Raises : Position → Fault → Prop
  | assignment {ck scope stack a line s e} (fails : a.execute s.registry = .error e) :
      Raises ⟨ck, scope, stack, .one (.assignment a line), s⟩ ⟨stack.head?, a.text, line, e⟩
  | report {ck scope stack c line s e} (fails : c.reportLine s.registry = .error e) :
      Raises ⟨ck, scope, stack, .one (.report c line), s⟩ ⟨stack.head?, c.text, line, e⟩
  | undecided {ck scope stack chain body otherwise line s e} (holds : chain.evaluate s.registry = .error e) :
      Raises ⟨ck, scope, stack, .one (.branch .ifThen chain body otherwise line), s⟩
        ⟨stack.head?, s!"If {chain.text}", line, e⟩
  | loopUndecided {ck scope stack chain body line n s e} (holds : chain.evaluate s.registry = .error e) :
      Raises ⟨ck, scope, stack, .loop chain body line n, s⟩ ⟨stack.head?, s!"While {chain.text}", line, e⟩
  | loopExceeded {ck scope stack chain body line s} (holds : chain.evaluate s.registry = .ok true) :
      Raises ⟨ck, scope, stack, .loop chain body line (limit ck), s⟩
        ⟨stack.head?, s!"While {chain.text}", line, exceeded ck chain⟩
  | recursive {ck scope stack c line s} (running : c.function ∈ stack) :
      Raises ⟨ck, scope, stack, .one (.call c line), s⟩
        ⟨stack.head?, c.text, line, .recursiveCall c.function⟩
  | unknown {ck scope stack c line s} (idle : c.function ∉ stack)
      (missing : ck.functions.get? c.function = none) :
      Raises ⟨ck, scope, stack, .one (.call c line), s⟩
        ⟨stack.head?, c.text, line, .undefinedFunction c.function⟩
  | inputs {ck scope stack c line f s e} (idle : c.function ∉ stack)
      (known : ck.functions.get? c.function = some f) (fails : c.localStore f s.registry = .error e) :
      Raises ⟨ck, scope, stack, .one (.call c line), s⟩ ⟨stack.head?, c.text, line, e⟩
  | refused {ck scope stack c line f s store registry d e} (idle : c.function ∉ stack)
      (known : ck.functions.get? c.function = some f)
      (copied : c.localStore f s.registry = .ok (store, registry))
      (refuses : (ck.enter c.function).RefusesAt f.body (entryState scope s store registry) d e) :
      Raises ⟨ck, scope, stack, .one (.call c line), s⟩ ⟨some c.function, d.text, d.line, e⟩
  | outputs {ck scope stack c line f s frame s₁ s₂ e} (idle : c.function ∉ stack)
      (known : ck.functions.get? c.function = some f)
      (ready : prepare ck scope c f (ck.locate · c.text line) s = (.ok frame, s₁))
      (inner : Runs (ck.enter c.function) frame.scope (c.function :: stack) (.all frame.body) s₁ (.ok (), s₂))
      (fails : (Call.writeOutputs frame.scope.store c.function (f.outputs.zip c.outputs) s₂.registry).1 =
        .error e) :
      Raises ⟨ck, scope, stack, .one (.call c line), s⟩ ⟨stack.head?, c.text, line, e⟩

/-- The run from a position on fails with the error. -/
def Position.Fails (p : Position) (v : ValidationError) : Prop :=
  ∃ s, Runs p.checker p.scope p.stack p.task p.state (.error v, s)

/-- The errors of a position are tagged with the function on top of the stack. -/
def Position.Tagged (p : Position) : Prop :=
  p.checker.within = p.stack.head?

/-- A function is not entered for two reasons: an input cannot be copied, or a command is refused. -/
theorem prepare_eq_error_iff {c : Call} {f : UserFunction} {locate : CommandError → ValidationError} :
    (prepare ck scope c f locate s).1 = .error v ↔
      (∃ e, c.localStore f s.registry = .error e ∧ v = locate e) ∨
      ∃ store registry d e, c.localStore f s.registry = .ok (store, registry) ∧
        (ck.enter c.function).RefusesAt f.body (entryState scope s store registry) d e ∧
        v = Fault.report ⟨some c.function, d.text, d.line, e⟩ := by
  rcases hCopy : c.localStore f s.registry with e | ⟨store, registry⟩
  · rw [prepare, hCopy]
    constructor
    · rintro ⟨⟩
      exact .inl ⟨e, rfl, rfl⟩
    · rintro (⟨_, ⟨⟩, rfl⟩ | ⟨_, _, _, _, ⟨⟩, _⟩)
      rfl
  · have hCheck : ((ck.enter c.function).validateAll f.body (entryState scope s store registry)).1 =
      .error v ↔ _ :=
      Checker.validateAll_eq_error_iff rfl
    have hSame : (prepare ck scope c f locate s).1 = .error v ↔
        ((ck.enter c.function).validateAll f.body (entryState scope s store registry)).1 = .error v := by
      rw [prepare, hCopy]
      dsimp only [entryState]
      rcases (ck.enter c.function).validateAll f.body _ with ⟨_ | valid, body, checked⟩
      · simp
      · simp
    rw [hSame, hCheck]
    constructor
    · rintro ⟨d, e, hRefuses, rfl⟩
      exact .inr ⟨store, registry, d, e, rfl, hRefuses, rfl⟩
    · rintro (⟨_, ⟨⟩, _⟩ | ⟨_, _, d, e, ⟨⟩, hRefuses, rfl⟩)
      exact ⟨d, e, hRefuses, rfl⟩

namespace Position

variable {p q : Position} {fault : Fault}

theorem Leads.tagged (h : p.Leads q) (hp : p.Tagged) : q.Tagged := by
  cases h with
  | called idle known ready => rfl
  | _ => exact hp

/-- What fails inside a position or after a part of it fails there as well. -/
theorem Leads.fails (h : p.Leads q) {v : ValidationError} (hq : q.Fails v) : p.Fails v := by
  obtain ⟨s', hRun⟩ := hq
  cases h with
  | first => exact ⟨s', .stop hRun⟩
  | next first => exact ⟨s', .next first hRun⟩
  | taken holds => exact ⟨s', .taken holds hRun⟩
  | passed holds => exact ⟨s', .passed holds hRun⟩
  | repeated => exact ⟨s', .repeated hRun⟩
  | round holds more => exact ⟨s', .loopFailed holds more hRun⟩
  | again holds more inner => exact ⟨s', .loopNext holds more inner hRun⟩
  | called idle known ready => exact ⟨s', .failed idle known ready hRun⟩

theorem fails_of_located (hp : p.Tagged) {e : CommandError} {text : String} {line : Option Nat} {s : RunState}
    (h : Runs p.checker p.scope p.stack p.task p.state (.error (p.checker.locate e text line), s)) :
    p.Fails (Fault.report ⟨p.stack.head?, text, line, e⟩) :=
  ⟨s, locate_eq_report hp e text line ▸ h⟩

theorem Raises.fails (h : p.Raises fault) (hp : p.Tagged) : p.Fails fault.report := by
  cases h with
  | @assignment ck scope stack a line s e fails =>
    have hRun := @Runs.assignment ck scope stack a line s
    simp only [runAssignment, fails] at hRun
    exact fails_of_located hp hRun
  | @report ck scope stack c line s e fails =>
    have hRun := @Runs.report ck scope stack c line s
    simp only [runReport, fails] at hRun
    exact fails_of_located hp hRun
  | undecided holds => exact fails_of_located hp (.undecided holds)
  | loopUndecided holds => exact fails_of_located hp (.loopUndecided holds)
  | loopExceeded holds => exact fails_of_located hp (.loopExceeded holds rfl)
  | recursive running => exact fails_of_located hp (.recursive running)
  | unknown idle missing => exact fails_of_located hp (.unknown idle missing)
  | inputs idle known fails =>
    refine fails_of_located hp (.refused idle known (Prod.ext ?_ rfl))
    exact prepare_eq_error_iff.mpr (.inl ⟨_, fails, rfl⟩)
  | refused idle known copied refuses =>
    refine ⟨_, .refused idle known (Prod.ext ?_ rfl)⟩
    exact prepare_eq_error_iff.mpr (.inr ⟨_, _, _, _, copied, refuses, rfl⟩)
  | @outputs ck scope stack c line f s frame s₁ s₂ e idle known ready inner fails =>
    have hRun := Runs.returned idle known ready inner
    rcases hWrite : Call.writeOutputs frame.scope.store c.function (f.outputs.zip c.outputs) s₂.registry
      with ⟨x, registry⟩
    rw [hWrite] at fails
    cases fails
    simp only [finish, hWrite] at hRun
    exact fails_of_located hp hRun

theorem fails_of_reaches (h : Relation.ReflTransGen Leads p q) (hp : p.Tagged) (hq : q.Raises fault) :
    p.Fails fault.report := by
  induction h using Relation.ReflTransGen.head_induction_on with
  | refl => exact hq.fails hp
  | head hLeads _ ih => exact hLeads.fails (ih (hLeads.tagged hp))

end Position

/-- A run that fails does so at one of its positions. -/
theorem Runs.exists_raises {task : Task} {out : Except ValidationError Unit × RunState}
    (h : Runs ck scope stack task s out) (hTagged : ck.within = stack.head?) (hError : out.1 = .error v) :
    ∃ p fault, Relation.ReflTransGen Position.Leads ⟨ck, scope, stack, task, s⟩ p ∧ p.Raises fault ∧
      v = fault.report := by
  -- The error of a part is that of the whole; it arose one step further on.
  have hInside : ∀ {p q : Position}, p.Leads q →
      (∃ q' fault, Relation.ReflTransGen Position.Leads q q' ∧ q'.Raises fault ∧ v = fault.report) →
      ∃ q' fault, Relation.ReflTransGen Position.Leads p q' ∧ q'.Raises fault ∧ v = fault.report := by
    rintro p q hLeads ⟨q', fault, hReaches, hRaises, hv⟩
    exact ⟨q', fault, .head hLeads hReaches, hRaises, hv⟩
  induction h with
  | nil => cases hError
  | stop first ih => exact hInside .first (ih hTagged hError)
  | next first others _ ih => exact hInside (.next first) (ih hTagged hError)
  | assignment =>
    unfold runAssignment at hError
    split at hError
    · cases hError
    · next e fails =>
        cases hError
        exact ⟨_, _, .refl, .assignment fails, locate_eq_report hTagged _ _ _⟩
  | report =>
    unfold runReport at hError
    split at hError
    · cases hError
    · next e fails =>
        cases hError
        exact ⟨_, _, .refl, .report fails, locate_eq_report hTagged _ _ _⟩
  | propagate => cases hError
  | undecided holds =>
    cases hError
    exact ⟨_, _, .refl, .undecided holds, locate_eq_report hTagged _ _ _⟩
  | taken holds inner ih => exact hInside (.taken holds) (ih hTagged hError)
  | passed holds inner ih => exact hInside (.passed holds) (ih hTagged hError)
  | repeated rounds ih => exact hInside .repeated (ih hTagged hError)
  | loopUndecided holds =>
    cases hError
    exact ⟨_, _, .refl, .loopUndecided holds, locate_eq_report hTagged _ _ _⟩
  | loopDone holds => cases hError
  | loopExceeded holds last =>
    cases hError
    subst last
    exact ⟨_, _, .refl, .loopExceeded holds, locate_eq_report hTagged _ _ _⟩
  | loopFailed holds more inner ih => exact hInside (.round holds more) (ih hTagged hError)
  | loopNext holds more inner others _ ih => exact hInside (.again holds more inner) (ih hTagged hError)
  | recursive running =>
    cases hError
    exact ⟨_, _, .refl, .recursive running, locate_eq_report hTagged _ _ _⟩
  | unknown idle missing =>
    cases hError
    exact ⟨_, _, .refl, .unknown idle missing, locate_eq_report hTagged _ _ _⟩
  | refused idle known frame =>
    cases hError
    rcases prepare_eq_error_iff.mp (congrArg Prod.fst frame) with
      ⟨e, fails, hv⟩ | ⟨store, registry, d, e, copied, refuses, hv⟩
    · exact ⟨_, _, .refl, .inputs idle known fails, hv.trans (locate_eq_report hTagged _ _ _)⟩
    · exact ⟨_, _, .refl, .refused idle known copied refuses, hv⟩
  | failed idle known ready inner ih => exact hInside (.called idle known ready) (ih rfl hError)
  | returned idle known ready inner ih =>
    unfold finish at hError
    split at hError
    · next e registry hWrite =>
        cases hError
        refine ⟨_, _, .refl, .outputs idle known ready inner ?_, locate_eq_report hTagged _ _ _⟩
        exact congrArg Prod.fst hWrite
    · cases hError

/-- The commands of a function, or of the script where there is none. -/
def home (functions : Table UserFunction) (commands : List Command) : Option String → Option (List Command)
  | none => some commands
  | some name => (functions.get? name).map UserFunction.body

/-- The sites of what there is to run. -/
def Task.sites : Task → List (String × Option Nat)
  | all cs => Command.sites cs
  | one c => Command.sites [c]
  | loop chain body line _ => (s!"While {chain.text}", line) :: Command.sites body

namespace Position

variable {p q : Position} {fault : Fault}

theorem Bounded.not_fails {ck : Checker} (hp : p.Bounded ck) {s : RunState}
    (h : Runs p.checker p.scope p.stack p.task p.state (.ok (), s)) (v : ValidationError) : ¬ p.Fails v := by
  rintro ⟨s', hFails⟩
  have hDepth : p.checker.functions.size ≤ p.checker.functions.size + p.stack.length := Nat.le_add_right _ _
  cases (h.eq_run hp.stacked hp.rounds hDepth).trans (hFails.eq_run hp.stacked hp.rounds hDepth).symm

/-- Nothing inside the position of a fault fails. -/
theorem Raises.innermost (h : p.Raises fault) {ck : Checker} (hp : p.Bounded ck) (hLeads : p.Leads q)
    (v : ValidationError) : ¬ q.Fails v := by
  -- Where a function cannot be entered, no position inside it is reached.
  have hEntered : ∀ {ck scope c f line s frame s₁ v},
      prepare ck scope c f (ck.locate · c.text line) s = (.ok frame, s₁) →
      (prepare ck scope c f (ck.locate · c.text line) s).1 ≠ .error v := by
    intro ck scope c f line s frame s₁ v hReady hError
    rw [hReady] at hError
    cases hError
  cases h with
  | assignment _ => cases hLeads
  | report _ => cases hLeads
  | undecided holds =>
    cases hLeads with
    | taken holds' | passed holds' => cases holds.symm.trans holds'
  | loopUndecided holds =>
    cases hLeads with
    | round holds' more | again holds' more inner => cases holds.symm.trans holds'
  | loopExceeded holds =>
    cases hLeads with
    | round holds' more => exact absurd rfl more
    | again holds' more inner => exact absurd rfl more
  | recursive running =>
    cases hLeads with
    | called idle known ready => exact absurd running idle
  | unknown idle missing =>
    cases hLeads with
    | called idle known ready => cases missing.symm.trans known
  | inputs idle known fails =>
    cases hLeads with
    | called idle known' ready =>
      cases known.symm.trans known'
      exact absurd (prepare_eq_error_iff.mpr (.inl ⟨_, fails, rfl⟩)) (hEntered ready)
  | refused idle known copied refuses =>
    cases hLeads with
    | called idle known' ready =>
      cases known.symm.trans known'
      exact absurd (prepare_eq_error_iff.mpr (.inr ⟨_, _, _, _, copied, refuses, rfl⟩)) (hEntered ready)
  | outputs idle known ready inner fails =>
    have hNext := hLeads.bounded hp
    cases hLeads with
    | called idle known' ready' =>
      cases known.symm.trans known'
      cases ready.symm.trans ready'
      exact hNext.not_fails inner v

theorem Raises.untagged (h : p.Raises fault) : fault.cause.isTagged = false := by
  cases h with
  | assignment fails => exact Assignment.untagged_execute _ _ _ fails
  | report fails => exact Report.untagged_reportLine _ _ _ fails
  | undecided holds | loopUndecided holds => exact Chain.untagged_evaluate _ _ _ holds
  | inputs idle known fails => exact Call.untagged_localStore _ _ _ _ fails
  | refused idle known copied refuses =>
    obtain ⟨before, after, t, -, -, hCheck⟩ := refuses
    exact CommandError.untagged_of_isRefusal ((Checker.check_ends _ _ _).failed hCheck).refusal
  | outputs idle known ready inner fails => exact Call.untagged_writeOutputs _ _ _ _ _ fails
  | _ => rfl

/-- What there is to run is a part of the function that is running, or of the script. -/
def Placed (functions : Table UserFunction) (commands : List Command) (p : Position) : Prop :=
  ∃ cs, home functions commands p.stack.head? = some cs ∧ p.task.sites ⊆ Command.sites cs

variable {ck : Checker} {commands : List Command}

theorem sites_of_prepare {scope : Scope} {c : Call} {f : UserFunction}
    {locate : CommandError → ValidationError} {s s₁ : RunState} {frame : Frame}
    (h : prepare ck scope c f locate s = (.ok frame, s₁)) : sites frame.body = sites f.body := by
  unfold prepare at h
  split at h
  · cases h
  · next store registry hCopy =>
      have hSites := (ck.enter c.function).sites_validateAll f.body (entryState scope s store registry)
      dsimp only at h
      split at h
      · cases h
      · cases h
        exact hSites

theorem Bounded.home_eq (hp : p.Bounded ck) {name : String} {f : UserFunction}
    (hKnown : p.checker.functions.get? name = some f) :
    home ck.functions commands (some name) = some f.body := by
  rw [home, ← hp.functions, hKnown]
  rfl

theorem Leads.placed (h : p.Leads q) (hBounded : p.Bounded ck) (hp : p.Placed ck.functions commands) :
    q.Placed ck.functions commands := by
  obtain ⟨cs, hHome, hSites⟩ := hp
  have hPart : q.task.sites ⊆ p.task.sites → q.stack = p.stack → q.Placed ck.functions commands :=
    fun hSub hStack => ⟨cs, hStack ▸ hHome, List.Subset.trans hSub hSites⟩
  cases h with
  | @called _ _ _ c _ f _ frame _ idle known ready =>
    refine ⟨f.body, hBounded.home_eq known, fun site (hSite : site ∈ sites frame.body) => ?_⟩
    rwa [sites_of_prepare ready] at hSite
  | first => exact hPart (sites_cons_subset _ _).1 rfl
  | next _ => exact hPart (sites_cons_subset _ _).2 rfl
  | taken _ => exact hPart (sites_branch _ _ _ _ _).1 rfl
  | passed _ => exact hPart (sites_branch _ _ _ _ _).2 rfl
  | repeated =>
    exact hPart (cons_subset.mpr ⟨mem_cons_self, (sites_branch _ _ _ _ _).1⟩) rfl
  | round _ _ => exact hPart (subset_cons_self _ _) rfl
  | again _ _ _ => exact hPart (List.Subset.refl _) rfl

theorem placed_of_reaches (h : Relation.ReflTransGen Leads p q) (hBounded : p.Bounded ck)
    (hp : p.Placed ck.functions commands) : q.Placed ck.functions commands := by
  induction h with
  | refl => exact hp
  | tail hFirst hLast ih => exact hLast.placed (bounded_of_reaches hFirst hBounded) ih

theorem Raises.site_mem (h : p.Raises fault) (hBounded : p.Bounded ck) (hp : p.Placed ck.functions commands) :
    ∃ cs, home ck.functions commands fault.function = some cs ∧
      (fault.text, fault.line) ∈ sites cs := by
  obtain ⟨cs, hHome, hSites⟩ := hp
  cases h with
  | refused idle known copied refuses => exact ⟨_, hBounded.home_eq known, refuses.site_mem⟩
  | _ => exact ⟨cs, hHome, hSites mem_cons_self⟩

end Position

/-- A run of a script fails exactly with the report of a fault that arises at one of its positions.
Nothing inside that position fails, so the text and the line are those of the innermost command that
failed, which stands in the function that the fault names or else in the script itself. The report
has the tag of that function and no other: the cause has none. -/
theorem run_reports_innermost_fault (ck : Checker) (hScript : ck.within = none) (scope : Scope)
    (commands : List Command) (s : RunState) (v : ValidationError) :
    (runAll ck scope commands s).1 = .error v ↔
      ∃ p fault, Relation.ReflTransGen Position.Leads ⟨ck, scope, [], .all commands, s⟩ p ∧
        p.Raises fault ∧ v = fault.report ∧ fault.cause.isTagged = false ∧
        (∀ q, p.Leads q → ∀ other, ¬ q.Fails other) ∧
        ∃ cs, home ck.functions commands fault.function = some cs ∧
          (fault.text, fault.line) ∈ Command.sites cs := by
  have hRun : Runs ck scope [] (.all commands) s (runAll ck scope commands s) :=
    runs_run (.nil ck) (Nat.le_add_right _ _) (Nat.zero_le _) s
  have hStart : Position.Bounded ck ⟨ck, scope, [], .all commands, s⟩ :=
    ⟨rfl, rfl, .nil ck, Nat.zero_le _⟩
  constructor
  · intro hError
    obtain ⟨p, fault, hReaches, hRaises, hv⟩ := hRun.exists_raises hScript hError
    have hBounded := Position.bounded_of_reaches hReaches hStart
    have hPlaced : p.Placed ck.functions commands :=
      Position.placed_of_reaches hReaches hStart ⟨commands, rfl, List.Subset.refl _⟩
    exact ⟨p, fault, hReaches, hRaises, hv, hRaises.untagged, fun q hq => hRaises.innermost hBounded hq,
      hRaises.site_mem hBounded hPlaced⟩
  · rintro ⟨p, fault, hReaches, hRaises, rfl, -⟩
    obtain ⟨s', hFails⟩ := Position.fails_of_reaches hReaches hScript hRaises
    have hSame : _ = runAll ck scope commands s :=
      hFails.eq_run (.nil ck) (Nat.zero_le _) (Nat.le_add_right ck.functions.size _)
    exact (congrArg Prod.fst hSame).symm

/-- The text of a report and the function in its tag. -/
def reportedAs : Except ValidationError Unit → Option (String × String)
  | .error ⟨.inFunction name _, text, _⟩ => some (text, name)
  | _ => none

/-- A report with a tag is that of a fault in the function of the tag. -/
theorem Fault.function_of_reportedAs {fault : Fault} (hCause : fault.cause.isTagged = false)
    {text name : String} (h : reportedAs (.error fault.report) = some (text, name)) :
    fault.text = text ∧ fault.function = some name := by
  obtain ⟨function, place, line, cause⟩ := fault
  cases function with
  | none =>
    cases cause with
    | inFunction _ _ => cases hCause
    | _ => cases h
  | some known =>
    cases h
    exact ⟨rfl, rfl⟩

/-- Of two functions that call each other, the second is not let into the first again. The error is
that of the call in the second, which is told from the call in the script by its tag. -/
theorem run_reports_innermost_fault_mutual_calls :
    ∃ v p fault, (runAll mutualCalls.checker mutualCalls.scope [.call (.make "A" [] []) none]
        mutualCalls.state).1 = .error v ∧
      Relation.ReflTransGen Position.Leads mutualCalls p ∧ p.Raises fault ∧ v = fault.report ∧
      fault.text = "A()" ∧ fault.function = some "B" := by
  have hReported : reportedAs (runAll mutualCalls.checker mutualCalls.scope [.call (.make "A" [] []) none]
      mutualCalls.state).1 = some ("A()", "B") := by decide +kernel
  rcases hRun : (runAll mutualCalls.checker mutualCalls.scope [.call (.make "A" [] []) none]
      mutualCalls.state).1 with v | _
  · obtain ⟨p, fault, hReaches, hRaises, rfl, hCause, -⟩ :=
      (run_reports_innermost_fault mutualCalls.checker rfl _ _ _ v).mp hRun
    rw [hRun] at hReported
    exact ⟨_, p, fault, rfl, hReaches, hRaises, rfl, Fault.function_of_reportedAs hCause hReported⟩
  · rw [hRun] at hReported
    cases hReported

end Execution

end Mission
