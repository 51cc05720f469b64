import Mission.Execution
import Mission.Proofs.Accessor.Writing
import Mission.Proofs.Expr.Failure

/-! Commands whose accessors are all there and bound. Reading and writing through a bound accessor
can fail for many reasons, but never because it is not bound, and so it is with all that is built on
accessors: expressions, conditions, assignments, reports and the arguments of calls. -/
namespace Mission

open Outcome CommandError List AccessError Accessor

/-! ### Errors that a check should rule out -/

/-- Whether the error is that an accessor has not been bound. -/
def AccessError.isUnbound : AccessError → Bool
  | context _ e => e.isUnbound
  | notBound _ => true
  | _ => false

/-- Whether the error is that an equation or one of its leaves is not there or not bound. -/
def MathError.isUnbound : MathError → Bool
  | context _ e => e.isUnbound
  | notConstructed _ | missingAccessor _ => true
  | access e => e.isUnbound
  | _ => false

/-- Whether the error breaks what a check should have ensured of the command it arose in: that the
command has all its accessors, that they are bound, and that its conditions are joined by as many
operators as they need. Errors of commands inside a function are errors of those commands. -/
def CommandError.breaksInvariant : CommandError → Bool
  | context _ e => e.breaksInvariant
  | missingAccessor _ _ | logicalOperatorCount _ _ => true
  | access e => e.isUnbound
  | math e => e.isUnbound
  | _ => false

section Lifting

variable {α : Type}

/-- Errors of objects say nothing of accessors. -/
theorem excludes_liftObject (x : Except ObjectError α) : Excludes isUnbound (liftObject x) := by
  cases x with
  | ok a => exact .ok a
  | error e => exact .error rfl

theorem excludes_liftType (x : Except TypeError α) : Excludes isUnbound (liftType x) := by
  cases x with
  | ok a => exact .ok a
  | error e => exact .error rfl

/-- An equation finds an accessor unbound only where the accessor says so. -/
theorem MathError.excludes_liftAccess {x : Except AccessError α} (h : Excludes AccessError.isUnbound x) :
    Excludes MathError.isUnbound (liftAccess x) := by
  cases x with
  | ok a => exact .ok a
  | error e => exact .error (h e rfl)

theorem MathError.excludes_liftObject (x : Except ObjectError α) :
    Excludes MathError.isUnbound (liftObject x) := by
  cases x with
  | ok a => exact .ok a
  | error e => exact .error rfl

namespace CommandError

theorem excludes_liftAccess {x : Except AccessError α} (h : Excludes isUnbound x) :
    Excludes breaksInvariant (liftAccess x) := by
  cases x with
  | ok a => exact .ok a
  | error e => exact .error (h e rfl)

theorem excludes_liftMath {x : Except MathError α} (h : Excludes MathError.isUnbound x) :
    Excludes breaksInvariant (liftMath x) := by
  cases x with
  | ok a => exact .ok a
  | error e => exact .error (h e rfl)

theorem excludes_liftObject (x : Except ObjectError α) : Excludes breaksInvariant (liftObject x) := by
  cases x with
  | ok a => exact .ok a
  | error e => exact .error rfl

end CommandError

end Lifting

/-! ### Accessors -/

namespace Accessor

variable {r : Registry} {a : Accessor}

/-- What is bound has its target. -/
theorem boundTo_of_isSome {α : Type} {target : Option α} (h : target.isSome = true) (d : String) :
    Excludes isUnbound (boundTo d target) := by
  obtain ⟨a, rfl⟩ := Option.isSome_iff_exists.mp h
  exact .ok a

/-- An accessor of the wrong kind is refused as such, bound or not. -/
theorem excludes_require (a : Accessor) (operation : String) (allowed : AccessorKind → Bool) :
    Excludes isUnbound (a.require operation allowed) :=
  .ite (fun _ => .ok ()) fun _ => .error rfl

/-- An index fails for its value, unless it cannot be read. -/
theorem excludes_indexOf {index : Accessor} {read : Except AccessError Value}
    (h : Excludes isUnbound read) : Excludes isUnbound (indexOf index read) := by
  refine .bind (index.excludes_require _ _) fun _ _ => .bind h fun v _ => .bind (excludes_liftType _) ?_
  exact fun x _ => .ite (fun _ => .error rfl) fun _ => .ok _

variable (h : a.isBound = true)
include h

/-- A bound accessor is read through bound accessors: its indices are bound too. -/
theorem excludes_evaluate : Excludes isUnbound (a.evaluate r) := by
  induction a with
  | number d x | string d text | boolean d flag | onOff d flag => exact .ok _
  | property d p => exact .bind (boundTo_of_isSome h d) fun _ _ => excludes_liftObject _
  | whole d k target =>
    refine .bind (boundTo_of_isSome h d) fun id _ => ?_
    exact .ite (fun _ => .ok _) fun _ => excludes_liftObject _
  | element d name array row column ihRow ihColumn =>
    obtain ⟨hArray, hRow, hColumn⟩ : array.isSome = true ∧ row.isBound = true ∧ column.isBound = true := by
      simpa [isBound, and_assoc] using h
    refine .bind (boundTo_of_isSome hArray d) fun id _ => ?_
    refine .bind (excludes_indexOf (ihRow hRow)) fun i _ => ?_
    refine .bind (excludes_indexOf (ihColumn hColumn)) fun j _ => ?_
    exact .bind (excludes_liftObject _) fun _ _ => .ok _

theorem excludes_evaluateReal : Excludes isUnbound (a.evaluateReal r) :=
  .bind (a.excludes_require _ _) fun _ _ => .bind (excludes_evaluate h) fun _ _ => excludes_liftType _

theorem excludes_evaluateMatrix :
    Excludes isUnbound (a.evaluateMatrix r) :=
  .bind (a.excludes_require _ _) fun _ _ => .bind (excludes_evaluate h) fun _ _ => excludes_liftType _

theorem excludes_evaluateString :
    Excludes isUnbound (a.evaluateString r) := by
  refine .bind (a.excludes_require _ _) fun _ _ => .bind (excludes_evaluate h) fun v _ => ?_
  split
  · exact .ok _
  · exact .ok _
  · exact excludes_liftType _

theorem excludes_evaluateObject : Excludes isUnbound a.evaluateObject := by
  cases a with
  | whole d k target => exact boundTo_of_isSome h d
  | _ => exact .error rfl

/-- What a bound accessor refuses is the value. -/
theorem excludes_setValue (v : Value) :
    Excludes isUnbound (a.setValue r v) := by
  cases a with
  | property d p => exact .bind (boundTo_of_isSome h d) fun _ _ => excludes_liftObject _
  | whole d k target =>
    refine .bind (boundTo_of_isSome h d) fun id _ => ?_
    exact .ite (fun _ => .error rfl) fun _ => excludes_liftObject _
  | element d name array row column =>
    obtain ⟨hArray, hRow, hColumn⟩ : array.isSome = true ∧ row.isBound = true ∧ column.isBound = true := by
      simpa [isBound, and_assoc] using h
    refine .bind (boundTo_of_isSome hArray d) fun id _ => ?_
    refine .bind (excludes_indexOf (excludes_evaluate hRow)) fun i _ => ?_
    refine .bind (excludes_indexOf (excludes_evaluate hColumn)) fun j _ => ?_
    exact .bind (excludes_liftType _) fun _ _ => excludes_liftObject _
  | _ => exact .error rfl

theorem excludes_setReal (x : Float) :
    Excludes isUnbound (a.setReal r x) := by
  refine .bind (a.excludes_require _ _) fun _ _ => ?_
  split
  · exact .error rfl
  · exact excludes_setValue h _
  · exact excludes_setValue h _

/-- Copying an object fails for the kinds and types of the two alone. -/
theorem excludes_setObject (source : ObjectId) :
    Excludes isUnbound (a.setObject r source) := by
  unfold setObject
  split
  · next d target =>
      refine .bind (boundTo_of_isSome h d) fun target _ => .ite (fun _ => .ok _) fun _ => ?_
      exact .ite (fun _ => .error rfl) fun _ => .ok _
  · exact .error rfl

end Accessor

/-! ### Expressions and equations -/

/-- Operands that do not fit have all been read. -/
theorem MathError.isUnbound_of_isOperand {e : MathError} (h : e.isOperand = true) :
    e.isUnbound = false := by
  cases e <;> first | rfl | cases h

namespace Expr

variable {r : Registry} {b : Bindings} {e : Expr}

/-- Every leaf has a bound accessor. -/
def Bound (b : Bindings) (e : Expr) : Prop :=
  ∀ name ∈ e.leaves, ∃ a, b.get? name = some (some a) ∧ a.isBound = true

theorem excludes_leafType (name : String) (a : Accessor) :
    Excludes MathError.isUnbound (leafType r name a) :=
  .ite (fun _ => .ok _) fun _ => .ite (fun _ => .ok _) fun _ => .ite (fun _ => .ok _) fun _ =>
    .ite (fun _ => .ok _) fun _ => .error rfl

theorem leaf_of_get? {name : String} {a : Accessor} (h : b.get? name = some (some a)) :
    leaf b name = .ok a := by
  rw [leaf, h]

/-- The shape of a bound leaf can be asked for. -/
theorem excludes_leafShape {name : String} {a : Accessor} (hLeaf : b.get? name = some (some a))
    (h : a.isBound = true) : Excludes MathError.isUnbound (leafShape r b name) := by
  rw [leafShape, leaf_of_get? hLeaf]
  refine .bind (.ok a) ?_
  rintro _ ⟨⟩
  refine .bind (excludes_leafType name a) fun t _ => ?_
  split
  · exact .bind (MathError.excludes_liftAccess (excludes_evaluateMatrix h)) fun _ _ => .ok _
  · exact .ok _
  · exact .ok _
  · exact .ok _

/-- The value of a bound leaf can be read. -/
theorem excludes_leafValue {name : String} {a : Accessor} (hLeaf : b.get? name = some (some a))
    (h : a.isBound = true) : Excludes MathError.isUnbound (leafValue r b name) := by
  rw [leafValue, leaf_of_get? hLeaf]
  refine .bind (.ok a) ?_
  rintro _ ⟨⟩
  refine .bind (excludes_leafType name a) fun t _ => ?_
  split
  · exact .bind (MathError.excludes_liftAccess (excludes_evaluateReal h)) fun _ _ => .ok _
  · exact .bind (MathError.excludes_liftAccess (excludes_evaluateMatrix h)) fun _ _ => .ok _
  · exact .bind (MathError.excludes_liftAccess (excludes_evaluateObject h)) fun _ _ => .ok _
  · exact .bind (MathError.excludes_liftAccess (excludes_evaluateString h)) fun _ _ => .ok _

/-- The shape of an expression is refused for its operands alone. -/
theorem excludes_shape (h : e.Bound b) : Excludes MathError.isUnbound (e.shape r b) := by
  intro error hError
  rcases shape_eq_error hError with hOperand | ⟨name, hName, hLeaf⟩
  · exact MathError.isUnbound_of_isOperand hOperand
  · obtain ⟨a, ha, hBound⟩ := h name hName
    exact excludes_leafShape ha hBound error hLeaf

/-- An expression whose leaves are bound fails for its operands alone. -/
theorem excludes_evaluate (h : e.Bound b) : Excludes MathError.isUnbound (e.evaluate r b) := by
  intro error hError
  rcases evaluate_eq_error hError with hOperand | ⟨name, hName, hLeaf⟩
  · exact MathError.isUnbound_of_isOperand hOperand
  · obtain ⟨a, ha, hBound⟩ := h name hName
    exact excludes_leafValue ha hBound error hLeaf

end Expr

namespace Equation

variable {r : Registry}

theorem excludes_hold (v : Result) : Excludes MathError.isUnbound (hold r v) := by
  cases v with
  | real x => exact .ok _
  | string text => exact .ok _
  | matrix m => exact .bind (MathError.excludes_liftObject _) fun _ _ => .ok _
  | object id => exact .ok _

/-- What holds a result is bound. -/
theorem isBound_of_hold {v : Result} {a : Accessor} {r' : Registry} (h : hold r v = .ok (a, r')) :
    a.isBound = true := by
  cases v with
  | real x =>
    cases h
    rfl
  | string text =>
    cases h
    rfl
  | matrix m =>
    obtain ⟨_, -, h⟩ := bind_eq_ok.mp h
    cases h
    rfl
  | object id =>
    cases h
    rfl

/-- An equation that has been built and bound fails for its values. -/
theorem excludes_run {eq : Equation} {f : Formula} (hFormula : eq.formula = some f)
    (h : f.expr.Bound eq.bindings) (target : Option Accessor) :
    Excludes MathError.isUnbound (eq.run r target) := by
  have hRequire : eq.require = .ok f := by rw [require, hFormula]
  unfold run
  rw [hRequire]
  refine .bind (.ok f) ?_
  rintro _ ⟨⟩
  refine .bind (Expr.excludes_shape h) fun s _ => ?_
  have hRest : Excludes MathError.isUnbound (f.expr.evaluate r eq.bindings >>= hold r) :=
    .bind (Expr.excludes_evaluate h) fun v _ => excludes_hold v
  cases target with
  | none => exact hRest
  | some target => exact .ite (fun _ => .error rfl) fun _ => hRest

/-- The result of an equation can be assigned: its accessor is bound. -/
theorem isBound_of_run {eq : Equation} {target : Option Accessor} {a : Accessor} {r' : Registry}
    (h : eq.run r target = .ok (a, r')) : a.isBound = true := by
  obtain ⟨f, -, h⟩ := bind_eq_ok.mp h
  obtain ⟨s, -, h⟩ := bind_eq_ok.mp h
  cases target with
  | none =>
    obtain ⟨v, -, h⟩ := bind_eq_ok.mp h
    exact isBound_of_hold h
  | some target =>
    dsimp only at h
    split at h
    · cases h
    · obtain ⟨v, -, h⟩ := bind_eq_ok.mp h
      exact isBound_of_hold h

end Equation

/-! ### Commands -/

/-- A place of a command that is given an accessor, and a bound one. -/
def Accessor.Held (place : Option Accessor) : Prop :=
  ∃ a, place = some a ∧ a.isBound = true

namespace Assignment

/-- The target and the right-hand side have bound accessors. -/
structure Ready (a : Assignment) : Prop where
  target : Accessor.Held a.target
  source : a.isEquation = false → Accessor.Held a.source
  leaves : ∀ f, a.equation.formula = some f → f.expr.Bound a.equation.bindings

variable {a : Assignment} {r : Registry}

/-- Between bound accessors only the value can be refused. -/
theorem excludes_transfer {target source : Accessor} (hTarget : target.isBound = true)
    (hSource : source.isBound = true) : Excludes isUnbound (transfer r target source) := by
  unfold transfer
  refine .ite (fun _ => ?_) fun _ => .ite (fun _ => ?_) fun _ => ?_
  · exact .bind (excludes_evaluateObject hSource) fun id _ => excludes_setObject hTarget id
  · exact .bind (excludes_evaluateReal hSource) fun x _ => excludes_setReal hTarget x
  · exact .bind (excludes_evaluate hSource) fun v _ => excludes_setValue hTarget v

theorem excludes_output (h : a.Ready) : Excludes breaksInvariant (a.output r) := by
  unfold output
  refine .ite (fun hEquation => ?_) fun hSingle => ?_
  · obtain ⟨f, hFormula⟩ := Option.isSome_iff_exists.mp hEquation
    exact excludes_liftMath (Equation.excludes_run hFormula (h.leaves f hFormula) a.target)
  · obtain ⟨source, hSource, -⟩ := h.source (by simpa using hSingle)
    rw [hSource]
    exact .ok _

theorem isBound_of_output (h : a.Ready) {source : Accessor} {r' : Registry}
    (hOutput : a.output r = .ok (source, r')) : source.isBound = true := by
  unfold output at hOutput
  split at hOutput
  · exact Equation.isBound_of_run (liftMath_eq_ok.mp hOutput)
  · next hSingle =>
      obtain ⟨held, hSource, hBound⟩ := h.source (by simpa using hSingle)
      rw [hSource] at hOutput
      cases hOutput
      exact hBound

/-- An assignment that is ready never breaks what its check should ensure. -/
theorem excludes_execute (h : a.Ready) : Excludes breaksInvariant (a.execute r) := by
  obtain ⟨target, hTarget, hBound⟩ := h.target
  refine .bind (excludes_output h) fun (source, r') hOutput => ?_
  rw [hTarget]
  exact excludes_liftAccess (excludes_transfer hBound (isBound_of_output h hOutput))

end Assignment

namespace Chain

variable {chain : Chain} {r : Registry}

/-- A side of a condition that has its accessor can be read. -/
theorem excludes_operand {place : Option Accessor} (h : Accessor.Held place) (name : String) :
    Excludes breaksInvariant (Condition.operand r name place) := by
  obtain ⟨a, rfl, hBound⟩ := h
  exact excludes_liftAccess (excludes_evaluateReal hBound)

/-- Conditions that are all bound, and joined as they should be, are decided. -/
theorem excludes_evaluate (hBalanced : chain.isBalanced = true)
    (h : ∀ c ∈ chain.conditions, Accessor.Held c.left ∧ Accessor.Held c.right) :
    Excludes breaksInvariant (chain.evaluate r) := by
  unfold evaluate
  rw [hBalanced]
  refine .bind (.mapM fun c hc => ?_) fun results _ => ?_
  · refine .bind (excludes_operand (h c hc).1 c.lhs) fun x _ => ?_
    exact .bind (excludes_operand (h c hc).2 c.rhs) fun y _ => .ok _
  · split
    · exact .ok _
    · exact .ok _

/-- Too few or too many operators are found before any condition is read. -/
theorem evaluate_of_not_balanced (h : chain.isBalanced = false) (r : Registry) :
    chain.evaluate r =
      .error (.logicalOperatorCount chain.conditions.length chain.operators.length) := by
  rw [evaluate, h]
  rfl

end Chain

/-- A report reads bound accessors, one for each value of the line. -/
theorem Report.excludes_reportLine {c : Report} {r : Registry}
    (h : ∀ slot ∈ c.slots, Accessor.Held slot.accessor) :
    Excludes breaksInvariant (c.reportLine r) := by
  have hValues : ∀ slots : List Slot, (∀ slot ∈ slots, Accessor.Held slot.accessor) →
      Excludes breaksInvariant (values r slots) := by
    intro slots
    induction slots with
    | nil => exact fun _ => .ok _
    | cons slot rest ih =>
      intro hSlots
      obtain ⟨a, ha, hBound⟩ := hSlots slot mem_cons_self
      rw [values, ha]
      refine .bind (excludes_liftAccess (excludes_evaluate hBound)) fun v _ => ?_
      exact .bind (ih fun other hOther => hSlots other (mem_cons_of_mem _ hOther)) fun _ _ => .ok _
  exact .bind (hValues c.slots h) fun _ _ => .ok _

namespace Call

variable {r : Registry}
variable {formal function : String} {pairs : List (String × Slot)} {locals : Store}

/-- An input that is bound can be copied. -/
theorem excludes_inputObject {actual : Accessor} (h : actual.isBound = true) :
    Excludes breaksInvariant (inputObject r formal actual) := by
  unfold inputObject
  refine .ite (fun _ => ?_) fun _ => ?_
  · exact .bind (excludes_liftAccess (excludes_evaluateObject h)) fun _ _ => .ok _
  · refine .bind (excludes_liftAccess (excludes_evaluate h)) fun v _ => ?_
    split
    · exact .bind (CommandError.excludes_liftObject _) fun _ _ => .ok _
    · exact .ok _
    · exact .ok _
    · exact .ok _

theorem excludes_addLocal (store : Store) (a : Assembly) :
    Excludes breaksInvariant (addLocal store r a) :=
  .bind (CommandError.excludes_liftObject _) fun _ _ => .ok _

/-- All inputs are copied under the names of the function. -/
theorem excludes_addInputs (h : ∀ pair ∈ pairs, Accessor.Held pair.2.accessor) (store : Store)
    (r : Registry) : Excludes breaksInvariant (addInputs pairs store r) := by
  induction pairs generalizing store r with
  | nil => exact .ok _
  | cons pair rest ih =>
    obtain ⟨formal, slot⟩ := pair
    obtain ⟨a, ha, hBound⟩ := h _ mem_cons_self
    rw [addInputs, ha]
    refine .bind (excludes_inputObject hBound) fun copy _ => .bind (excludes_addLocal store copy) ?_
    exact fun (store, r) _ => ih (fun other hOther => h other (mem_cons_of_mem _ hOther)) store r

/-- A call sets up its objects from inputs that are bound. -/
theorem excludes_localStore {c : Call} (h : ∀ slot ∈ c.inputs, Accessor.Held slot.accessor)
    (f : UserFunction) : Excludes breaksInvariant (c.localStore f r) := by
  have hLocals : ∀ (locals : List Assembly) (store : Store) (r : Registry),
      Excludes breaksInvariant (addLocals locals store r) := by
    intro locals
    induction locals with
    | nil => exact fun _ _ => .ok _
    | cons a rest ih => exact fun store r => .bind (excludes_addLocal store a) fun (store, r) _ => ih store r
  refine .bind (excludes_addInputs (fun pair hPair => ?_) {} r) fun (store, r) _ => hLocals _ store r
  exact h pair.2 (of_mem_zip hPair).2

/-- An output is written to a bound accessor of the caller. -/
theorem excludes_writeOutput {slot : Slot} (h : Accessor.Held slot.accessor) :
    Excludes breaksInvariant (writeOutput locals function formal slot r) := by
  obtain ⟨target, hTarget, hBound⟩ := h
  unfold writeOutput
  rw [hTarget]
  split
  · next hNone => cases hNone
  · exact .error rfl
  · next target' id hSame hFind =>
      cases hSame
      refine .ite (fun _ => ?_) fun _ => ?_
      · exact excludes_liftAccess (excludes_setObject hBound id)
      · refine .bind (CommandError.excludes_liftObject _) fun v _ => ?_
        exact excludes_liftAccess (excludes_setValue hBound v)

/-- Outputs are written one after the other, up to the first that is refused. -/
theorem excludes_writeOutputs (h : ∀ pair ∈ pairs, Accessor.Held pair.2.accessor) (r : Registry) :
    Excludes breaksInvariant (writeOutputs locals function pairs r).1 := by
  induction pairs generalizing r with
  | nil => exact .ok _
  | cons pair rest ih =>
    obtain ⟨formal, slot⟩ := pair
    have hFirst : Excludes breaksInvariant (writeOutput locals function formal slot r) :=
      excludes_writeOutput (h _ mem_cons_self)
    rw [writeOutputs]
    split
    · next e hError => exact .error (hFirst e hError)
    · next r' _ => exact ih (fun other hOther => h other (mem_cons_of_mem _ hOther)) r'

end Call

end Mission
