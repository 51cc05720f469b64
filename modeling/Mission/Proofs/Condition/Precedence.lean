import Mathlib.Data.List.Basic
import Mission.Condition.Basic
import Mission.Proofs.Outcome

/-! The value of a chain of conditions. A chain is cut at its `|` into runs, inside which all
operators are `&`, and it holds if all conditions of some run hold. Every operand is evaluated, and
the first one without a value decides the error. A chain that is put together condition by condition
has a value wherever its operands have; one that is edited piece by piece may have none. -/
namespace Mission.Chain

open List Outcome

variable {chain : Chain} {r : Registry}
variable {c : Condition} {operand : String × Option Accessor} {e : CommandError} {conditions : List Condition}
  {α : Type}

/-! ### Runs -/

/-- The conditions of the chain are those of the runs one after the other. Inside a run all
operators are `&`, and between two runs there is a `|`. -/
structure SplitsInto (chain : Chain) (runs : List (List Condition)) : Prop where
  conditions : chain.conditions = runs.flatten
  filled : ∀ run ∈ runs, run ≠ []
  operators : chain.operators =
    [LogicalOperator.or].intercalate (runs.map fun run => List.replicate (run.length - 1) .and)

/-- The runs of conditions that are joined by operators. -/
def runsOf : List Condition → List LogicalOperator → List (List Condition)
  | [], _ => []
  | c :: rest, .and :: operators =>
    match runsOf rest operators with
    | [] => [[c]]
    | run :: runs => (c :: run) :: runs
  | c :: rest, .or :: operators => [c] :: runsOf rest operators
  | c :: _, [] => [[c]]

example (a b c : Condition) : runsOf [a, b, c] [.and, .or] = [[a, b], [c]] := rfl

theorem splitsInto_runsOf (conditions : List Condition) (operators : List LogicalOperator)
    (h : conditions.length = operators.length + 1) :
    SplitsInto ⟨conditions, operators⟩ (runsOf conditions operators) := by
  induction operators generalizing conditions with
  | nil =>
    obtain ⟨c, rfl⟩ := length_eq_one_iff.mp h
    exact ⟨rfl, by simp [runsOf], rfl⟩
  | cons operator operators ih =>
    obtain ⟨c, rest, rfl⟩ := exists_cons_of_length_eq_add_one h
    have hRest := ih rest (by simpa using h)
    obtain ⟨hConditions, hFilled, hOperators⟩ := hRest
    cases hRuns : runsOf rest operators with
    | nil =>
      rw [hRuns] at hConditions
      simp only at hConditions
      simp [hConditions] at h
    | cons run runs =>
      rw [hRuns] at hConditions hFilled hOperators
      have hRun : run ≠ [] := hFilled run mem_cons_self
      cases operator with
      | or =>
        simp only [runsOf, hRuns]
        refine ⟨by simpa using hConditions, by simpa using hFilled, ?_⟩
        simp only at hOperators
        simp [hOperators]
      | and =>
        simp only [runsOf, hRuns]
        have hMore : ∀ run ∈ runs, run ≠ [] := fun run h => hFilled run (mem_cons_of_mem _ h)
        refine ⟨by simpa using hConditions, by simpa using hMore, ?_⟩
        obtain ⟨d, more, rfl⟩ := exists_cons_of_ne_nil hRun
        simp only at hOperators
        rw [hOperators]
        cases runs <;> simp [replicate_succ]

/-! ### Values -/

/-- Whether the condition has a value, and holds. -/
def holds (r : Registry) (c : Condition) : Bool :=
  (c.evaluate r).toOption.getD false

theorem holds_eq_true : holds r c = true ↔ c.evaluate r = .ok true := by
  unfold holds
  cases c.evaluate r <;> simp [Except.toOption]

/-- Conditions that are joined by `&` count as one. -/
theorem combine_and (result : Bool) (run : List Condition) (rest : List (LogicalOperator × Bool)) :
    combine result ((List.replicate run.length .and).zip (run.map (holds r)) ++ rest) =
      combine (result && run.all (holds r)) rest := by
  induction run generalizing result with
  | nil => simp
  | cons c run ih => simp [replicate_succ, combine, ih, Bool.and_assoc]

/-- The value of conditions that are cut into runs: some run holds as a whole. -/
theorem combine_runs (c : Condition) (run : List Condition) (runs : List (List Condition))
    (hFilled : ∀ next ∈ runs, next ≠ []) :
    combine (holds r c) (([LogicalOperator.or].intercalate (((c :: run) :: runs).map fun run =>
        List.replicate (run.length - 1) .and)).zip ((run ++ runs.flatten).map (holds r))) =
      ((c :: run) :: runs).any fun run => run.all (holds r) := by
  induction runs generalizing run c with
  | nil => simpa [combine] using combine_and (holds r c) run []
  | cons next runs ih =>
    obtain ⟨d, more, rfl⟩ := exists_cons_of_ne_nil (hFilled next mem_cons_self)
    have hNext := ih d more fun next h => hFilled next (mem_cons_of_mem _ h)
    simp only [map_cons, flatten_cons, map_append, length_cons, Nat.add_sub_cancel,
      cons_append, any_cons, all_cons] at hNext ⊢
    rw [intercalate_cons_cons, append_assoc, zip_append (by simp), combine_and]
    simp only [singleton_append, zip_cons_cons, combine, hNext]

/-! ### Operands -/

/-- The operands from left to right. -/
def operands (conditions : List Condition) : List (String × Option Accessor) :=
  conditions.flatMap fun c => [(c.lhs, c.left), (c.rhs, c.right)]

/-- The error of an operand without a value. -/
def failure (r : Registry) (operand : String × Option Accessor) : Option CommandError :=
  match Condition.operand r operand.1 operand.2 with
  | .ok _ => none
  | .error e => some e

theorem failure_eq_some :
    failure r operand = some e ↔ Condition.operand r operand.1 operand.2 = .error e := by
  unfold failure
  cases Condition.operand r operand.1 operand.2 <;> simp

theorem failure_eq_none :
    failure r operand = none ↔ ∃ x, Condition.operand r operand.1 operand.2 = .ok x := by
  unfold failure
  cases Condition.operand r operand.1 operand.2 <;> simp

theorem evaluate_eq_error : c.evaluate r = .error e ↔ (operands [c]).findSome? (failure r) = some e := by
  unfold Condition.evaluate
  simp only [operands, List.flatMap_cons, List.flatMap_nil, List.append_nil, List.findSome?_cons,
    List.findSome?_nil]
  cases hLeft : failure r (c.lhs, c.left) with
  | some e' => simp [failure_eq_some.mp hLeft, Bind.bind, Except.bind]
  | none =>
    obtain ⟨x, hx⟩ := failure_eq_none.mp hLeft
    cases hFails : failure r (c.rhs, c.right) with
    | some e' => simp [hx, failure_eq_some.mp hFails, Bind.bind, Except.bind]
    | none =>
      obtain ⟨y, hy⟩ := failure_eq_none.mp hFails
      simp [hx, hy, Bind.bind, Except.bind, pure, Except.pure]

theorem evaluate_eq_ok : c.evaluate r = .ok (holds r c) ↔ (operands [c]).findSome? (failure r) = none := by
  have hError {e : CommandError} := evaluate_eq_error (r := r) (c := c) (e := e)
  unfold holds
  cases hFails : (operands [c]).findSome? (failure r) with
  | some e => simp [hError.mpr hFails]
  | none =>
    cases hValue : c.evaluate r with
    | ok b => simp [Except.toOption]
    | error e => simp [hError.mp hValue] at hFails

theorem operands_cons (c : Condition) (conditions : List Condition) :
    operands (c :: conditions) = operands [c] ++ operands conditions := by
  simp [operands]

/-- The first operand without a value decides the error. -/
theorem mapM_evaluate_of_failure (h : (operands conditions).findSome? (failure r) = some e) :
    (conditions.mapM fun c => c.evaluate r) = .error e := by
  induction conditions with
  | nil => simp [operands] at h
  | cons c conditions ih =>
    rw [operands_cons, List.findSome?_append] at h
    rw [mapM_cons]
    cases hFirst : (operands [c]).findSome? (failure r) with
    | some e' =>
      rw [hFirst, Option.some_or, Option.some.injEq] at h
      rw [evaluate_eq_error.mpr hFirst, h]
      rfl
    | none =>
      rw [hFirst, Option.none_or] at h
      rw [evaluate_eq_ok.mpr hFirst, ih h]
      rfl

theorem mapM_evaluate_of_none (h : (operands conditions).findSome? (failure r) = none) :
    (conditions.mapM fun c => c.evaluate r) = .ok (conditions.map (holds r)) := by
  induction conditions with
  | nil => rfl
  | cons c conditions ih =>
    rw [operands_cons, List.findSome?_append, Option.or_eq_none_iff] at h
    rw [mapM_cons, evaluate_eq_ok.mpr h.1, ih h.2]
    rfl

theorem failure_ne_count (n k : Nat) : failure r operand ≠ some (.logicalOperatorCount n k) := by
  rw [Ne, failure_eq_some]
  cases operand.2 with
  | none => simp [Condition.operand]
  | some a => cases h : a.evaluateReal r <;> simp [Condition.operand, CommandError.liftAccess, h]

/-! ### The value of a chain -/

theorem isBalanced_eq_true :
    chain.isBalanced = true ↔ chain.conditions ≠ [] ∧ chain.operators.length =
      chain.conditions.length - 1 := by
  unfold isBalanced
  cases chain.conditions with
  | nil => simp
  | cons c rest => simp [eq_comm]

theorem evaluate_of_balanced (hBalanced : chain.isBalanced = true) :
    chain.evaluate r = (chain.conditions.mapM fun c => c.evaluate r) >>= fun
      | [] => .ok false
      | first :: results => .ok (combine first (chain.operators.zip results)) := by
  simp only [evaluate, hBalanced, Bool.not_true, Bool.false_eq_true, if_false]
  rfl

theorem evaluate_of_failure (hBalanced : chain.isBalanced = true) {e : CommandError}
    (h : (operands chain.conditions).findSome? (failure r) = some e) : chain.evaluate r = .error e := by
  rw [evaluate_of_balanced hBalanced, mapM_evaluate_of_failure h]
  rfl

theorem evaluate_of_runs {runs : List (List Condition)} (hBalanced : chain.isBalanced = true)
    (hRuns : chain.SplitsInto runs) (h : (operands chain.conditions).findSome? (failure r) = none) :
    chain.evaluate r = .ok (runs.any fun run => run.all (holds r)) := by
  obtain ⟨hConditions, hFilled, hOperators⟩ := hRuns
  rw [evaluate_of_balanced hBalanced, mapM_evaluate_of_none h, hConditions, hOperators]
  cases runs with
  | nil => rfl
  | cons run runs =>
    obtain ⟨c, rest, rfl⟩ := exists_cons_of_ne_nil (hFilled run mem_cons_self)
    rw [← combine_runs c rest runs fun next h => hFilled next (mem_cons_of_mem _ h)]
    rfl

theorem evaluate_eq_count (n k : Nat) : chain.evaluate r = .error (.logicalOperatorCount n k) ↔
    chain.isBalanced = false ∧ n = chain.conditions.length ∧ k = chain.operators.length := by
  cases hBalanced : chain.isBalanced with
  | false => simp [evaluate, hBalanced, eq_comm]
  | true =>
    simp only [Bool.true_eq_false, false_and, iff_false]
    intro h
    cases hFails : (operands chain.conditions).findSome? (failure r) with
    | some e =>
      obtain ⟨operand, -, hOperand⟩ := exists_of_findSome?_eq_some hFails
      rw [evaluate_of_failure hBalanced hFails] at h
      cases h
      exact failure_ne_count n k hOperand
    | none =>
      have hRuns := splitsInto_runsOf chain.conditions chain.operators (by simpa [isBalanced] using hBalanced)
      rw [evaluate_of_runs hBalanced hRuns hFails] at h
      cases h

/-! ### Edits -/

/-- A chain that starts with one condition and gets the others one by one, each with its operator. -/
inductive Joined : Chain → Prop
  | single (c : Condition) : Joined (single c)
  | join {chain : Chain} (operator : LogicalOperator) (c : Condition) : Joined chain →
      Joined (chain.join operator c)

theorem Joined.isBalanced (h : Joined chain) : chain.isBalanced = true := by
  induction h with
  | single c => rfl
  | join operator c h ih =>
    simp only [Chain.isBalanced, decide_eq_true_eq] at ih ⊢
    simp [Chain.join, ih]

/-- A change of one condition or of one operator. -/
inductive Edit
  | setCondition (lhs operator rhs : String) (index : Option Nat)
  | setOperator (operator : String) (index : Option Nat)
  | removeCondition (index : Nat)
  | removeOperator (index : Nat)

/-- The change as it is carried out. -/
def Edit.run : Edit → Change Unit
  | setCondition lhs operator rhs index => Chain.setCondition lhs operator rhs index
  | setOperator operator index => Chain.setOperator operator index
  | removeCondition index => do let _ ← Chain.removeCondition index
  | removeOperator index => do let _ ← Chain.removeOperator index

/-- The answer to a change, and the chain after it. -/
def edit (chain : Chain) (change : Edit) : Except CommandError Unit × Chain :=
  change.run chain

/-- The texts are operators, and the index is that of an item or, to set one, the next after the last. -/
def Edit.Fits (chain : Chain) : Edit → Prop
  | .setCondition _ operator _ index =>
    (RelationalOperator.ofSymbol? operator).isSome ∧ ∀ i ∈ index, i ≤ chain.conditions.length
  | .setOperator operator index =>
    (LogicalOperator.ofSymbol? operator).isSome ∧ ∀ i ∈ index, i ≤ chain.operators.length
  | .removeCondition index => index < chain.conditions.length
  | .removeOperator index => index < chain.operators.length

theorem place_isOk (items : List α) (index : Option Nat) (item : α) :
    (place items index item).isOk ↔ ∀ i ∈ index, i ≤ items.length := by
  cases index with
  | none => simp [place, Except.isOk, Except.toBool]
  | some i =>
    simp only [place, Option.getD_some, Option.mem_def, Option.some.injEq, forall_eq']
    split_ifs with hLast hInside
    · simp [Except.isOk, Except.toBool, hLast]
    · simpa [Except.isOk, Except.toBool] using Nat.le_of_lt hInside
    · simp [Except.isOk, Except.toBool]
      omega

/-- An item that can be read is set at a position that can be filled. -/
theorem ends_set {β : Type} {read : Except CommandError α} {known : Prop} (hRead : read.isOk = true ↔ known)
    (items : Chain → List β) (item : α → β) (put : Chain → List β → Chain) (index : Option Nat) :
    Ends (do
        let x ← read
        let chain ← get
        let new ← place (items chain) index (item x)
        set (put chain new) : Change Unit) chain
      (fun _ after => after = chain ∧ ¬ (known ∧ ∀ i ∈ index, i ≤ (items chain).length))
      fun _ _ => known ∧ ∀ i ∈ index, i ≤ (items chain).length := by
  refine .lift_bind (fun e he => ⟨rfl, fun hFits => ?_⟩) fun x hx => .get (.lift_bind (fun e he => ?_) ?_)
  · have hOk := hRead.mpr hFits.1
    rw [he] at hOk
    cases hOk
  · refine ⟨rfl, fun hFits => ?_⟩
    have hOk := (place_isOk _ _ (item x)).mpr hFits.2
    rw [he] at hOk
    cases hOk
  · intro new hNew
    have hPlace := (place_isOk (items chain) index (item x)).mp (by rw [hNew]; rfl)
    have hFits : known ∧ ∀ i ∈ index, i ≤ (items chain).length := ⟨hRead.mp (by rw [hx]; rfl), hPlace⟩
    exact Iff.mpr (Ends.of_ok rfl) hFits

/-- An item is removed if it is there. -/
theorem ends_takeOut {β : Type} (items : Chain → List β) (put : Chain → List β → Chain) (index : Nat) :
    Ends (do
        let chain ← get
        let (item, rest) ← takeOut (items chain) index
        set (put chain rest)
        return item : Change β) chain
      (fun _ after => after = chain ∧ ¬ index < (items chain).length)
      fun _ _ => index < (items chain).length := by
  refine .get (.lift_bind (fun e he => ⟨rfl, fun hIndex => ?_⟩) ?_)
  · simp [takeOut, hIndex] at he
  · rintro ⟨item, rest⟩ hTake
    refine .set_bind (.pure ?_)
    by_contra hIndex
    simp [takeOut, List.getElem?_eq_none (Nat.le_of_not_lt hIndex)] at hTake

/-- A change that is refused does not fit, and nothing has been changed before it was refused. -/
theorem Edit.run_ends (change : Edit) (chain : Chain) :
    Ends change.run chain (fun _ after => after = chain ∧ ¬ change.Fits chain) fun _ _ =>
      change.Fits chain := by
  cases change with
  | setCondition lhs operator rhs index =>
    refine ends_set ?_ conditions (.make lhs · rhs) (fun chain conditions => { chain with conditions }) index
    unfold parseRelational
    cases RelationalOperator.ofSymbol? operator <;> simp [Except.isOk, Except.toBool]
  | setOperator operator index =>
    refine ends_set ?_ operators id (fun chain operators => { chain with operators }) index
    unfold parseLogical
    cases LogicalOperator.ofSymbol? operator <;> simp [Except.isOk, Except.toBool]
  | removeCondition index =>
    exact .bind (ends_takeOut conditions (fun chain conditions => { chain with conditions }) index)
      fun _ _ hFits => .pure hFits
  | removeOperator index =>
    exact .bind (ends_takeOut operators (fun chain operators => { chain with operators }) index)
      fun _ _ hFits => .pure hFits

theorem edit_isOk (change : Edit) : (chain.edit change).1 = .ok () ↔ change.Fits chain := by
  have hEnds := change.run_ends chain
  refine ⟨fun h => hEnds.result h, fun hFits => ?_⟩
  cases hRun : (chain.edit change).1 with
  | ok _ => rfl
  | error e => exact absurd hFits (hEnds.failed hRun).2

theorem edit_of_error {change : Edit} (h : (chain.edit change).1 = .error e) :
    (chain.edit change).2 = chain :=
  ((change.run_ends chain).failed h).1

/-- A chain has a value if there is one operator between any two neighbouring conditions and every
operand has a value. It holds if all conditions of a run hold. A chain that gets its conditions one
by one has its operators, and a change that is refused leaves the chain as it is. -/
theorem evaluate_and_before_or (chain : Chain) (r : Registry) :
    ((∃ n k, chain.evaluate r = .error (.logicalOperatorCount n k)) ↔
      chain.conditions = [] ∨ chain.operators.length ≠ chain.conditions.length - 1) ∧
    (chain.isBalanced = true →
      (∀ e, (operands chain.conditions).findSome? (failure r) = some e → chain.evaluate r = .error e) ∧
      ((operands chain.conditions).findSome? (failure r) = none → ∃ b, chain.evaluate r = .ok b ∧
        (∃ runs, chain.SplitsInto runs) ∧ ∀ runs, chain.SplitsInto runs →
          (b = true ↔ ∃ run ∈ runs, ∀ c ∈ run, c.evaluate r = .ok true))) ∧
    (chain.Joined → chain.isBalanced = true) ∧
    ∀ change, ((chain.edit change).1 = .ok () ↔ change.Fits chain) ∧
      ∀ e, (chain.edit change).1 = .error e → (chain.edit change).2 = chain := by
  refine ⟨?_, fun hBalanced => ⟨fun e => evaluate_of_failure hBalanced, fun hNone => ?_⟩, Joined.isBalanced,
    fun change => ⟨edit_isOk change, fun e => edit_of_error⟩⟩
  · rw [← not_iff_not, not_or, not_not, ← Ne, ← isBalanced_eq_true]
    simp [evaluate_eq_count]
  · have hRuns := splitsInto_runsOf chain.conditions chain.operators
      (by simpa [Chain.isBalanced] using hBalanced)
    refine ⟨_, evaluate_of_runs hBalanced hRuns hNone, ⟨_, hRuns⟩, fun runs hOther => ?_⟩
    rw [Except.ok.inj ((evaluate_of_runs hBalanced hRuns hNone).symm.trans
      (evaluate_of_runs hBalanced hOther hNone))]
    simp only [List.any_eq_true, List.all_eq_true, holds_eq_true]

end Mission.Chain
