import Mission.Accessor.Read
import Mission.Command.Error

/-! Conditions, and chains of them joined by `&` and `|`, of which `&` binds tighter. A chain that is
edited piece by piece may have too few or too many operators in between; such a chain has no value. -/
namespace Mission

structure Condition where
  lhs : String
  operator : RelationalOperator
  rhs : String
  left : Option Accessor := none
  right : Option Accessor := none

namespace Condition

def make (lhs : String) (operator : RelationalOperator) (rhs : String) : Condition :=
  { lhs := Text.trim lhs, operator, rhs := Text.trim rhs }

def text (c : Condition) : String :=
  s!"{c.lhs} {c.operator.symbol} {c.rhs}"

/-- Gives each side of that name its accessor, and tells whether there is one. -/
def bind (c : Condition) (name : String) (a : Accessor) : Condition × Bool :=
  ({ c with
      left := if c.lhs = name then some a else c.left
      right := if c.rhs = name then some a else c.right },
    c.lhs = name || c.rhs = name)

def operand (r : Registry) (name : String) : Option Accessor → Except CommandError Float
  | some a => CommandError.liftAccess (a.evaluateReal r)
  | none => .error (.missingAccessor "ConditionalBranch" name)

/-- Compares the two sides as reals. -/
def evaluate (c : Condition) (r : Registry) : Except CommandError Bool := do
  let x ← operand r c.lhs c.left
  let y ← operand r c.rhs c.right
  return c.operator.apply x y

def rename (c : Condition) (old new : String) : Condition :=
  { c with
    lhs := Name.replace c.lhs old new
    rhs := Name.replace c.rhs old new
    left := c.left.map (Accessor.rename old new)
    right := c.right.map (Accessor.rename old new) }

def clear (c : Condition) : Condition :=
  { c with left := none, right := none }

def accessors (c : Condition) : List Accessor :=
  c.left.toList ++ c.right.toList

end Condition

structure Chain where
  conditions : List Condition := []
  operators : List LogicalOperator := []

instance : Inhabited Chain := ⟨{}⟩

namespace Chain

def single (c : Condition) : Chain :=
  { conditions := [c] }

def join (chain : Chain) (operator : LogicalOperator) (c : Condition) : Chain :=
  { conditions := chain.conditions ++ [c], operators := chain.operators ++ [operator] }

/-- Puts an item at a position, or at the end if there is no position or it is one past the end. -/
def place {α : Type} (items : List α) (index : Option Nat) (item : α) :
    Except CommandError (List α) :=
  let index := index.getD items.length
  if index = items.length then .ok (items ++ [item])
  else if index < items.length then .ok (items.set index item)
  else .error (.conditionIndex index items.length)

def parseRelational (text : String) : Except CommandError RelationalOperator :=
  match RelationalOperator.ofSymbol? text with
  | some op => .ok op
  | none => .error (.invalidRelationalOperator text)

def parseLogical (text : String) : Except CommandError LogicalOperator :=
  match LogicalOperator.ofSymbol? text with
  | some op => .ok op
  | none => .error (.invalidLogicalOperator text)

/-- A change of a chain, step by step. What has been changed before a step fails stays changed. -/
abbrev Change (α : Type) := ExceptT CommandError (StateM Chain) α

/-- Sets a condition. A condition that is replaced loses its accessors. -/
def setCondition (lhs operator rhs : String) (index : Option Nat) : Change Unit := do
  let operator ← parseRelational operator
  let chain ← get
  let conditions ← place chain.conditions index (.make lhs operator rhs)
  set { chain with conditions }

def setOperator (operator : String) (index : Option Nat) : Change Unit := do
  let operator ← parseLogical operator
  let chain ← get
  let operators ← place chain.operators index operator
  set { chain with operators }

/-- Removes the item at a position, and gives it back. -/
def takeOut {α : Type} (items : List α) (index : Nat) : Except CommandError (α × List α) :=
  match items[index]? with
  | some item => .ok (item, items.eraseIdx index)
  | none => .error (.conditionIndex index items.length)

def removeCondition (index : Nat) : Change Condition := do
  let chain ← get
  let (c, conditions) ← takeOut chain.conditions index
  set { chain with conditions }
  return c

def removeOperator (index : Nat) : Change LogicalOperator := do
  let chain ← get
  let (operator, operators) ← takeOut chain.operators index
  set { chain with operators }
  return operator

/-- Whether there is one operator between any two neighbouring conditions and no other. -/
def isBalanced (chain : Chain) : Bool :=
  chain.conditions.length = chain.operators.length + 1

/-- The value of a run of conditions followed by further results. A run ends at `|`. -/
def combine (run : Bool) : List (LogicalOperator × Bool) → Bool
  | [] => run
  | (.and, result) :: rest => combine (run && result) rest
  | (.or, result) :: rest => run || combine result rest

/-- The value of the chain. Every condition is evaluated, also when the first ones decide. -/
def evaluate (chain : Chain) (r : Registry) : Except CommandError Bool :=
  if !chain.isBalanced then
    .error (.logicalOperatorCount chain.conditions.length chain.operators.length)
  else do
    match ← chain.conditions.mapM fun c => c.evaluate r with
    | [] => return false
    | first :: results => return combine first (chain.operators.zip results)

/-- The names of the operands, each once. -/
def names (chain : Chain) : List String :=
  Accessor.union [] (chain.conditions.flatMap fun c => [c.lhs, c.rhs])

/-- Gives every operand of that name its accessor, and tells whether there is one. -/
def bind (chain : Chain) (name : String) (a : Accessor) : Chain × Bool :=
  ({ chain with conditions := chain.conditions.map fun c => (c.bind name a).1 },
    chain.conditions.any fun c => (c.bind name a).2)

def clear (chain : Chain) : Chain :=
  { chain with conditions := chain.conditions.map Condition.clear }

def rename (chain : Chain) (old new : String) : Chain :=
  { chain with conditions := chain.conditions.map fun c => c.rename old new }

def accessors (chain : Chain) : List Accessor :=
  chain.conditions.flatMap Condition.accessors

/-- Conditions with their operators. A question mark stands for a missing operator. -/
def textOf : List Condition → List LogicalOperator → String
  | [], _ => ""
  | [c], _ => c.text
  | c :: rest, operators =>
    let operator := (operators.head?.map LogicalOperator.symbol).getD "?"
    s!"{c.text} {operator} {textOf rest operators.tail}"

def text (chain : Chain) : String :=
  textOf chain.conditions chain.operators

end Chain

end Mission
