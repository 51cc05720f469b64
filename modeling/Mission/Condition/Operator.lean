import Mission.Text.Blank

/-! The operators of conditions: comparisons of reals, and what joins two conditions. -/
namespace Mission

inductive RelationalOperator
  | equalTo
  | notEqual
  | lessThan
  | greaterThan
  | lessOrEqual
  | greaterOrEqual
deriving DecidableEq, Repr

namespace RelationalOperator

/-- The operators in the order in which messages list them. -/
def all : List RelationalOperator :=
  [equalTo, notEqual, lessThan, greaterThan, lessOrEqual, greaterOrEqual]

def symbol : RelationalOperator → String
  | equalTo => "=="
  | notEqual => "~="
  | lessThan => "<"
  | greaterThan => ">"
  | lessOrEqual => "<="
  | greaterOrEqual => ">="

/-- Compares two reals, without tolerance. Only `~=` holds of not-a-number. -/
def apply : RelationalOperator → Float → Float → Bool
  | equalTo, x, y => x == y
  | notEqual, x, y => x != y
  | lessThan, x, y => x < y
  | greaterThan, x, y => y < x
  | lessOrEqual, x, y => x ≤ y
  | greaterOrEqual, x, y => y ≤ x

def ofSymbol? (text : String) : Option RelationalOperator :=
  all.find? fun op => op.symbol = Text.trim text

end RelationalOperator

inductive LogicalOperator
  | and
  | or
deriving DecidableEq, Repr

namespace LogicalOperator

def all : List LogicalOperator := [and, or]

def symbol : LogicalOperator → String
  | and => "&"
  | or => "|"

def ofSymbol? (text : String) : Option LogicalOperator :=
  all.find? fun op => op.symbol = Text.trim text

end LogicalOperator

end Mission
