import Mission.Catalog
import Mission.Expr.Evaluate
import Mission.Expr.Parser
import Mission.Workspace

/-! Equations: an expression as it was written together with the accessors of its leaves. An equation
starts without an expression, keeps the first one it is given, and loses and regains its accessors each
time it is checked. -/
namespace Mission

/-- An expression and the text it was read from. -/
structure Formula where
  text : String
  expr : Expr

namespace Formula

def parse (text : String) : Except MathError Formula := do
  return { text := Text.trim text, expr := ← Expr.parse text }

/-- Follows a rename in the text and in the leaves. -/
def rename (f : Formula) (old new : String) : Formula :=
  { text := Name.replace f.text old new, expr := f.expr.rename old new }

end Formula

structure Equation where
  formula : Option Formula := none
  /-- The accessors of the leaves, in the order of the leaves. -/
  bindings : Bindings := {}

instance : Inhabited Equation := ⟨{}⟩

namespace Equation

/-- The text of the expression, empty if there is none. -/
def text (eq : Equation) : String :=
  (eq.formula.map Formula.text).getD ""

/-- The expression, which must have been read before. -/
def require (eq : Equation) : Except MathError Formula :=
  match eq.formula with
  | some f => .ok f
  | none => .error (.notConstructed eq.text)

/-- Whether a text ends in a quote and is otherwise the name of a function. This is hardly ever meant
as a transpose, but as a string whose first quote is missing. -/
def lacksStartQuote (functions : List String) (text : String) : Bool :=
  let cs := text.toList
  cs.getLast? = some Name.quote &&
    let name := String.ofList (cs.dropLast.filter (· ≠ ' '))
    functions.any fun f => Text.equalsIgnoringCase f name

/-- Reads a text as the expression of an equation. There is none if the text is no equation. -/
def read (text : String) (allowSingle : Bool) (functions : List String) :
    Except MathError (Option Formula) :=
  if !Expr.isEquation text allowSingle then .ok none
  else
    let text := Text.trim text
    if lacksStartQuote functions text then .error .missingStartQuote
    else do return some (← Formula.parse text)

/-- Gives the equation its expression, and tells whether it has one. The first expression stays. -/
def build (eq : Equation) (text : String) (allowSingle : Bool) (functions : List String) :
    Step MathError (Equation × Bool) := do
  if eq.formula.isSome then return (eq, true)
  match ← read text allowSingle functions with
  | none => return (eq, false)
  | some f => do
    Step.note .debug s!"Built math tree for \"{f.text}\""
    return ({ eq with formula := some f }, true)

/-- The leaves that need an accessor. The equation makes room for each of them. -/
def elementNames (eq : Equation) : Except MathError (List String × Equation) := do
  let f ← eq.require
  let names := f.expr.elements
  let bindings := names.foldl
    (fun b name => if b.contains name then b else b.insert name none) eq.bindings
  return (names, { eq with bindings })

/-- The kinds of accessor that a leaf with a dot can have. -/
def acceptsDotted : AccessorKind → Bool
  | .parameter | .stringObject | .objectProperty | .number | .string => true
  | _ => false

/-- Gives a leaf its accessor, and tells whether the equation has taken it. -/
def bind (eq : Equation) (name : String) (a : Accessor) : Equation × Bool :=
  if eq.bindings.contains name && (!name.toList.contains '.' || acceptsDotted a.kind) then
    ({ eq with bindings := eq.bindings.insert name (some a) }, true)
  else (eq, false)

/-- Takes all accessors away and keeps the leaves. -/
def clear (eq : Equation) : Equation :=
  { eq with bindings := eq.bindings.map fun _ => none }

/-- Follows a rename in the expression, the leaves and their accessors. Leaves that become equal
become one, with the accessor of the last. -/
def rename (eq : Equation) (old new : String) : Equation :=
  { formula := eq.formula.map fun f => f.rename old new
    bindings := Table.ofPairs <| eq.bindings.entries.map fun (name, a) =>
      (Name.replace name old new, a.map (Accessor.rename old new)) }

/-- Whether a rename changes a leaf of the expression. -/
def mentions (eq : Equation) (old new : String) : Bool :=
  eq.formula.any fun f => f.expr.mentions old new

/-- Checks that every leaf has an accessor and that the operands fit together. -/
def validate (eq : Equation) (r : Registry) : Except MathError Unit := do
  let f ← eq.require
  match f.expr.shape r eq.bindings with
  | .ok _ => return
  | .error e => throw (.context "Failed to validate math equation or function inputs" e)

/-- The type that a result must have to be written to a target of the given type. -/
def resultType (t : DataType) : DataType :=
  if t.isNumeric then .real
  else if t.isMatrix then .matrix
  else if t = .enumeration || t = .filename then .string
  else t

/-- Whether a result of some shape can be written to the target. A 1x1 matrix can be written to a real
and a real to a 1x1 array. -/
def fits (r : Registry) (s : Shape) (target : Accessor) : Bool :=
  let expected := resultType (target.dataType r)
  expected = s.dataType ||
    match expected, s with
    | .real, .matrix rows cols => (rows, cols) = (1, 1)
    | .matrix, .real =>
      match target.evaluateMatrix r with
      | .ok m => m.isScalar
      | .error _ => false
    | _, _ => false

/-- The name of the array that holds a matrix result. -/
def arrayOutput : String := "ArrayOutput"

/-- Holds a result so that it can be read like everything else. A matrix gets an array of its own, and
an object result is a copy of the object. -/
def hold (r : Registry) : Result → Except MathError (Accessor × Registry)
  | .real x => .ok (.number (Real.toText x) x, r)
  | .string text => .ok (.string text text, r)
  | .matrix m => do
    let (id, r) := r.install (Catalog.userArray arrayOutput m.rows m.cols)
    let r ← MathError.liftObject (r.assign id (.matrix m))
    return (.ofObject r arrayOutput id, r)
  | .object id =>
    let (copy, r) := r.install (r.assembly id)
    .ok (.ofObject r (r.object copy).name copy, r)

/-- Evaluates the equation. With a target, the shape of the result must fit it. -/
def run (eq : Equation) (r : Registry) (target : Option Accessor) :
    Except MathError (Accessor × Registry) := do
  let f ← eq.require
  let s ← f.expr.shape r eq.bindings
  match target with
  | some target =>
    if !fits r s target then throw (.typeMismatch s.dataType (resultType (target.dataType r)))
  | none => pure ()
  hold r (← f.expr.evaluate r eq.bindings)

end Equation

end Mission
