import Mission.Accessor.Write
import Mission.Command.Error
import Mission.Equation

/-! Assignments: a target and either a single value or an equation. -/
namespace Mission

structure Assignment where
  lhs : String
  rhs : String
  target : Option Accessor := none
  /-- The accessor of the right-hand side, if it is a single value. -/
  source : Option Accessor := none
  equation : Equation := {}

namespace Assignment

/-- Drops one semicolon at the end, and the blanks in front of it. -/
def dropSemicolon (text : String) : String :=
  let cs := text.toList
  String.ofList (Text.stripEnd (if cs.getLast? = some ';' then cs.dropLast else cs))

/-- An assignment from the texts on both sides of the equals sign. -/
def make (lhs rhs : String) : Assignment :=
  { lhs := Text.trim lhs, rhs := dropSemicolon (Text.trim rhs) }

def text (a : Assignment) : String :=
  s!"{a.lhs} = {a.rhs}"

def isEquation (a : Assignment) : Bool :=
  a.equation.formula.isSome

/-- Reads the right-hand side as an equation if it is one. -/
def build (a : Assignment) (functions : List String) : Step CommandError (Assignment × Bool) := do
  let (equation, built) ← Step.mapError .math (a.equation.build a.rhs false functions)
  return ({ a with equation }, built)

/-- The right-hand side as a name. An empty one is none. -/
def singleName (a : Assignment) : List String :=
  if a.rhs.isEmpty then [] else [a.rhs]

/-- The names of the right-hand side that need an accessor. The equation makes room for them. -/
def sourceNames (a : Assignment) : Except CommandError (List String × Assignment) :=
  if a.isEquation then do
    let (names, equation) ← CommandError.liftMath a.equation.elementNames
    return (names, { a with equation })
  else .ok (a.singleName, a)

/-- The names of both sides. -/
def names (a : Assignment) : List String :=
  a.lhs ::
    match a.equation.formula with
    | some f => f.expr.elements
    | none => a.singleName

/-- Gives the target its accessor. A leaf of the equation with the same name, if it has no dot, gets
the same accessor. -/
def bindTarget (a : Assignment) (accessor : Accessor) : Assignment :=
  let equation :=
    if a.isEquation && !a.lhs.toList.contains '.' then (a.equation.bind a.lhs accessor).1
    else a.equation
  { a with target := some accessor, equation }

/-- Gives a name of the right-hand side its accessor, and tells whether it is used there. -/
def bindSource (a : Assignment) (name : String) (accessor : Accessor) : Assignment × Bool :=
  if a.isEquation then
    let (equation, bound) := a.equation.bind name accessor
    ({ a with equation }, bound)
  else if name = a.rhs then ({ a with source := some accessor }, true)
  else (a, false)

def clear (a : Assignment) : Assignment :=
  { a with target := none, source := none, equation := a.equation.clear }

def accessors (a : Assignment) : List Accessor :=
  a.target.toList ++ a.source.toList ++ a.equation.bindings.values.flatMap Option.toList

def rename (a : Assignment) (old new : String) : Assignment :=
  { lhs := Name.replace a.lhs old new
    rhs := Name.replace a.rhs old new
    target := a.target.map (Accessor.rename old new)
    source := a.source.map (Accessor.rename old new)
    equation := a.equation.rename old new }

/-- Writes the value behind one accessor through another. Whole objects are copied, and a number for an
array must fit a 1x1 array. All else is converted to the type of the target. -/
def transfer (r : Registry) (target source : Accessor) : Except AccessError Registry := do
  if target.kind = .object then
    let id ← source.evaluateObject
    target.setObject r id
  else if (target.dataType r).isMatrix && (source.dataType r).isNumeric then
    let x ← source.evaluateReal r
    target.setReal r x
  else
    let v ← source.evaluate r
    target.setValue r v

/-- The value of the right-hand side, ready to be read. -/
def output (a : Assignment) (r : Registry) : Except CommandError (Accessor × Registry) :=
  if a.isEquation then CommandError.liftMath (a.equation.run r a.target)
  else
    match a.source with
    | some source => .ok (source, r)
    | none => .error (.missingAccessor "Assignment" a.rhs)

/-- Evaluates the right-hand side and writes it to the target. -/
def execute (a : Assignment) (r : Registry) : Except CommandError Registry := do
  let (source, r) ← a.output r
  match a.target with
  | some target => CommandError.liftAccess (transfer r target source)
  | none => throw (.missingAccessor "Assignment" a.lhs)

end Assignment

end Mission
