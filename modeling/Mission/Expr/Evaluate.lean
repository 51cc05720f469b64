import Mission.Accessor.Read
import Mission.Expr.Basic
import Mission.Expr.Error

/-! The static shape of an expression beside its value. Both read the leaves through a table of
accessors, and both are defined operator by operator, so that a shape can be compared with the value
that evaluation gives. -/
namespace Mission

/-- The accessors of the leaves of an expression. A leaf has none until it has been classified. -/
abbrev Bindings := Table (Option Accessor)

/-- The type and size of a result. -/
inductive Shape
  | real
  | matrix (rows cols : Nat)
  | string
  | object
deriving DecidableEq, Repr

namespace Shape

def dataType : Shape → DataType
  | real => .real
  | matrix _ _ => .matrix
  | string => .string
  | object => .object

/-- The size of a matrix. All else is of size 1x1. -/
def dims : Shape → Nat × Nat
  | matrix rows cols => (rows, cols)
  | _ => (1, 1)

/-- Refuses what no operation is defined for. -/
def requireNumeric (operation : String) : Shape → Except MathError Shape
  | real => .ok real
  | matrix rows cols => .ok (matrix rows cols)
  | s => .error (.invalidOperand operation s.dataType)

/-- Refuses matrices that are not 1x1. -/
def requireScalar (operation : String) : Shape → Except MathError Unit
  | matrix rows cols =>
    if (rows, cols) = (1, 1) then .ok () else .error (.invalidOperand operation .matrix)
  | _ => .ok ()

end Shape

/-- The value of an expression. -/
inductive Result
  | real (x : Float)
  | matrix (m : Matrix)
  | string (text : String)
  | object (id : ObjectId)

namespace Result

def shape : Result → Shape
  | real _ => .real
  | matrix m => .matrix m.rows m.cols
  | string _ => .string
  | object _ => .object

def dataType (v : Result) : DataType :=
  v.shape.dataType

def isNumeric : Result → Bool
  | real _ | matrix _ => true
  | _ => false

/-- The value as a single number. -/
def scalar (operation : String) : Result → Except MathError Float
  | real x => .ok x
  | matrix m => if m.isScalar then .ok (m.entry 0 0) else .error (.invalidOperand operation .matrix)
  | v => .error (.invalidOperand operation v.dataType)

end Result

namespace MathError

/-- An access error as an error of an expression. -/
def liftAccess {α : Type} : Except AccessError α → Except MathError α
  | .ok a => .ok a
  | .error e => .error (.access e)

def liftDimension {α : Type} : Except DimensionError α → Except MathError α
  | .ok a => .ok a
  | .error e => .error (.dimension e)

def liftObject {α : Type} : Except ObjectError α → Except MathError α
  | .ok a => .ok a
  | .error e => .error (.object e)

end MathError

namespace BinaryOp

/-- The shape of a result from the shapes of two numeric operands. -/
def shape (op : BinaryOp) : Shape → Shape → Except MathError Shape
  | .matrix r c, .matrix r' c' =>
    match op with
    | add | subtract =>
      if (r, c) = (r', c') then .ok (.matrix r c)
      else .error (.dimension ⟨op.symbol, (r, c), (r', c')⟩)
    | multiply =>
      if c = r' then .ok (.matrix r c')
      else .error (.dimension ⟨"multiplication", (r, c), (r', c')⟩)
    | divide | power => .error (.invalidOperand op.symbol .matrix)
  | .matrix r c, _ =>
    match op with
    | power => .error (.invalidOperand op.symbol .matrix)
    | _ => .ok (.matrix r c)
  | _, .matrix r c =>
    match op with
    | add | subtract | multiply => .ok (.matrix r c)
    | divide | power => .error (.invalidOperand op.symbol .matrix)
  | _, _ => .ok .real

/-- Combines two values. A real is combined with every entry of a matrix. -/
def evaluate (op : BinaryOp) : Result → Result → Except MathError Result
  | .real x, .real y => .ok (.real (op.apply x y))
  | .matrix a, .matrix b =>
    match op with
    | add | subtract => do
      return .matrix (← MathError.liftDimension (Matrix.zipWith op.symbol op.apply a b))
    | multiply => do return .matrix (← MathError.liftDimension (a.mul b))
    | divide | power => .error (.invalidOperand op.symbol .matrix)
  | .matrix a, .real y =>
    match op with
    | power => .error (.invalidOperand op.symbol .matrix)
    | _ => .ok (.matrix (a.map fun x => op.apply x y))
  | .real x, .matrix b =>
    match op with
    | add | subtract | multiply => .ok (.matrix (b.map fun y => op.apply x y))
    | divide | power => .error (.invalidOperand op.symbol .matrix)
  | left, right =>
    .error (.invalidOperand op.symbol (if left.isNumeric then right else left).dataType)

end BinaryOp

namespace UnaryFunction

def shape (f : UnaryFunction) (s : Shape) : Except MathError Shape :=
  match f with
  | transpose =>
    match s with
    | .matrix rows cols => .ok (.matrix cols rows)
    | s => .ok s
  | norm => .ok .real
  | f => do
    s.requireScalar f.name
    return .real

def evaluate (f : UnaryFunction) (v : Result) : Except MathError Result :=
  match f, v with
  | transpose, .matrix m => .ok (.matrix m.transpose)
  | transpose, .real x => .ok (.real x)
  | norm, .matrix m => .ok (.real m.norm)
  | norm, .real x => .ok (.real x.abs)
  | transpose, v | norm, v => .error (.invalidOperand f.name v.dataType)
  | f, v => do return .real (f.apply (← v.scalar f.name))

end UnaryFunction

namespace Expr

/-- The accessor of a leaf. -/
def leaf (b : Bindings) (name : String) : Except MathError Accessor :=
  match b.get? name with
  | some (some a) => .ok a
  | _ => .error (.missingAccessor name)

/-- The type as which a leaf is read. -/
def leafType (r : Registry) (name : String) (a : Accessor) : Except MathError DataType :=
  let t := a.dataType r
  if t.isNumeric then .ok .real
  else if t.isMatrix then .ok .matrix
  else if t = .object && a.kind = .object then .ok .object
  else if t.isStringLike then .ok .string
  else .error (.unsupportedLeaf name t)

/-- The shape of a leaf. Only the size of a matrix needs its value. -/
def leafShape (r : Registry) (b : Bindings) (name : String) : Except MathError Shape := do
  let a ← leaf b name
  match ← leafType r name a with
  | .matrix => do
    let m ← MathError.liftAccess (a.evaluateMatrix r)
    return .matrix m.rows m.cols
  | .real => return .real
  | .object => return .object
  | _ => return .string

def leafValue (r : Registry) (b : Bindings) (name : String) : Except MathError Result := do
  let a ← leaf b name
  match ← leafType r name a with
  | .real => return .real (← MathError.liftAccess (a.evaluateReal r))
  | .matrix => return .matrix (← MathError.liftAccess (a.evaluateMatrix r))
  | .object => return .object (← MathError.liftAccess a.evaluateObject)
  | _ => return .string (← MathError.liftAccess (a.evaluateString r))

/-- The shape of the result, found without carrying out any operation. -/
def shape (r : Registry) (b : Bindings) : Expr → Except MathError Shape
  | number _ => .ok .real
  | string _ => .ok .string
  | element name => leafShape r b name
  | negate e => do (← e.shape r b).requireNumeric "-"
  | binary op left right => do
    let left ← (← left.shape r b).requireNumeric op.symbol
    let right ← (← right.shape r b).requireNumeric op.symbol
    op.shape left right
  | call f e => do
    let s ← (← e.shape r b).requireNumeric f.name
    f.shape s
  | atan2 y x => do
    let y ← (← y.shape r b).requireNumeric "atan2"
    let x ← (← x.shape r b).requireNumeric "atan2"
    y.requireScalar "atan2"
    x.requireScalar "atan2"
    return .real

def evaluate (r : Registry) (b : Bindings) : Expr → Except MathError Result
  | number x => .ok (.real x)
  | string text => .ok (.string text)
  | element name => leafValue r b name
  | negate e => do
    match ← e.evaluate r b with
    | .real x => return .real (-x)
    | .matrix m => return .matrix (m.map fun x => -x)
    | v => throw (.invalidOperand "-" v.dataType)
  | binary op left right => do
    let left ← left.evaluate r b
    let right ← right.evaluate r b
    op.evaluate left right
  | call f e => do
    let v ← e.evaluate r b
    f.evaluate v
  | atan2 y x => do
    let y ← y.evaluate r b
    let x ← x.evaluate r b
    let y ← y.scalar "atan2"
    let x ← x.scalar "atan2"
    return .real (y.atan2 x)

end Expr

end Mission
