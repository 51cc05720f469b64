import Mission.Accessor.Basic

/-! Arithmetic expressions over reals and matrices. Every name in an expression is a leaf of its own,
kept as it was written; what it stands for is given by a table of accessors. -/
namespace Mission

inductive BinaryOp
  | add
  | subtract
  | multiply
  | divide
  | power
deriving DecidableEq, Repr

namespace BinaryOp

def symbol : BinaryOp → String
  | add => "+"
  | subtract => "-"
  | multiply => "*"
  | divide => "/"
  | power => "^"

def apply : BinaryOp → Float → Float → Float
  | add, x, y => x + y
  | subtract, x, y => x - y
  | multiply, x, y => x * y
  | divide, x, y => x / y
  | power, x, y => x.pow y

/-- The operator between the terms of a sum. -/
def additive? (c : Char) : Option BinaryOp :=
  if c = '+' then some add else if c = '-' then some subtract else none

/-- The operator between the factors of a product. -/
def multiplicative? (c : Char) : Option BinaryOp :=
  if c = '*' then some multiply else if c = '/' then some divide else none

end BinaryOp

/-- The functions of one argument. -/
inductive UnaryFunction
  | sin
  | cos
  | tan
  | asin
  | acos
  | atan
  | sqrt
  | abs
  | exp
  | log
  | log10
  | degToRad
  | radToDeg
  | transpose
  | norm
deriving DecidableEq, Repr

namespace UnaryFunction

def name : UnaryFunction → String
  | sin => "sin"
  | cos => "cos"
  | tan => "tan"
  | asin => "asin"
  | acos => "acos"
  | atan => "atan"
  | sqrt => "sqrt"
  | abs => "abs"
  | exp => "exp"
  | log => "log"
  | log10 => "log10"
  | degToRad => "DegToRad"
  | radToDeg => "RadToDeg"
  | transpose => "transpose"
  | norm => "norm"

def all : List UnaryFunction :=
  [sin, cos, tan, asin, acos, atan, sqrt, abs, exp, log, log10, degToRad, radToDeg, transpose, norm]

/-- The value at a real number. -/
def apply : UnaryFunction → Float → Float
  | sin, x => x.sin
  | cos, x => x.cos
  | tan, x => x.tan
  | asin, x => x.asin
  | acos, x => x.acos
  | atan, x => x.atan
  | sqrt, x => x.sqrt
  | abs, x => x.abs
  | exp, x => x.exp
  | log, x => x.log
  | log10, x => x.log10
  | degToRad, x => Real.toRadians x
  | radToDeg, x => Real.toDegrees x
  | transpose, x => x
  | norm, x => x.abs

end UnaryFunction

/-- The functions that can be called in expressions. -/
inductive MathFunction
  | unary (f : UnaryFunction)
  | atan2
deriving DecidableEq, Repr

namespace MathFunction

def name : MathFunction → String
  | unary f => f.name
  | atan2 => "atan2"

def arity : MathFunction → Nat
  | unary _ => 1
  | atan2 => 2

/-- The function of a name. The two conversions between angle units can also be written with a small
first letter. -/
def ofName? (text : String) : Option MathFunction :=
  if text = "atan2" then some atan2
  else if text = "degToRad" then some (unary .degToRad)
  else if text = "radToDeg" then some (unary .radToDeg)
  else (UnaryFunction.all.find? fun f => f.name = text).map unary

end MathFunction

inductive Expr
  | number (x : Float)
  | string (text : String)
  /-- A name or an array element. -/
  | element (name : String)
  | negate (e : Expr)
  | binary (op : BinaryOp) (left right : Expr)
  | call (f : UnaryFunction) (e : Expr)
  | atan2 (y x : Expr)

namespace Expr

instance : Inhabited Expr := ⟨number 0.0⟩

/-- The leaves from left to right, with repetitions. -/
def leaves : Expr → List String
  | number _ | string _ => []
  | element name => [name]
  | negate e | call _ e => e.leaves
  | binary _ left right => left.leaves ++ right.leaves
  | atan2 y x => y.leaves ++ x.leaves

/-- The leaves in the order in which they first appear, each once. -/
def elements (e : Expr) : List String :=
  Accessor.union [] e.leaves

/-- Follows a rename in every leaf. -/
def rename (old new : String) : Expr → Expr
  | number x => number x
  | string text => string text
  | element name => element (Name.replace name old new)
  | negate e => negate (e.rename old new)
  | binary op left right => binary op (left.rename old new) (right.rename old new)
  | call f e => call f (e.rename old new)
  | atan2 y x => atan2 (y.rename old new) (x.rename old new)

/-- Whether a rename changes some leaf. -/
def mentions (old new : String) (e : Expr) : Bool :=
  e.leaves.any fun name => Name.replace name old new ≠ name

end Expr

end Mission
