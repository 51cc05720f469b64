import Mission.Real.Basic

/-! Dense matrices of reals, stored row by row. The number of entries is part of the type, so the
size of every result is what its construction says. The order of the floating-point operations is
fixed here, since it shows in the last digit of a sum and in the sign of a zero: a product entry adds
its terms from left to right, and a norm adds squares column by column, long columns in lanes. -/
namespace Mission

/-- Two sizes that an operation cannot combine. -/
structure DimensionError where
  operation : String
  left : Nat × Nat
  right : Nat × Nat
deriving DecidableEq, Repr

namespace DimensionError

def sizeText (size : Nat × Nat) : String :=
  s!"{size.1}x{size.2}"

def message (e : DimensionError) : String :=
  s!"matrix dimensions do not agree for {e.operation}: {sizeText e.left} and {sizeText e.right}"

end DimensionError

structure Matrix where
  rows : Nat
  cols : Nat
  data : Array Float
  size_data : data.size = rows * cols

namespace Matrix

/-- The matrix whose entry in row `r` and column `c` (both from zero) is `entry r c`. -/
def ofFn (rows cols : Nat) (entry : Nat → Nat → Float) : Matrix where
  rows := rows
  cols := cols
  data := Array.ofFn fun k : Fin (rows * cols) => entry (k / cols) (k % cols)
  size_data := by simp

def zero (rows cols : Nat) : Matrix :=
  ofFn rows cols fun _ _ => 0.0

def scalar (x : Float) : Matrix :=
  ofFn 1 1 fun _ _ => x

instance : Inhabited Matrix := ⟨zero 0 0⟩

def dims (m : Matrix) : Nat × Nat :=
  (m.rows, m.cols)

def isScalar (m : Matrix) : Bool :=
  m.dims = (1, 1)

def isVector (m : Matrix) : Bool :=
  m.rows = 1 || m.cols = 1

/-- The entry at a place counted from zero, if there is one. -/
def get? (m : Matrix) (r c : Nat) : Option Float :=
  if r < m.rows && c < m.cols then m.data[r * m.cols + c]? else none

/-- The entry at a place counted from zero, and zero outside the matrix. -/
def entry (m : Matrix) (r c : Nat) : Float :=
  (m.get? r c).getD 0.0

/-- Writes one entry. A place outside the matrix changes nothing. -/
def set (m : Matrix) (r c : Nat) (x : Float) : Matrix :=
  if r < m.rows && c < m.cols then
    { m with data := m.data.setIfInBounds (r * m.cols + c) x
             size_data := by simp [m.size_data] }
  else m

def toRows (m : Matrix) : List (List Float) :=
  (List.range m.rows).map fun r => (List.range m.cols).map fun c => m.entry r c

/-- Reads a list of rows. The first row gives the width, and the first row of another width is the
one reported. -/
def ofRows (rows : List (List Float)) : Except DimensionError Matrix :=
  let cols := (rows.head?.map List.length).getD 0
  match rows.find? fun row => row.length != cols with
  | some row => .error ⟨"row construction", (1, cols), (1, row.length)⟩
  | none => .ok (ofFn rows.length cols fun r c => ((rows[r]?.getD [])[c]?).getD 0.0)

def map (f : Float → Float) (m : Matrix) : Matrix :=
  { m with data := m.data.map f, size_data := by simp [m.size_data] }

def transpose (m : Matrix) : Matrix :=
  ofFn m.cols m.rows fun r c => m.entry c r

/-- Combines two matrices of one size entry by entry. -/
def zipWith (operation : String) (f : Float → Float → Float) (a b : Matrix) :
    Except DimensionError Matrix :=
  if a.dims = b.dims then .ok (ofFn a.rows a.cols fun r c => f (a.entry r c) (b.entry r c))
  else .error ⟨operation, a.dims, b.dims⟩

/-- `start` and then the terms `f 0, ..., f (n - 1)`, added from left to right. -/
def sumFrom (start : Float) (n : Nat) (f : Nat → Float) : Float :=
  (List.range n).foldl (fun acc i => acc + f i) start

/-- The sum of the terms `f 0, ..., f (n - 1)` from left to right, beginning with the first term
rather than with zero. If all terms are negative zeros, so is the sum. -/
def sumFromFirst (n : Nat) (f : Nat → Float) : Float :=
  match n with
  | 0 => 0.0
  | k + 1 => sumFrom (f 0) k fun i => f (i + 1)

/-- Whether a product is large: it has more than five rows, more than five columns, and more than five
terms in every entry. The entries of a large product are added up from zero, those of others from
their first term. -/
def isLargeProduct (a b : Matrix) : Bool :=
  5 < a.rows && 5 < a.cols && 5 < b.cols

def mul (a b : Matrix) : Except DimensionError Matrix :=
  if a.cols = b.rows then
    let sum := if isLargeProduct a b then sumFrom 0.0 else sumFromFirst
    .ok (ofFn a.rows b.cols fun r c => sum a.cols fun k => a.entry r k * b.entry k c)
  else .error ⟨"multiplication", a.dims, b.dims⟩

/-- The sum of the terms `f 0, ..., f (n - 1)` in eight lanes, each of which adds every eighth term of
the full blocks of eight. The lanes are joined in pairs four apart, and the terms behind the last full
block follow one by one. Fewer than eight terms are simply added up from zero. -/
def sumInLanes (n : Nat) (f : Nat → Float) : Float :=
  let blocks := n / 8
  let lane (i : Nat) : Float := sumFrom 0.0 blocks fun b => f (8 * b + i)
  let joined := sumFrom 0.0 4 fun i => lane i + lane (i + 4)
  sumFrom joined (n % 8) fun i => f (8 * blocks + i)

/-- The root of the sum of all squares, added up inside each column and then across columns. -/
def norm (m : Matrix) : Float :=
  let column (c : Nat) : Float := sumInLanes m.rows fun r => m.entry r c * m.entry r c
  (sumFrom 0.0 m.cols column).sqrt

/-- Rows on lines of their own, entries separated by a space. -/
def toText (m : Matrix) : String :=
  "\n".intercalate (m.toRows.map fun row => " ".intercalate (row.map Real.toText))

/-- Numeric equality: sizes agree and corresponding entries are equal as reals, so that zeros of
either sign are equal and a not-a-number differs from itself. -/
instance : BEq Matrix where
  beq a b := a.dims = b.dims && (a.data.zipWith (· == ·) b.data).all id

end Matrix

end Mission
