import Mission.Accessor.Error

/-! Reading through accessors. Every reader first asks whether the kind of accessor supports it, then
reads the natural value, then converts. -/
namespace Mission

/-- An object error as an access error. -/
def liftObject {α : Type} : Except ObjectError α → Except AccessError α
  | .ok a => .ok a
  | .error e => .error (.object e)

/-- A conversion error as an access error. -/
def liftType {α : Type} : Except TypeError α → Except AccessError α
  | .ok a => .ok a
  | .error e => .error (.valueType e)

namespace Accessor

def invalid (a : Accessor) (operation : String) : AccessError :=
  .invalidOperation operation a.description a.kind

def require (a : Accessor) (operation : String) (allowed : AccessorKind → Bool) :
    Except AccessError Unit :=
  if allowed a.kind then .ok () else .error (a.invalid operation)

/-- The bound target of an accessor of this description. -/
def boundTo {α : Type} (description : String) : Option α → Except AccessError α
  | some a => .ok a
  | none => .error (.notBound description)

/-- A position counted from zero out of an index counted from one. The index must be integral and at
least one; beyond `2 ^ 64 - 1` it is taken to be that number. -/
def position (description : String) (x : Float) : Except AccessError Nat :=
  if !Real.isIntegral x || x < 1.0 then .error (.invalidIndex description x)
  else .ok (x.toUInt64.toNat - 1)

/-- The position that an index accessor gives, when its value has been read. -/
def indexOf (index : Accessor) (read : Except AccessError Value) : Except AccessError Nat := do
  index.require "EvaluateReal" AccessorKind.isNumeric
  let x ← liftType (← read).asReal
  position index.description x

/-- The value behind an accessor in its natural type. A plain object evaluates to its name. -/
def evaluate (r : Registry) : Accessor → Except AccessError Value
  | number _ x => .ok (.real x)
  | string _ text => .ok (.string text)
  | boolean _ flag => .ok (.boolean flag)
  | onOff _ flag => .ok (.onOff flag)
  | property d p => do
    let (id, index) ← boundTo d p.target
    liftObject ((r.object id).getAt index)
  | whole d k target => do
    let id ← boundTo d target
    if k = .object && !(r.object id).isParameter then return .object (r.object id).name
    liftObject (r.evaluate id)
  | element d _ array row column => do
    let id ← boundTo d array
    let i ← indexOf row (row.evaluate r)
    let j ← indexOf column (column.evaluate r)
    let x ← liftObject ((r.object id).element i j)
    return .real x

def evaluateReal (r : Registry) (a : Accessor) : Except AccessError Float := do
  a.require "EvaluateReal" AccessorKind.isNumeric
  liftType (← a.evaluate r).asReal

def evaluateInteger (r : Registry) (a : Accessor) : Except AccessError Int64 := do
  a.require "EvaluateInteger" AccessorKind.isNumeric
  liftType (← a.evaluate r).asInteger

/-- The value as text. Lists and flags are given as they are written. -/
def evaluateString (r : Registry) (a : Accessor) : Except AccessError String := do
  a.require "EvaluateString" AccessorKind.isTextual
  match ← a.evaluate r with
  | .stringArray items => return (Value.stringArray items).toText
  | .onOff flag => return (Value.onOff flag).toText
  | v => liftType v.asString

def evaluateBoolean (r : Registry) (a : Accessor) : Except AccessError Bool := do
  a.require "EvaluateBoolean" AccessorKind.isTruth
  liftType (← a.evaluate r).asBoolean

def evaluateOnOff (r : Registry) (a : Accessor) : Except AccessError Bool := do
  a.require "EvaluateOnOff" AccessorKind.isFlag
  liftType (← a.evaluate r).asOnOff

def evaluateMatrix (r : Registry) (a : Accessor) : Except AccessError Matrix := do
  a.require "EvaluateArray" AccessorKind.isMatrix
  liftType (← a.evaluate r).asMatrix

/-- The object behind the accessor. -/
def evaluateObject (a : Accessor) : Except AccessError ObjectId :=
  match a with
  | whole d _ target => boundTo d target
  | _ => .error (a.invalid "EvaluateObject")

end Accessor

end Mission
