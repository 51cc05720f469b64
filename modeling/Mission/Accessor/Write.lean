import Mission.Accessor.Read

/-! Writing through accessors. A write gives a new registry or fails; a write that fails has changed
nothing. -/
namespace Mission.Accessor

/-- Writes a value, converted to the type of the target. For an array element the target must be
bound and the indices valid before the value is looked at. -/
def setValue (r : Registry) (a : Accessor) (v : Value) : Except AccessError Registry :=
  match a with
  | property d p => do
    let (id, index) ← boundTo d p.target
    liftObject (r.setProperty id index v)
  | whole d k target => do
    let id ← boundTo d target
    if k = .object && !(r.object id).isParameter then throw (a.invalid "Set")
    liftObject (r.assign id v)
  | element d _ array row column => do
    let id ← boundTo d array
    let i ← indexOf row (row.evaluate r)
    let j ← indexOf column (column.evaluate r)
    let x ← liftType v.asReal
    liftObject (r.setElement id i j x)
  | _ => .error (a.invalid "Set")

/-- Writes a real. A whole array takes it as a 1x1 matrix. -/
def setReal (r : Registry) (a : Accessor) (x : Float) : Except AccessError Registry := do
  a.require "SetReal" AccessorKind.isNumeric
  match a.kind with
  | .number => throw (a.invalid "SetReal")
  | .array => a.setValue r (.matrix (.scalar x))
  | _ => a.setValue r (.real x)

/-- Writes an integer: as it is to a property, and as a real elsewhere. -/
def setInteger (r : Registry) (a : Accessor) (n : Int64) : Except AccessError Registry := do
  a.require "SetInteger" AccessorKind.isNumeric
  match a.kind with
  | .number => throw (a.invalid "SetInteger")
  | .objectProperty => a.setValue r (.integer n)
  | _ => a.setReal r (Real.ofInteger n)

def setString (r : Registry) (a : Accessor) (text : String) : Except AccessError Registry := do
  a.require "SetString" AccessorKind.isTextual
  if a.kind = .string then throw (a.invalid "SetString")
  a.setValue r (.string text)

def setBoolean (r : Registry) (a : Accessor) (flag : Bool) : Except AccessError Registry := do
  a.require "SetBoolean" AccessorKind.isTruth
  if a.kind = .boolean then throw (a.invalid "SetBoolean")
  a.setValue r (.boolean flag)

def setOnOff (r : Registry) (a : Accessor) (flag : Bool) : Except AccessError Registry := do
  a.require "SetOnOff" AccessorKind.isFlag
  if a.kind = .onOff then throw (a.invalid "SetOnOff")
  a.setValue r (.onOff flag)

def setMatrix (r : Registry) (a : Accessor) (m : Matrix) : Except AccessError Registry := do
  a.require "SetArray" AccessorKind.isMatrix
  a.setValue r (.matrix m)

/-- Copies the state of an object into the object behind the accessor. Both must be of one script
type. Copying an object into itself changes nothing. Copying an object into one of its own parts,
which the program does not survive, is left out. -/
def setObject (r : Registry) (a : Accessor) (source : ObjectId) : Except AccessError Registry :=
  match a with
  | whole d .object target => do
    let target ← boundTo d target
    if target = source then return r
    let expected := (r.object target).typeName
    let actual := (r.object source).typeName
    if actual ≠ expected then throw (.objectTypeMismatch d expected actual)
    return r.overwrite target (r.assembly source)
  | _ => .error (a.invalid "SetObject")

end Mission.Accessor
