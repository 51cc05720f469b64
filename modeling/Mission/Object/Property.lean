import Mission.Object.Error

/-! Properties: the named, typed fields of objects. A value written to a property is first converted
to the property's type, and a value that cannot be converted is refused. -/
namespace Mission

structure Property where
  name : String
  dataType : DataType
  value : Value
  readOnly : Bool := false
  /-- For a reference, the type the object referred to must have. -/
  refType : Option ObjectType := none
  /-- For an enumeration, the values it admits. -/
  accepted : List String := []

namespace Property

def real (name : String) (x : Float) : Property :=
  { name, dataType := .real, value := .real x }

def integer (name : String) (n : Int64) : Property :=
  { name, dataType := .integer, value := .integer n }

def string (name text : String) : Property :=
  { name, dataType := .string, value := .string text }

def filename (name text : String) : Property :=
  { name, dataType := .filename, value := .string text }

def boolean (name : String) (flag : Bool) : Property :=
  { name, dataType := .boolean, value := .boolean flag }

def onOff (name : String) (flag : Bool) : Property :=
  { name, dataType := .onOff, value := .onOff flag }

def stringArray (name : String) (items : List String) : Property :=
  { name, dataType := .stringArray, value := .stringArray items }

/-- A text restricted to the accepted values. The first value is not checked against them. -/
def enumeration (name text : String) (accepted : List String) : Property :=
  { name, dataType := .enumeration, value := .string text, accepted }

/-- The name of another object, which must be of type `refType`. -/
def reference (name : String) (refType : ObjectType) (target : String) : Property :=
  { name, dataType := .object, value := .object target, refType := some refType }

/-- The runs of characters between separators. Empty runs are dropped. -/
def runs (separates : Char → Bool) : List Char → (run : List Char) → List (List Char)
  | [], run => if run.isEmpty then [] else [run.reverse]
  | c :: rest, run =>
    if separates c then
      if run.isEmpty then runs separates rest [] else run.reverse :: runs separates rest []
    else runs separates rest (c :: run)

/-- The names in a list such as `a b, c`, with any number of enclosing braces. -/
def nameList (text : String) : List String :=
  let opened := (Text.strip text.toList).dropWhile (· = '\x7b')
  let inner := (opened.reverse.dropWhile (· = '\x7d')).reverse
  (runs (fun c => c = ',' || Text.isBlank c) inner []).map String.ofList

/-- Converts a value to the type of the property. `object` is the name of the object that holds the
property and appears in errors only. -/
def convert (p : Property) (object : String) (v : Value) : Except ObjectError Value :=
  let invalid (accepted : String) : Except ObjectError Value :=
    .error (.invalidPropertyValue object p.name v accepted)
  let typed {α : Type} (r : Except TypeError α) (f : α → Value) : Except ObjectError Value :=
    match r with
    | .ok a => .ok (f a)
    | .error e => .error (.valueType e)
  match p.dataType with
  | .real => typed v.asReal .real
  | .integer => typed v.asInteger .integer
  | .unsignedInt =>
    match v.asInteger with
    | .error e => .error (.valueType e)
    | .ok n => if 0 ≤ n then .ok (.integer n) else invalid "Integer >= 0"
  | .string | .filename => typed v.asString .string
  | .enumeration =>
    match v.asString with
    | .error e => .error (.valueType e)
    | .ok text =>
      if p.accepted.isEmpty || p.accepted.contains text then .ok (.string text)
      else invalid (", ".intercalate p.accepted)
  | .onOff =>
    match v.asOnOff with
    | .ok flag => .ok (.onOff flag)
    | .error _ => invalid "On, Off"
  | .boolean =>
    match v with
    | .boolean flag => .ok (.boolean flag)
    | .string text =>
      match Value.truthWord? text with
      | some flag => .ok (.boolean flag)
      | none => invalid "true, false"
    | _ => invalid "true, false"
  | .object => typed v.asString .object
  | .stringArray | .objectArray =>
    match v with
    | .stringArray items => .ok (.stringArray items)
    | .string text => .ok (.stringArray (nameList text))
    | _ => invalid "a list of names, e.g. \x7ba, b\x7d"
  | .vector | .matrix => typed v.asMatrix .matrix
  | .unknown => .ok v

/-- Updates a reference to the object `old`, also inside a list of names. -/
def renameReferences (p : Property) (old new : String) : Property :=
  match p.value with
  | .object name => if name = old then { p with value := .object new } else p
  | .stringArray items =>
    { p with value := .stringArray (items.map fun item => if item = old then new else item) }
  | _ => p

/-- The reference a property holds, if it is a reference and not empty. -/
def reference? (p : Property) : Option (ObjectType × String) :=
  match p.refType, p.value with
  | some t, .object name => if name.isEmpty then none else some (t, name)
  | _, _ => none

end Property

end Mission
