import Mission.Registry

/-! Accessors: what a name or literal in a script stands for, once it has been classified. A literal
carries its value; every other accessor is bound to objects by identity and keeps the text it was made
from. -/
namespace Mission

inductive AccessorKind
  | number
  | string
  | boolean
  | onOff
  | objectProperty
  | parameter
  | variable
  | array
  | arrayElement
  | object
  | stringObject
deriving DecidableEq, Repr

namespace AccessorKind

/-- The name in messages. -/
def name : AccessorKind → String
  | number => "Number"
  | string => "String"
  | boolean => "Boolean"
  | onOff => "OnOff"
  | objectProperty => "ObjectProperty"
  | parameter => "Parameter"
  | .variable => "Variable"
  | array => "Array"
  | arrayElement => "ArrayElement"
  | object => "Object"
  | stringObject => "StringObject"

/-- Kinds that are never bound to an object. -/
def isLiteral : AccessorKind → Bool
  | number | string | boolean | onOff => true
  | _ => false

/-- Kinds that can be read or written as a number. -/
def isNumeric : AccessorKind → Bool
  | number | objectProperty | parameter | .variable | array | arrayElement | object => true
  | _ => false

/-- Kinds that can be read or written as text. -/
def isTextual : AccessorKind → Bool
  | string | objectProperty | parameter | stringObject => true
  | _ => false

def isTruth : AccessorKind → Bool
  | boolean | objectProperty | parameter => true
  | _ => false

def isFlag : AccessorKind → Bool
  | onOff | objectProperty | parameter => true
  | _ => false

/-- Kinds that can be read or written as a matrix. -/
def isMatrix : AccessorKind → Bool
  | array | objectProperty | parameter | object => true
  | _ => false

/-- Kinds with an object behind them. -/
def isReferent : AccessorKind → Bool
  | object | parameter | .variable | array | stringObject => true
  | _ => false

end AccessorKind

/-- The kinds of accessor that stand for an object as a whole. -/
inductive WholeKind
  | parameter
  | variable
  | array
  | object
  | stringObject
deriving DecidableEq, Repr

def WholeKind.kind : WholeKind → AccessorKind
  | .parameter => .parameter
  | .variable => .variable
  | .array => .array
  | .object => .object
  | .stringObject => .stringObject

/-- The kind of accessor an object as a whole is given. -/
def WholeKind.of (o : Object) : WholeKind :=
  if o.isVariable then .variable
  else if o.isArray then .array
  else if o.isStringObject then .stringObject
  else if o.isParameter then .parameter
  else .object

/-- A property reached from an owner by names, and where it was found. -/
structure PropertyRef where
  owner : String
  /-- The part of the owner that has the property. Empty for the owner itself or any part. -/
  part : String
  property : String
  target : Option (ObjectId × Nat) := none

/-- Looks the property up from the owner object. -/
def PropertyRef.bind (p : PropertyRef) (r : Registry) (owner : ObjectId) : PropertyRef :=
  { p with target := r.findProperty owner p.part p.property }

inductive Accessor
  | number (description : String) (x : Float)
  | string (description : String) (text : String)
  | boolean (description : String) (flag : Bool)
  | onOff (description : String) (flag : Bool)
  | property (description : String) (ref : PropertyRef)
  | whole (description : String) (kind : WholeKind) (target : Option ObjectId)
  | element (description : String) (name : String) (array : Option ObjectId)
      (row column : Accessor)

namespace Accessor

instance : Inhabited Accessor := ⟨number "" 0.0⟩

/-- The accessor of an object as a whole. -/
def ofObject (r : Registry) (description : String) (id : ObjectId) : Accessor :=
  whole description (.of (r.object id)) (some id)

def description : Accessor → String
  | number d _ | string d _ | boolean d _ | onOff d _ | property d _ | whole d _ _
  | element d _ _ _ _ => d

def kind : Accessor → AccessorKind
  | number _ _ => .number
  | string _ _ => .string
  | boolean _ _ => .boolean
  | onOff _ _ => .onOff
  | property _ _ => .objectProperty
  | whole _ k _ => k.kind
  | element _ _ _ _ _ => .arrayElement

/-- Adds the items that are not there yet. -/
def union (names others : List String) : List String :=
  others.foldl (fun acc name => if acc.contains name then acc else acc ++ [name]) names

/-- The names of the objects the accessor binds to, each once. -/
def refNames : Accessor → List String
  | number _ _ | string _ _ | boolean _ _ | onOff _ _ => []
  | property _ p => [p.owner]
  | whole d _ _ => [d]
  | element _ name _ row column => union [name] (row.refNames ++ column.refNames)

/-- Whether every object the accessor needs has been bound. -/
def isBound : Accessor → Bool
  | number _ _ | string _ _ | boolean _ _ | onOff _ _ => true
  | property _ p => p.target.isSome
  | whole _ _ target => target.isSome
  | element _ _ array row column => array.isSome && row.isBound && column.isBound

/-- Binds an object wherever the accessor refers to it by its name, and tells whether it did. -/
def bind (r : Registry) (id : ObjectId) : Accessor → Accessor × Bool
  | property d p =>
    if p.owner = (r.object id).name then
      let p := p.bind r id
      (property d p, p.target.isSome)
    else (property d p, false)
  | whole d k target =>
    if d = (r.object id).name then (whole d k (some id), true) else (whole d k target, false)
  | element d name array row column =>
    let here := name = (r.object id).name && (r.object id).isArray
    let (row, inRow) := row.bind r id
    let (column, inColumn) := column.bind r id
    (element d name (if here then some id else array) row column, here || inRow || inColumn)
  | literal => (literal, false)

/-- Follows a rename in the texts. The objects themselves are bound by identity and need nothing. -/
def rename (old new : String) : Accessor → Accessor
  | number d x => number (Name.replace d old new) x
  | string d s => string (Name.replace d old new) s
  | boolean d b => boolean (Name.replace d old new) b
  | onOff d b => onOff (Name.replace d old new) b
  | property d p =>
    property (Name.replace d old new)
      { p with owner := Name.replace p.owner old new, part := Name.replace p.part old new }
  | whole d k target => whole (Name.replace d old new) k target
  | element d name array row column =>
    element (Name.replace d old new) (Name.replace name old new) array (row.rename old new)
      (column.rename old new)

/-- The type of the value behind the accessor. It is unknown as long as it depends on an object that
has not been bound. -/
def dataType (r : Registry) : Accessor → DataType
  | number _ _ | element _ _ _ _ _ => .real
  | string _ _ => .string
  | boolean _ _ => .boolean
  | onOff _ _ => .onOff
  | property _ p =>
    match p.target with
    | some (id, index) => (((r.object id).properties.getAt? index).map Property.dataType).getD .unknown
    | none => .unknown
  | whole _ .variable _ => .real
  | whole _ .array _ => .matrix
  | whole _ .object _ => .object
  | whole _ .stringObject _ => .string
  | whole _ .parameter target => (target.map fun id => (r.object id).returnType).getD .unknown

end Accessor

end Mission
