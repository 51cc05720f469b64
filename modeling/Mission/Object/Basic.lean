import Mission.Object.Property
import Mission.Parameter.Kind

/-! Configured objects. An object has an identity apart from its name: what was bound to an object
still sees it after it was renamed or removed. Owned parts are kept beside the object by the registry,
so everything here concerns one object alone. -/
namespace Mission

/-- The identity of an object. -/
structure ObjectId where
  index : Nat
deriving DecidableEq, Repr

/-- A quantity read from an owner object, by name until the owner is bound. -/
structure SystemParameter where
  kind : ParameterKind
  ownerName : String
  /-- The name of the dependency, filled in by its default. Empty if there is none. -/
  dependency : String
  owner : Option ObjectId
  dependencyObject : Option ObjectId

/-- What an object holds beside its properties. -/
inductive Content
  /-- Nothing: the properties say it all. -/
  | plain
  | variable (value : Float)
  /-- The entries, once the size has been set. -/
  | array (values : Option Matrix)
  | text (value : String)
  | parameter (p : SystemParameter)

structure Object where
  name : String
  typeName : String
  objectType : ObjectType
  properties : Table Property := {}
  content : Content := .plain

namespace SystemParameter

/-- Follows a rename. The dependency is renamed as it stands in a dotted name, in front of a dot. -/
def renameReferences (p : SystemParameter) (old new : String) : SystemParameter :=
  { p with
    ownerName := if p.ownerName = old then new else p.ownerName
    dependency :=
      if p.dependency.isEmpty then p.dependency
      else String.ofList (Name.replace (p.dependency ++ ".") old new).toList.dropLast }

/-- Fills in what was found and keeps an earlier binding otherwise. -/
def bind (p : SystemParameter) (owner dependency : Option ObjectId) : SystemParameter :=
  { p with
    owner := owner <|> p.owner
    dependencyObject := dependency <|> p.dependencyObject }

end SystemParameter

namespace Object

instance : Inhabited Object := ⟨{ name := "", typeName := "", objectType := .unknown }⟩

def isOfType (o : Object) (t : ObjectType) : Bool :=
  o.objectType.isA t

/-- Variables, Arrays, Strings and system Parameters. -/
def isParameter (o : Object) : Bool :=
  o.objectType = .parameter

def isVariable (o : Object) : Bool :=
  match o.content with
  | .variable _ => true
  | _ => false

def isArray (o : Object) : Bool :=
  match o.content with
  | .array _ => true
  | _ => false

/-- Strings, and system Parameters that compute text. -/
def isStringObject (o : Object) : Bool :=
  match o.content with
  | .text _ => true
  | .parameter p => p.kind.returnType = .string
  | _ => false

/-- The type of the value the object evaluates to. -/
def returnType (o : Object) : DataType :=
  match o.content with
  | .plain => .object
  | .variable _ => .real
  | .array _ => .matrix
  | .text _ => .string
  | .parameter p => p.kind.returnType

/-- Adds a property, in place of one of the same name. -/
def withProperty (o : Object) (p : Property) : Object :=
  { o with properties := o.properties.insert p.name p }

/-- The position of a property, by which it is bound. -/
def propertyIndex (o : Object) (property : String) : Except ObjectError Nat :=
  match o.properties.index? property with
  | some i => .ok i
  | none => .error (.undefinedProperty o.name property)

def property (o : Object) (index : Nat) : Except ObjectError Property :=
  match o.properties.getAt? index with
  | some p => .ok p
  | none => .error (.undefinedProperty o.name s!"#{index}")

def getAt (o : Object) (index : Nat) : Except ObjectError Value := do
  let p ← o.property index
  return p.value

def get (o : Object) (property : String) : Except ObjectError Value := do
  o.getAt (← o.propertyIndex property)

def getReal (o : Object) (property : String) : Except ObjectError Float := do
  match (← o.get property).asReal with
  | .ok x => return x
  | .error e => throw (.valueType e)

/-- Writes the property at a position. The property must exist and admit writing, and the value is
converted to its type. -/
def setAt (o : Object) (index : Nat) (v : Value) : Except ObjectError Object := do
  let p ← o.property index
  if p.readOnly then throw (.readOnlyProperty o.name p.name)
  let converted ← p.convert o.name v
  return { o with properties := o.properties.modifyAt index fun p => { p with value := converted } }

def set (o : Object) (property : String) (v : Value) : Except ObjectError Object := do
  o.setAt (← o.propertyIndex property) v

/-- The references to other objects held in properties, in order. -/
def references (o : Object) : List (ObjectType × String) :=
  o.properties.values.filterMap Property.reference?

def referencesTo (o : Object) (t : ObjectType) : List String :=
  (o.references.filter fun r => r.1 = t).map Prod.snd

/-- Updates the references to the object `old`, also those of a system Parameter. -/
def renameReferences (o : Object) (old new : String) : Object :=
  { o with
    properties := o.properties.map fun p => p.renameReferences old new
    content :=
      match o.content with
      | .parameter p => .parameter (p.renameReferences old new)
      | content => content }

/-- The entries of a sized Array. -/
def arrayValues (o : Object) : Except ObjectError Matrix :=
  match o.content with
  | .array (some m) => .ok m
  | .array none => .error (.arraySizeNotSet o.name)
  | _ => .error (.notAParameter o.name)

/-- The value an object holds itself. A system Parameter holds none: its value is read from its
owner. -/
def stored (o : Object) : Except ObjectError Value :=
  match o.content with
  | .variable x => .ok (.real x)
  | .array (some m) => .ok (.matrix m)
  | .array none => .error (.arraySizeNotSet o.name)
  | .text s => .ok (.string s)
  | .plain | .parameter _ => .error (.notAParameter o.name)

/-- Writes the value an object holds itself. A Variable takes a real, a String takes text, and a
sized Array takes a matrix of its size. -/
def store (o : Object) (v : Value) : Except ObjectError Object :=
  match o.content with
  | .variable _ =>
    match v.asReal with
    | .ok x => .ok { o with content := .variable x }
    | .error e => .error (.valueType e)
  | .array values =>
    match v.asMatrix, values with
    | .error e, _ => .error (.valueType e)
    | .ok _, none => .error (.arraySizeNotSet o.name)
    | .ok m, some current =>
      if current.dims = m.dims then .ok { o with content := .array (some m) }
      else .error (.dimension ⟨"assignment", current.dims, m.dims⟩)
  | .text _ =>
    match v.asString with
    | .ok s => .ok { o with content := .text s }
    | .error e => .error (.valueType e)
  | .plain | .parameter _ => .error (.notAParameter o.name)

/-- Sets the size of an Array, once, and fills it with zeros. -/
def resize (o : Object) (rows cols : Nat) : Except ObjectError Object :=
  match o.content with
  | .array (some _) => .error (.arraySizeAlreadySet o.name)
  | .array none =>
    if rows = 0 || cols = 0 then .error (.invalidArraySize o.name rows cols)
    else .ok { o with content := .array (some (.zero rows cols)) }
  | _ => .error (.notAParameter o.name)

/-- The index of a position in messages, counted from one. Indices are 64-bit words, so that of the
last position there is comes round to zero. -/
def shownIndex (position : Nat) : Nat :=
  (position + 1) % UInt64.size

def indexError (o : Object) (m : Matrix) (row col : Nat) : ObjectError :=
  .indexOutOfBounds o.name (shownIndex row) (shownIndex col) m.rows m.cols

/-- An entry of a sized Array, counted from zero. -/
def element (o : Object) (row col : Nat) : Except ObjectError Float := do
  let m ← o.arrayValues
  match m.get? row col with
  | some x => return x
  | none => throw (o.indexError m row col)

/-- Writes an entry of a sized Array, counted from zero. -/
def setElement (o : Object) (row col : Nat) (x : Float) : Except ObjectError Object := do
  let m ← o.arrayValues
  match m.get? row col with
  | some _ => return { o with content := .array (some (m.set row col x)) }
  | none => throw (o.indexError m row col)

end Object

end Mission
