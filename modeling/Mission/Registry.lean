import Mission.Object.Assembly
import Mission.Parameter.Quantity
import Mission.Sequence

/-! The registry of all objects by identity. Objects are only ever added, so an identity stays valid
for good: a removed object is one that no store names any more. Owned parts are kept as identities,
which makes replacing a part visible to every reader of the owner and invisible to a reader that was
bound to the old part. -/
namespace Mission

/-- An object and the identities of the parts it owns. -/
structure Entry where
  object : Object
  owned : List ObjectId := []

instance : Inhabited Entry := ⟨{ object := default }⟩

structure Registry where
  entries : Sequence Entry := .empty

instance : Inhabited Registry := ⟨{}⟩

namespace Registry

def entry (r : Registry) (id : ObjectId) : Entry :=
  (r.entries.get? id.index).getD default

def object (r : Registry) (id : ObjectId) : Object :=
  (r.entry id).object

def owned (r : Registry) (id : ObjectId) : List ObjectId :=
  (r.entry id).owned

def modify (r : Registry) (id : ObjectId) (f : Entry → Entry) : Registry :=
  ⟨r.entries.modify id.index f⟩

def modifyObject (r : Registry) (id : ObjectId) (f : Object → Object) : Registry :=
  r.modify id fun e => { e with object := f e.object }

def setObject (r : Registry) (id : ObjectId) (o : Object) : Registry :=
  r.modify id fun e => { e with object := o }

/-- Adds an entry under a fresh identity. -/
def push (r : Registry) (e : Entry) : ObjectId × Registry :=
  (⟨r.entries.size⟩, ⟨r.entries.push e⟩)

mutual

/-- Adds the objects of an assembly under fresh identities and gives the identity of its object. -/
def install (r : Registry) : Assembly → ObjectId × Registry
  | .mk o parts =>
    let (owned, r) := r.installAll parts
    r.push { object := o, owned }

def installAll (r : Registry) : List Assembly → List ObjectId × Registry
  | [] => ([], r)
  | a :: rest =>
    let (id, r) := r.install a
    let (ids, r) := r.installAll rest
    (id :: ids, r)

end

/-- The object and its parts as a value, followed through at most `depth` levels of ownership. -/
def assemblyTo (r : Registry) : (depth : Nat) → ObjectId → Assembly
  | 0, id => .ofObject (r.object id)
  | depth + 1, id => .mk (r.object id) ((r.owned id).map (assemblyTo r depth))

/-- The object and its parts as a value. Ownership is never circular, so no chain of owners is longer
than the number of objects. -/
def assembly (r : Registry) (id : ObjectId) : Assembly :=
  r.assemblyTo r.entries.size id

/-- An object that stays a value, with the parts of an assembly under fresh identities. -/
def hold (r : Registry) (a : Assembly) : Entry × Registry :=
  let (owned, r) := r.installAll a.parts
  ({ object := a.object, owned }, r)

def holdAll (r : Registry) : List Assembly → List Entry × Registry
  | [] => ([], r)
  | a :: rest =>
    let (e, r) := r.hold a
    let (es, r) := r.holdAll rest
    (e :: es, r)

/-- A copy of an object that is held as a value, with its parts as they are now. -/
def copy (r : Registry) (e : Entry) : Assembly :=
  .mk e.object (e.owned.map r.assembly)

/-- Gives `target` the state of an assembly, with fresh parts. The target keeps its name and its
identity. -/
def overwrite (r : Registry) (target : ObjectId) (a : Assembly) : Registry :=
  let name := (r.object target).name
  let (owned, r) := r.installAll a.parts
  r.modify target fun _ => { object := { a.object with name }, owned }

/-- The part of an object with the given name. -/
def findOwned (r : Registry) (id : ObjectId) (name : String) : Option ObjectId :=
  (r.owned id).find? fun part => (r.object part).name = name

/-- The first part that has the property, among the parts of the given name if one is given. -/
def findOwnedProperty (r : Registry) (id : ObjectId) (part property : String) :
    Option (ObjectId × Nat) :=
  (r.owned id).findSome? fun candidate =>
    let o := r.object candidate
    if !part.isEmpty && o.name ≠ part then none
    else (o.properties.index? property).map fun i => (candidate, i)

/-- The property of an object, or of its part of the given name. Without a part the object's own
properties come first, then those of its parts in order. -/
def findProperty (r : Registry) (id : ObjectId) (part property : String) :
    Option (ObjectId × Nat) :=
  let own :=
    if part.isEmpty then ((r.object id).properties.index? property).map fun i => (id, i) else none
  own <|> r.findOwnedProperty id part property

/-- Drops the parts of a type and adds a part at the end. -/
def replaceOwned (r : Registry) (id : ObjectId) (t : ObjectType) (part : Assembly) : Registry :=
  let kept := (r.owned id).filter fun p => (r.object p).objectType ≠ t
  let (new, r) := r.install part
  r.modify id fun e => { e with owned := kept ++ [new] }

def hasAxisSystem (r : Registry) (id : ObjectId) : Bool :=
  (r.owned id).any fun p => (r.object p).objectType = .axisSystem

/-- The bound owner of a Parameter called `name`. -/
def ownerOf (p : SystemParameter) (name : String) : Except ObjectError ObjectId :=
  match p.owner with
  | some id => .ok id
  | none => .error (.parameterOwnerMissing name p.ownerName)

/-- The value of an object: what it holds itself, or for a system Parameter what is computed from its
owner now. -/
def evaluate (r : Registry) (id : ObjectId) : Except ObjectError Value :=
  let o := r.object id
  match o.content with
  | .parameter p => do
    let owner ← ownerOf p o.name
    p.kind.quantity.compute (r.object owner) (p.dependencyObject.map r.object)
  | _ => o.stored

/-- Writes the value of an object. Through a settable Parameter the property of its owner is
written. -/
def assign (r : Registry) (id : ObjectId) (v : Value) : Except ObjectError Registry :=
  let o := r.object id
  match o.content with
  | .parameter p =>
    match p.kind.writes with
    | none => .error (.parameterNotSettable o.name)
    | some property => do
      let owner ← ownerOf p o.name
      return r.setObject owner (← (r.object owner).set property v)
  | _ => do return r.setObject id (← o.store v)

/-- Writes the property at a position of an object. -/
def setProperty (r : Registry) (id : ObjectId) (index : Nat) (v : Value) :
    Except ObjectError Registry := do
  return r.setObject id (← (r.object id).setAt index v)

/-- Writes an entry of an Array, counted from zero. -/
def setElement (r : Registry) (id : ObjectId) (row col : Nat) (x : Float) :
    Except ObjectError Registry := do
  return r.setObject id (← (r.object id).setElement row col x)

end Registry

end Mission
