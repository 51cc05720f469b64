import Mission.Catalog
import Mission.Log
import Mission.Registry

/-! Stores give objects their names. A store lists its objects in the order in which they were added.
The solar system stands apart from the list, and its bodies are found when nothing else has their
name. -/
namespace Mission

structure Store where
  objects : Table ObjectId := {}
  solarSystem : Option ObjectId := none

instance : Inhabited Store := ⟨{}⟩

namespace Store

/-- The object of a name. An index behind the name is ignored, and `SolarSystem` always names the
solar system. -/
def find? (s : Store) (r : Registry) (name : String) : Option ObjectId :=
  let name := Name.stripIndex name
  if name = "SolarSystem" then s.solarSystem
  else s.objects.get? name <|> s.solarSystem.bind fun system => r.findOwned system name

/-- The object of a name, if it can stand where the type is expected. -/
def findOfType? (s : Store) (r : Registry) (name : String) (t : ObjectType) : Option ObjectId :=
  (s.find? r name).filter fun id => (r.object id).isOfType t

/-- Whether an object of the store has exactly this name. -/
def contains (s : Store) (name : String) : Bool :=
  s.objects.contains name

/-- Names an object of the registry. A name can be given only once. -/
def addId (s : Store) (name : String) (id : ObjectId) : Except ObjectError Store :=
  if s.contains name then .error (.duplicateName name)
  else .ok { s with objects := s.objects.insert name id }

/-- Installs an assembly under its own name. -/
def add (s : Store) (r : Registry) (a : Assembly) :
    Except ObjectError (ObjectId × Store × Registry) :=
  let name := a.object.name
  if s.contains name then .error (.duplicateName name)
  else
    let (id, r) := r.install a
    .ok (id, { s with objects := s.objects.insert name id }, r)

/-- Takes a name out of the store. The object itself stays in the registry. -/
def remove (s : Store) (name : String) : Store :=
  { s with objects := s.objects.erase name }

def installSolarSystem (s : Store) (r : Registry) (a : Assembly) : ObjectId × Store × Registry :=
  let (id, r) := r.install a
  (id, { s with solarSystem := some id }, r)

/-- The coordinate systems every script starts with, and their axis types. -/
def defaultSystems : List (String × String) :=
  [("EarthMJ2000Eq", "MJ2000Eq"), ("EarthMJ2000Ec", "MJ2000Ec"), ("EarthFixed", "BodyFixed")]

/-- A store with the solar system and the default coordinate systems. -/
def withDefaults (r : Registry) : Store × Registry :=
  let (_, s, r) := installSolarSystem {} r Catalog.solarSystem
  defaultSystems.foldl
    (fun (s, r) (name, axes) =>
      match Catalog.coordinateSystem name "Earth" (some axes) with
      | .error _ => (s, r)
      | .ok cs =>
        match s.add r cs with
        | .ok (_, s, r) => (s, r)
        | .error _ => (s, r))
    (s, r)

/-- The names of the store after a rename, with the objects they belong to. -/
def renamedPairs (s : Store) (old new : String) : List (String × ObjectId) :=
  s.objects.entries.map fun (key, id) => (Name.replace key old new, id)

/-- Gives objects the names under which a rename has put them. -/
def renameObjects (r : Registry) (old new : String) (entries : List (String × ObjectId)) :
    Registry :=
  entries.foldl
    (fun r (key, id) =>
      let renamed := Name.replace key old new
      if renamed = key then r else r.modifyObject id fun o => { o with name := renamed })
    r

/-- Renames an object, and with it the Parameters whose names contain its name and the references
that other objects of the store hold. -/
def rename (s : Store) (r : Registry) (old new : String) : Except ObjectError (Store × Registry) :=
  if !s.contains old then .error (.undefinedObject old)
  else if (s.find? r new).isSome then .error (.duplicateName new)
  else
    let r := renameObjects r old new s.objects.entries
    let objects := Table.ofPairs (s.renamedPairs old new)
    let r := objects.values.foldl
      (fun r id => r.modifyObject id fun o => o.renameReferences old new) r
    .ok ({ s with objects }, r)

/-- What a rename writes to the log. -/
def renameMessage (old new : String) : Message :=
  ⟨.debug, s!"Renamed \"{old}\" to \"{new}\""⟩

end Store

/-- The objects visible at a place in a script: those of the local store, then those of an outer one.
New objects always go to the local store. -/
structure Scope where
  store : Store
  outer : Option Store := none

namespace Scope

def find? (s : Scope) (r : Registry) (name : String) : Option ObjectId :=
  s.store.find? r name <|> s.outer.bind fun outer => outer.find? r name

def findOfType? (s : Scope) (r : Registry) (name : String) (t : ObjectType) : Option ObjectId :=
  (s.find? r name).filter fun id => (r.object id).isOfType t

/-- The scope of a function body: a fresh local store in front of the outermost store. -/
def enter (s : Scope) (locals : Store) : Scope :=
  { store := locals, outer := some (s.outer.getD s.store) }

end Scope

end Mission
