import Mission.Object.Basic

/-! An object together with the parts it owns, as a value without identity. The catalogue describes
objects this way; installing an assembly in a registry gives its objects their identities. -/
namespace Mission

inductive Assembly
  | mk (object : Object) (parts : List Assembly)

namespace Assembly

def object : Assembly → Object
  | mk o _ => o

def parts : Assembly → List Assembly
  | mk _ ps => ps

def ofObject (o : Object) : Assembly :=
  mk o []

instance : Inhabited Assembly := ⟨ofObject default⟩

/-- Adds an owned part at the end. -/
def withPart (a part : Assembly) : Assembly :=
  mk a.object (a.parts ++ [part])

def withObject (a : Assembly) (o : Object) : Assembly :=
  mk o a.parts

end Assembly

end Mission
