import Mission.Name
import Mission.Object.Kind
import Mission.Table
import Mission.Value

/-! The Parameter types: what a dotted name such as `sat1.Earth.SMA` stands for. A type is a table
entry, so new names can be given to known quantities. -/
namespace Mission

/-- What a Parameter computes from its owner. -/
inductive Quantity
  /-- The value of a property, as it is. -/
  | field (property : String)
  | radius
  | speed
  | semiMajorAxis
  | eccentricity
  | inclination
  | energy
  | elapsedDays
  | elapsedSeconds
  | calendarDate
deriving DecidableEq, Repr

/-- What the middle part of `owner.dependency.type` refers to. -/
inductive Dependency
  | none
  | coordinateSystem
  | celestialBody
deriving DecidableEq, Repr

/-- The dependency taken when a name leaves it out. -/
def Dependency.defaultName : Dependency → Option String
  | .none => .none
  | .coordinateSystem => some "EarthMJ2000Eq"
  | .celestialBody => some "Earth"

structure ParameterKind where
  typeName : String
  quantity : Quantity
  returnType : DataType
  ownerType : ObjectType
  dependency : Dependency
  /-- The property of the owner that an assignment writes, if values can be assigned. -/
  writes : Option String

namespace ParameterKind

def isSettable (k : ParameterKind) : Bool :=
  k.writes.isSome

/-- A property of the owner that can be read and written. -/
def ofField (name : String) (owner : ObjectType) (dependency : Dependency) : ParameterKind :=
  ⟨name, .field name, .real, owner, dependency, some name⟩

/-- A quantity of a spacecraft that can only be read. -/
def computed (name : String) (quantity : Quantity) (dependency : Dependency)
    (returnType : DataType) : ParameterKind :=
  ⟨name, quantity, returnType, .spacecraft, dependency, none⟩

/-- The Parameter types every script knows. -/
def builtin : List ParameterKind :=
  [ofField "X" .spacecraft .coordinateSystem,
    ofField "Y" .spacecraft .coordinateSystem,
    ofField "Z" .spacecraft .coordinateSystem,
    ofField "VX" .spacecraft .coordinateSystem,
    ofField "VY" .spacecraft .coordinateSystem,
    ofField "VZ" .spacecraft .coordinateSystem,
    ofField "DryMass" .spacecraft .none,
    ofField "Element1" .burn .none,
    ofField "Element2" .burn .none,
    ofField "Element3" .burn .none,
    computed "RMAG" .radius .celestialBody .real,
    computed "VMAG" .speed .celestialBody .real,
    computed "SMA" .semiMajorAxis .celestialBody .real,
    computed "ECC" .eccentricity .celestialBody .real,
    computed "INC" .inclination .celestialBody .real,
    computed "Energy" .energy .celestialBody .real,
    computed "TotalMass" (.field "DryMass") .none .real,
    computed "A1ModJulian" (.field "Epoch") .none .real,
    computed "ElapsedDays" .elapsedDays .none .real,
    computed "ElapsedSecs" .elapsedSeconds .none .real,
    computed "A1Gregorian" .calendarDate .none .string]

end ParameterKind

/-- The Parameter types known to an interpreter, by type name. -/
abbrev ParameterKinds := Table ParameterKind

namespace ParameterKinds

/-- Adds a type, in place of one of the same name. -/
def register (kinds : ParameterKinds) (kind : ParameterKind) : ParameterKinds :=
  Table.insert kinds kind.typeName kind

def builtin : ParameterKinds :=
  ParameterKind.builtin.foldl register {}

def isSettable (kinds : ParameterKinds) (typeName : String) : Bool :=
  (Table.get? kinds typeName).any ParameterKind.isSettable

/-- Whether the last part of a dotted text is the name of a Parameter type. -/
def describes (kinds : ParameterKinds) (text : String) : Bool :=
  Table.contains kinds (DottedName.parse text).field

end ParameterKinds

end Mission
