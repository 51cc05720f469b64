/-! The categories of configured objects. -/
namespace Mission

inductive ObjectType
  | spacecraft
  | burn
  | parameter
  | solarSystem
  | celestialBody
  | calculatedPoint
  | forceModel
  | physicalModel
  | propSetup
  | propagator
  | coordinateSystem
  | axisSystem
  | subscriber
  /-- Anything with a position: spacecraft, bodies and calculated points. -/
  | spacePoint
  | unknown
deriving DecidableEq, Repr, Inhabited

namespace ObjectType

/-- The name in messages. -/
def name : ObjectType → String
  | spacecraft => "Spacecraft"
  | burn => "Burn"
  | parameter => "Parameter"
  | solarSystem => "SolarSystem"
  | celestialBody => "CelestialBody"
  | calculatedPoint => "CalculatedPoint"
  | forceModel => "ForceModel"
  | physicalModel => "PhysicalModel"
  | propSetup => "PropSetup"
  | propagator => "Propagator"
  | coordinateSystem => "CoordinateSystem"
  | axisSystem => "AxisSystem"
  | subscriber => "Subscriber"
  | spacePoint => "SpacePoint"
  | unknown => "UnknownObject"

def all : List ObjectType :=
  [spacecraft, burn, parameter, solarSystem, celestialBody, calculatedPoint, forceModel,
    physicalModel, propSetup, propagator, coordinateSystem, axisSystem, subscriber, spacePoint,
    unknown]

/-- Whether an object of the first type can stand where the second is expected. -/
def isA (actual expected : ObjectType) : Bool :=
  actual = expected ||
    (expected = spacePoint &&
      (actual = spacecraft || actual = celestialBody || actual = calculatedPoint))

end ObjectType

end Mission
