import Mission.Parameter.Calendar
import Mission.Parameter.Orbit

/-! The values of Parameters, computed from the owner and the dependency. -/
namespace Mission

/-- Days from the initial epoch of a spacecraft to its current epoch. -/
def daysElapsed (owner : Object) : Except ObjectError Float := do
  let epoch ← owner.getReal "Epoch"
  return epoch - (← owner.getReal "InitialEpoch")

def Quantity.compute (q : Quantity) (owner : Object) (dependency : Option Object) :
    Except ObjectError Value := do
  match q with
  | .field property => owner.get property
  | .radius => return .real (← Orbit.State.of owner).position.norm
  | .speed => return .real (← Orbit.State.of owner).velocity.norm
  | .semiMajorAxis => return .real (← Orbit.Elements.of owner dependency).semiMajorAxis
  | .eccentricity => return .real (← Orbit.Elements.of owner dependency).eccentricity
  | .inclination => return .real (← Orbit.Elements.of owner dependency).inclination
  | .energy => return .real (← Orbit.Elements.of owner dependency).energy
  | .elapsedDays => return .real (← daysElapsed owner)
  | .elapsedSeconds => return .real ((← daysElapsed owner) * 86400.0)
  | .calendarDate =>
    let epoch ← owner.getReal "Epoch"
    match Calendar.ofModJulian epoch with
    | some text => return .string text
    | none =>
      throw (.invalidPropertyValue owner.name "Epoch" (.real epoch)
        "epochs between the years -262144 and 262143")

end Mission
