import Mission.Object.Basic

/-! Two-body orbital elements from a Cartesian state. -/
namespace Mission.Orbit

structure Vector where
  x : Float
  y : Float
  z : Float

namespace Vector

def dot (a b : Vector) : Float :=
  a.x * b.x + a.y * b.y + a.z * b.z

def norm (a : Vector) : Float :=
  (a.dot a).sqrt

def cross (a b : Vector) : Vector :=
  ⟨a.y * b.z - a.z * b.y, a.z * b.x - a.x * b.z, a.x * b.y - a.y * b.x⟩

end Vector

/-- Position in km and velocity in km/s. -/
structure State where
  position : Vector
  velocity : Vector

/-- Reads the state of a spacecraft. The first field that is missing or not a number is reported. -/
def State.of (o : Object) : Except ObjectError State := do
  let x ← o.getReal "X"
  let y ← o.getReal "Y"
  let z ← o.getReal "Z"
  let vx ← o.getReal "VX"
  let vy ← o.getReal "VY"
  let vz ← o.getReal "VZ"
  return ⟨⟨x, y, z⟩, ⟨vx, vy, vz⟩⟩

/-- The gravitational parameter of the Earth in km^3/s^2, taken when no body is given. -/
def earthMu : Float := 398600.4415

def mu (body : Option Object) : Except ObjectError Float :=
  match body with
  | some b => if b.isOfType .celestialBody then b.getReal "Mu" else .ok earthMu
  | none => .ok earthMu

structure Elements where
  semiMajorAxis : Float
  eccentricity : Float
  /-- In degrees. -/
  inclination : Float
  energy : Float

def Elements.ofState (mu : Float) (s : State) : Elements :=
  let r := s.position.norm
  let v := s.velocity.norm
  let h := s.position.cross s.velocity
  let energy := v * v / 2.0 - mu / r
  let radial := s.position.dot s.velocity
  let component (p w : Float) : Float := ((v * v - mu / r) * p - radial * w) / mu
  let e : Vector :=
    ⟨component s.position.x s.velocity.x, component s.position.y s.velocity.y,
      component s.position.z s.velocity.z⟩
  { semiMajorAxis := -mu / (2.0 * energy)
    eccentricity := e.norm
    inclination := Real.toDegrees (Real.clamp (h.z / h.norm) (-1.0) 1.0).acos
    energy }

/-- The elements of a spacecraft about a body. -/
def Elements.of (owner : Object) (body : Option Object) : Except ObjectError Elements := do
  let mu ← mu body
  return .ofState mu (← State.of owner)

end Mission.Orbit
