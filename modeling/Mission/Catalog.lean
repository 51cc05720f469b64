import Mission.Object.Assembly

/-! The objects scripts can create, with their properties in order and their initial values. -/
namespace Mission.Catalog

def dateFormats : List String :=
  ["A1ModJulian", "TAIModJulian", "UTCModJulian", "TTModJulian", "A1Gregorian", "TAIGregorian",
    "UTCGregorian", "TTGregorian"]

def stateTypes : List String :=
  ["Cartesian", "Keplerian", "ModifiedKeplerian", "Equinoctial"]

def burnAxes : List String :=
  ["VNB", "LVLH", "MJ2000Eq", "SpacecraftBody"]

/-- The axis types a coordinate system can have. -/
def axisTypes : List String :=
  ["MJ2000Eq", "MJ2000Ec", "BodyFixed", "ObjectReferenced", "TOEEq", "MOEEq", "TODEq", "MODEq",
    "GSE", "GSM"]

/-- An object that is described by its properties alone. -/
def plain (name typeName : String) (objectType : ObjectType) (properties : List Property) :
    Object :=
  properties.foldl Object.withProperty { name, typeName, objectType }

/-- A spacecraft in a low orbit about the Earth. -/
def spacecraft (name : String) : Assembly :=
  .ofObject <| plain name "Spacecraft" .spacecraft
    [.real "Epoch" 21545.0,
      .real "InitialEpoch" 21545.0,
      .enumeration "DateFormat" "A1ModJulian" dateFormats,
      .reference "CoordinateSystem" .coordinateSystem "EarthMJ2000Eq",
      .enumeration "DisplayStateType" "Cartesian" stateTypes,
      .real "X" 7100.0,
      .real "Y" 0.0,
      .real "Z" 1300.0,
      .real "VX" 0.0,
      .real "VY" 7.35,
      .real "VZ" 1.0,
      .real "DryMass" 850.0,
      .real "Cd" 2.2,
      .real "Cr" 1.8,
      .real "DragArea" 15.0,
      .real "SRPArea" 1.0,
      .string "Id" "SatId"]

def impulsiveBurn (name : String) : Assembly :=
  .ofObject <| plain name "ImpulsiveBurn" .burn
    [.string "CoordinateSystem" "Local",
      .reference "Origin" .celestialBody "Earth",
      .enumeration "Axes" "VNB" burnAxes,
      .real "Element1" 0.0,
      .real "Element2" 0.0,
      .real "Element3" 0.0,
      .boolean "DecrementMass" false,
      .real "Isp" 300.0,
      .real "GravitationalAccel" 9.81]

/-- A user Variable, Array or String: a value and no properties. -/
def holder (name typeName : String) (content : Content) : Assembly :=
  .ofObject { name, typeName, objectType := .parameter, content }

def userVariable (name : String) (x : Float) : Assembly :=
  holder name "Variable" (.variable x)

/-- An Array of zeros. If a dimension is zero, the size is left unset. -/
def userArray (name : String) (rows cols : Nat) : Assembly :=
  holder name "Array" (.array (if rows = 0 || cols = 0 then none else some (.zero rows cols)))

def unsizedArray (name : String) : Assembly :=
  holder name "Array" (.array none)

def userString (name text : String) : Assembly :=
  holder name "String" (.text text)

/-- A body with gravitational parameter in km^3/s^2 and radius in km. -/
def celestialBody (name : String) (mu radius : Float) : Assembly :=
  .ofObject <| plain name "CelestialBody" .celestialBody
    [.real "Mu" mu,
      .real "EquatorialRadius" radius,
      .real "Flattening" 0.0,
      .real "NutationUpdateInterval" 60.0]

def solarSystem : Assembly :=
  .mk
    (plain "SolarSystem" "SolarSystem" .solarSystem
      [.enumeration "EphemerisSource" "DE405" ["DE405", "DE421", "DE424", "SPICE"],
        .boolean "UseTTForEphemeris" false,
        .real "EphemerisUpdateInterval" 0.0])
    [celestialBody "Sun" 132712440017.99 695990.0,
      celestialBody "Earth" 398600.4415 6378.1363,
      celestialBody "Luna" 4902.8005821478 1738.2,
      celestialBody "Mars" 42828.314 3396.19]

/-- A force model with the gravity field of the Earth and solar radiation pressure. -/
def forceModel (name : String) : Assembly :=
  .mk
    (plain name "ForceModel" .forceModel
      [.reference "CentralBody" .celestialBody "Earth",
        .stringArray "PrimaryBodies" ["Earth"],
        .stringArray "PointMasses" [],
        .string "Drag" "None",
        .onOff "SRP" false,
        .enumeration "ErrorControl" "RSSStep"
          ["None", "RSSStep", "RSSState", "LargestStep", "LargestState"]])
    [.ofObject <| plain "GravityField.Earth" "GravityField" .physicalModel
        [.integer "Degree" 4,
          .integer "Order" 4,
          .filename "PotentialFile" "JGM2.cof",
          .integer "StmLimit" 100],
      .ofObject <| plain "SRP" "SolarRadiationPressure" .physicalModel
        [.real "Flux" 1367.0,
          .real "Nominal_Sun" 149597870.691]]

/-- A force model paired with an integrator. -/
def propSetup (name : String) : Assembly :=
  .mk
    (plain name "PropSetup" .propSetup
      [.reference "FM" .forceModel "",
        .enumeration "Type" "RungeKutta89"
          ["RungeKutta89", "PrinceDormand78", "AdamsBashforthMoulton"]])
    [.ofObject <| plain "RungeKutta89" "RungeKutta89" .propagator
        [.real "InitialStepSize" 60.0,
          .real "Accuracy" 1e-12,
          .real "MinStep" 0.001,
          .real "MaxStep" 2700.0,
          .integer "MaxStepAttempts" 50]]

/-- Axes of one of the axis types. -/
def axisSystem (axisType : String) : Except ObjectError Assembly :=
  if axisTypes.contains axisType then
    .ok <| .ofObject <| plain axisType axisType .axisSystem
      [.real "Epoch" 21545.0,
        .reference "Primary" .spacePoint "",
        .reference "Secondary" .spacePoint "",
        .string "XAxis" "",
        .string "YAxis" "",
        .string "ZAxis" ""]
  else
    .error (.invalidPropertyValue "CoordinateSystem" "Axes" (.string axisType)
      (", ".intercalate axisTypes))

/-- A coordinate system, with axes if an axis type is given. -/
def coordinateSystem (name origin : String) (axes : Option String) :
    Except ObjectError Assembly := do
  let parts ← match axes with
    | none => pure []
    | some axisType => do
      let part ← axisSystem axisType
      pure [part]
  return .mk
    (plain name "CoordinateSystem" .coordinateSystem
      [.reference "Origin" .spacePoint origin,
        .string "Axes" (axes.getD "")])
    parts

/-- A Lagrange point of two bodies. -/
def librationPoint (name primary secondary point : String) : Assembly :=
  .ofObject <| plain name "LibrationPoint" .calculatedPoint
    [.reference "Primary" .spacePoint primary,
      .reference "Secondary" .spacePoint secondary,
      .enumeration "Point" point ["L1", "L2", "L3", "L4", "L5"]]

def reportFile (name : String) : Assembly :=
  .ofObject <| plain name "ReportFile" .subscriber
    [.filename "Filename" (name ++ ".txt"),
      .integer "Precision" 16,
      .boolean "WriteHeaders" true,
      .onOff "ZeroFill" false,
      .integer "ColumnWidth" 23]

/-- The object a `Create` line asks for. -/
def create (typeName name : String) : Except ObjectError Assembly :=
  match typeName with
  | "Spacecraft" => .ok (spacecraft name)
  | "ImpulsiveBurn" => .ok (impulsiveBurn name)
  | "Variable" => .ok (userVariable name 0.0)
  | "Array" => .ok (unsizedArray name)
  | "String" => .ok (userString name "")
  | "ForceModel" => .ok (forceModel name)
  | "Propagator" => .ok (propSetup name)
  | "PropSetup" => .ok (propSetup name)
  | "CoordinateSystem" => coordinateSystem name "Earth" none
  | "LibrationPoint" => .ok (librationPoint name "Sun" "Earth" "L1")
  | "ReportFile" => .ok (reportFile name)
  | _ => .error (.undefinedObject typeName)

/-- The type of value that an object of the given script type holds. -/
def heldType (typeName : String) : DataType :=
  match typeName with
  | "Variable" => .real
  | "Array" => .matrix
  | "String" => .string
  | _ => .object

end Mission.Catalog
