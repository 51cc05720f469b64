import Mission.DataType
import Mission.Matrix
import Mission.Text.Blank

/-! The dynamic values of scripts, their text, and the lenient conversions between them. -/
namespace Mission

inductive Value
  /-- No value, as of a property that was never set. -/
  | absent
  | integer (n : Int64)
  | real (x : Float)
  | string (text : String)
  | stringArray (items : List String)
  | boolean (flag : Bool)
  /-- `true` is `On`. -/
  | onOff (flag : Bool)
  | matrix (m : Matrix)
  /-- A reference to a configured object, by name. -/
  | object (name : String)
deriving Inhabited

/-- A value that cannot be read as the expected type. -/
structure TypeError where
  expected : DataType
  actual : Value

namespace Value

def dataType : Value → DataType
  | absent => .unknown
  | integer _ => .integer
  | real _ => .real
  | string _ => .string
  | stringArray _ => .stringArray
  | boolean _ => .boolean
  | onOff _ => .onOff
  | matrix _ => .matrix
  | object _ => .object

def isAbsent : Value → Bool
  | absent => true
  | _ => false

def toText : Value → String
  | absent => "none"
  | integer n => toString n.toInt
  | real x => Real.toText x
  | string text => text
  | stringArray items => "\x7b" ++ ", ".intercalate items ++ "\x7d"
  | boolean flag => if flag then "true" else "false"
  | onOff flag => if flag then "On" else "Off"
  | matrix m => m.toText
  | object name => name

/-- Integers and 1x1 matrices are reals too. -/
def asReal : Value → Except TypeError Float
  | real x => .ok x
  | integer n => .ok (Real.ofInteger n)
  | matrix m => if m.isScalar then .ok (m.entry 0 0) else .error ⟨.real, matrix m⟩
  | v => .error ⟨.real, v⟩

/-- The reals that are integers of magnitude below `2 ^ 63` are integers too. -/
def asInteger : Value → Except TypeError Int64
  | integer n => .ok n
  | real x =>
    if Real.isIntegral x && -9223372036854775808.0 < x && x < 9223372036854775808.0 then
      .ok (Real.toInteger x)
    else .error ⟨.integer, real x⟩
  | v => .error ⟨.integer, v⟩

/-- Text, or the name of an object. -/
def asString : Value → Except TypeError String
  | string text => .ok text
  | object name => .ok name
  | v => .error ⟨.string, v⟩

def asBoolean : Value → Except TypeError Bool
  | boolean flag => .ok flag
  | v => .error ⟨.boolean, v⟩

/-- The words `On` and `Off`, in any case. -/
def flagWord? (text : String) : Option Bool :=
  if Text.equalsIgnoringCase text "on" then some true
  else if Text.equalsIgnoringCase text "off" then some false
  else none

/-- The words `true` and `false`, in any case. -/
def truthWord? (text : String) : Option Bool :=
  if Text.equalsIgnoringCase text "true" then some true
  else if Text.equalsIgnoringCase text "false" then some false
  else none

/-- A flag, or text that spells one. -/
def asOnOff : Value → Except TypeError Bool
  | onOff flag => .ok flag
  | string text =>
    match flagWord? text with
    | some flag => .ok flag
    | none => .error ⟨.onOff, string text⟩
  | v => .error ⟨.onOff, v⟩

def asMatrix : Value → Except TypeError Matrix
  | matrix m => .ok m
  | v => .error ⟨.matrix, v⟩

def asStringArray : Value → Except TypeError (List String)
  | stringArray items => .ok items
  | v => .error ⟨.stringArray, v⟩

end Value

def TypeError.message (e : TypeError) : String :=
  s!"expected value of type {e.expected.name}, found {e.actual.toText} ({e.actual.dataType.name})"

end Mission
