import Mission.Settings.Json

/-! Settings for checking and running a script, and their JSON form. The form is an object whose
members may come in any order and may be missing, or an array that gives the values in the order of the
fields. -/
namespace Mission

/-- Where the objects live that commands refer to. -/
inductive Manage
  /-- Objects are not managed: commands are accepted without binding anything. -/
  | unmanaged
  /-- Objects belong to the script. -/
  | configuration
  /-- Objects belong to the local store of a function body. -/
  | function
deriving DecidableEq, Repr

namespace Manage

def name : Manage → String
  | unmanaged => "None"
  | configuration => "Configuration"
  | function => "Function"

def ofName? (text : String) : Option Manage :=
  [unmanaged, configuration, function].find? fun m => m.name = text

end Manage

structure Settings where
  /-- Whether recoverable errors are collected rather than ending the check. -/
  continueOnError : Bool := true
  /-- The axes of a coordinate system that has none. -/
  defaultAxisType : String := "MJ2000Eq"
  manage : Manage := .configuration
  /-- Whether a warning is given when an unknown identifier is taken as text. -/
  warnOnDefaultString : Bool := false
  /-- How often the body of a While loop may run. -/
  maxLoopIterations : UInt64 := 100000
deriving DecidableEq, Repr

instance : Inhabited Settings := ⟨{}⟩

namespace Settings

/-- The keys in the order of the fields. -/
def keys : List String :=
  ["continue_on_error", "default_axis_type", "manage", "warn_on_default_string",
    "max_loop_iterations"]

def readFlag : Json → Option Bool
  | .boolean flag => some flag
  | _ => none

def readText : Json → Option String
  | .string text => text
  | _ => none

/-- A name, or an object with the name as its only key and no value. -/
def readManage : Json → Option Manage
  | .string (some text) => Manage.ofName? text
  | .object [(some text, .null)] => Manage.ofName? text
  | _ => none

def readLimit : Json → Option UInt64
  | .number (some n) => if n < UInt64.size then some (UInt64.ofNat n) else none
  | _ => none

/-- Sets the field of a key. Other keys are ignored. -/
def setField (s : Settings) (key : String) (v : Json) : Option Settings :=
  if key = "continue_on_error" then (readFlag v).map ({ s with continueOnError := · })
  else if key = "default_axis_type" then (readText v).map ({ s with defaultAxisType := · })
  else if key = "manage" then (readManage v).map ({ s with manage := · })
  else if key = "warn_on_default_string" then (readFlag v).map ({ s with warnOnDefaultString := · })
  else if key = "max_loop_iterations" then (readLimit v).map ({ s with maxLoopIterations := · })
  else some s

/-- Sets the fields of an object in order. A field may be given only once. -/
def setFields (s : Settings) (seen : List String) : List (Option String × Json) → Option Settings
  | [] => some s
  | (none, _) :: _ => none
  | (some key, v) :: rest =>
    if keys.contains key && seen.contains key then none
    else
      match setField s key v with
      | none => none
      | some s => setFields s (key :: seen) rest

/-- Sets the first fields in their order. -/
def setInOrder (s : Settings) : List String → List Json → Option Settings
  | _, [] => some s
  | [], _ :: _ => none
  | key :: keys, v :: rest =>
    match setField s key v with
    | none => none
    | some s => setInOrder s keys rest

def ofJson? : Json → Option Settings
  | .object members => setFields {} [] members
  | .array items => setInOrder {} keys items
  | _ => none

def parse (text : String) : Option Settings :=
  (Json.parse text).bind ofJson?

def flagText (flag : Bool) : String :=
  if flag then "true" else "false"

/-- The values in the order of the fields, as they are written. -/
def fieldTexts (s : Settings) : List String :=
  [flagText s.continueOnError, Json.quoted s.defaultAxisType, Json.quoted s.manage.name,
    flagText s.warnOnDefaultString, toString s.maxLoopIterations.toNat]

/-- The settings as an object with one member a line. -/
def toJson (s : Settings) : String :=
  let members := List.zipWith (fun key text => "  " ++ Json.quoted key ++ ": " ++ text) keys s.fieldTexts
  "\x7b\n" ++ ",\n".intercalate members ++ "\n\x7d"

end Settings

end Mission
