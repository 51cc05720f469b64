import Mission.Object.Kind
import Mission.Value

/-! What can go wrong with objects, and how it is worded. -/
namespace Mission

inductive ObjectError
  | undefinedObject (name : String)
  | undefinedProperty (object property : String)
  | readOnlyProperty (object property : String)
  | invalidPropertyValue (object property : String) (value : Value) (accepted : String)
  | valueType (error : TypeError)
  | dimension (error : DimensionError)
  /-- Row and column are counted from one. -/
  | indexOutOfBounds (array : String) (row col rows cols : Nat)
  | arraySizeNotSet (array : String)
  | arraySizeAlreadySet (array : String)
  | invalidArraySize (array : String) (rows cols : Nat)
  | unknownParameterType (typeName : String)
  | parameterOwnerMissing (parameter owner : String)
  | wrongOwnerType (parameter owner : String) (expected : ObjectType)
  | parameterNotSettable (parameter : String)
  | notAParameter (name : String)
  | duplicateName (name : String)

namespace ObjectError

def message : ObjectError → String
  | undefinedObject name => s!"Nonexistent object \"{name}\""
  | undefinedProperty object property => s!"\"{property}\" is not a valid field of \"{object}\""
  | readOnlyProperty object property => s!"The field \"{property}\" on \"{object}\" is read-only"
  | invalidPropertyValue object property value accepted =>
    s!"The value of \"{value.toText}\" for field \"{property}\" on object \"{object}\" is not an " ++
      s!"allowed value.\nThe allowed values are: [{accepted}]"
  | valueType e => e.message
  | dimension e => e.message
  | indexOutOfBounds array row col rows cols =>
    s!"Index ({row}, {col}) is out of bounds for the Array \"{array}\"; valid rows are 1 to {rows} " ++
      s!"and valid columns are 1 to {cols}"
  | arraySizeNotSet array => s!"The size of the Array \"{array}\" has not been set"
  | arraySizeAlreadySet array => s!"The size of the Array \"{array}\" has already been set"
  | invalidArraySize array rows cols =>
    s!"Invalid size {rows}x{cols} for the Array \"{array}\"; both dimensions must be at least 1"
  | unknownParameterType typeName => s!"\"{typeName}\" is not a valid Parameter Type"
  | parameterOwnerMissing parameter owner =>
    s!"Nonexistent object \"{owner}\" referenced in \"{parameter}\""
  | wrongOwnerType parameter owner expected =>
    s!"The Parameter \"{parameter}\" requires an owner of type {expected.name}, but \"{owner}\" " ++
      "is not one"
  | parameterNotSettable parameter => s!"The Parameter \"{parameter}\" is read-only"
  | notAParameter name => s!"\"{name}\" is not a Parameter"
  | duplicateName name => s!"An object named \"{name}\" already exists"

end ObjectError

end Mission
