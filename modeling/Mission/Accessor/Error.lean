import Mission.Accessor.Basic

/-! What can go wrong when a value is read or written through an accessor. -/
namespace Mission

inductive AccessError
  | context (text : String) (error : AccessError)
  | notBound (description : String)
  | invalidOperation (operation description : String) (kind : AccessorKind)
  | invalidIndex (description : String) (x : Float)
  | objectTypeMismatch (description expected actual : String)
  | object (error : ObjectError)
  | valueType (error : TypeError)

namespace AccessError

def message : AccessError → String
  | context text e => s!"{text}:\n  {e.message}"
  | notBound description => s!"The wrapper for \"{description}\" has not been bound to an object"
  | invalidOperation operation description kind =>
    s!"{operation} is not valid for the {kind.name} wrapper \"{description}\""
  | invalidIndex description x =>
    s!"The array index {Real.toText x} in \"{description}\" is not a positive integer"
  | objectTypeMismatch description expected actual =>
    s!"Cannot set an object of type {actual} to \"{description}\" of type {expected}"
  | object e => e.message
  | valueType e => e.message

end AccessError

end Mission
