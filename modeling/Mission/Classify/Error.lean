import Mission.Object.Error
import Mission.ParseError

/-! Why a text in a script cannot be given a meaning. -/
namespace Mission

inductive ClassifyError
  | context (text : String) (error : ClassifyError)
  | parse (error : ParseError)
  | arrayNotFound (name : String)
  | notAnArray (name : String)
  | bodyNotFound (name : String)
  | undefinedObject (name : String)
  | noValidField (description : String)
  | ownedFieldNotFound (description owner : String) (ownerType : ObjectType)
  | parameter (description : String) (error : ObjectError)
  | object (error : ObjectError)

namespace ClassifyError

def message : ClassifyError → String
  | context text e => s!"{text}:\n  {e.message}"
  | parse e => s!"syntax error: {e.message}"
  | arrayNotFound name => s!"The Array \"{name}\" does not exist"
  | notAnArray name => s!"\"{name}\" is not an Array"
  | bodyNotFound name => s!"The body named \"{name}\" not found in the SolarSystem"
  | undefinedObject name => s!"Nonexistent object \"{name}\""
  | noValidField description =>
    s!"\"{description}\" does not have a valid field of object or owned object"
  | ownedFieldNotFound description owner ownerType =>
    s!"\"{description}\" is not a field of the {ownerType.name} \"{owner}\" or of any object it owns"
  | parameter description e => s!"Cannot create the Parameter \"{description}\": {e.message}"
  | object e => e.message

end ClassifyError

end Mission
