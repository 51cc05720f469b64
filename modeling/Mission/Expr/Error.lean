import Mission.Accessor.Error
import Mission.ParseError

/-! What can go wrong when an expression is read, checked or evaluated. -/
namespace Mission

inductive MathError
  | context (text : String) (error : MathError)
  | parse (error : ParseError)
  | missingStartQuote
  | notConstructed (text : String)
  /-- A leaf to which no accessor has been given. -/
  | missingAccessor (name : String)
  | typeMismatch (result target : DataType)
  | invalidOperand (operation : String) (dataType : DataType)
  | argumentCount (function : String) (expected actual : Nat)
  | unsupportedLeaf (name : String) (dataType : DataType)
  | dimension (error : DimensionError)
  | access (error : AccessError)
  | object (error : ObjectError)

namespace MathError

def message : MathError → String
  | context text e => s!"{text}:\n  {e.message}"
  | parse e => s!"syntax error: {e.message}"
  | missingStartQuote =>
    "Found missing start quote on the right-hand side of an Assignment command or equation"
  | notConstructed text => s!"The equation \"{text}\" has not yet been constructed"
  | missingAccessor name =>
    s!"The math element \"{name}\" has no wrapper; the equation was not validated"
  | typeMismatch result target => s!"Cannot set type \"{result.name}\" to type \"{target.name}\""
  | invalidOperand operation dataType =>
    s!"The operation \"{operation}\" is not defined for an input of type {dataType.name}"
  | argumentCount function expected actual =>
    s!"The function \"{function}\" expects {expected} input(s), but {actual} were given"
  | unsupportedLeaf name dataType =>
    s!"\"{name}\" of type {dataType.name} cannot be used in a math equation"
  | dimension e => e.message
  | access e => e.message
  | object e => e.message

/-- Whether the error means that an equation was used before it was complete. -/
def isFatal : MathError → Bool
  | context _ e => e.isFatal
  | notConstructed _ | missingAccessor _ => true
  | _ => false

end MathError

end Mission
