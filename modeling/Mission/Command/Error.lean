import Mission.Classify.Error
import Mission.Condition.Operator
import Mission.Expr.Error

/-! What can go wrong when commands are built, checked or run. An error is a cause; where it arose is
added when it is reported. -/
namespace Mission

/-- Whether an error is a problem of the script, or breaks what checking should have ensured. -/
inductive ErrorClass
  | recoverable
  | fatal
deriving DecidableEq, Repr

inductive CommandError
  | context (text : String) (error : CommandError)
  | inFunction (function : String) (error : CommandError)
  | classify (error : ClassifyError)
  | access (error : AccessError)
  | math (error : MathError)
  | object (error : ObjectError)
  | invalidRelationalOperator (text : String)
  | invalidLogicalOperator (text : String)
  | conditionIndex (index count : Nat)
  | logicalOperatorCount (conditions operators : Nat)
  /-- A name of a command to which no accessor has been given. -/
  | missingAccessor (command name : String)
  | unknownName (command name : String)
  | bindingFailed (side name : String)
  | missingEndQuote (text : String)
  | undefinedObject (name referencedIn : String)
  | undefinedReference (objectType : ObjectType) (name referencedIn : String)
  | wrongReferenceType (objectType : ObjectType) (name referencedIn : String)
  | identicalBodies (name body : String)
  | undefinedFunction (name : String)
  | functionArgumentCount (function direction : String) (expected actual : Nat)
  | recursiveCall (name : String)
  | elseInLoop
  | iterationLimit (limit : Nat) (text : String)

namespace CommandError

def errorClass : CommandError → ErrorClass
  | context _ e | inFunction _ e => e.errorClass
  | logicalOperatorCount _ _ | missingAccessor _ _ | access _ => .fatal
  | math e => if e.isFatal then .fatal else .recoverable
  | _ => .recoverable

def message : CommandError → String
  | context text e => s!"{text}:\n  {e.message}"
  | inFunction function e => s!"{e.message}\n(In Function \"{function}\")\n"
  | classify e => e.message
  | access e => e.message
  | math e => e.message
  | object e => e.message
  | invalidRelationalOperator text =>
    s!"The relational operator \"{text}\" is not valid. The valid operators are: " ++
      " ".intercalate (RelationalOperator.all.map RelationalOperator.symbol)
  | invalidLogicalOperator text =>
    s!"The logical operator \"{text}\" is not valid. The valid operators are: " ++
      " ".intercalate (LogicalOperator.all.map LogicalOperator.symbol)
  | conditionIndex index count =>
    s!"The index {index} is out of range; there are {count} condition(s)"
  | logicalOperatorCount conditions operators =>
    s!"Found too few or too many logical operators: {conditions} condition(s) need " ++
      s!"{conditions - 1} logical operator(s), but {operators} were given"
  | missingAccessor command name =>
    s!"The {command} command has no wrapper for \"{name}\"; the command was not validated"
  | unknownName command name => s!"Undefined object \"{name}\" found in command \"{command}\""
  | bindingFailed side name =>
    s!"Failed to set ElementWrapper for {side} object \"{name}\" in Assignment"
  | missingEndQuote text =>
    s!"Assignment command has missing end quote on the right-hand-side\n   \"{text}\""
  | undefinedObject name referencedIn =>
    s!"Nonexistent object \"{name}\" referenced in \"{referencedIn}\""
  | undefinedReference objectType name referencedIn =>
    s!"Nonexistent {objectType.name} \"{name}\" referenced in the {referencedIn}"
  | wrongReferenceType objectType name referencedIn =>
    s!"\"{name}\" referenced in the {referencedIn} is not an object of {objectType.name}"
  | identicalBodies name body =>
    s!"The Primary and Secondary bodies of the LibrationPoint \"{name}\" are both \"{body}\""
  | undefinedFunction name => s!"CallFunction command cannot find Function \"{name}\""
  | functionArgumentCount function direction expected actual =>
    s!"The function \"{function}\" expects {expected} {direction} argument(s), but {actual} were " ++
      "given"
  | recursiveCall name => s!"The function \"{name}\" cannot call itself"
  | elseInLoop => "A While command cannot have an Else branch"
  | iterationLimit limit text => s!"The loop \"{text}\" did not finish within {limit} iterations"

/-- An access error as an error of a command. -/
def liftAccess {α : Type} : Except AccessError α → Except CommandError α
  | .ok a => .ok a
  | .error e => .error (.access e)

def liftMath {α : Type} : Except MathError α → Except CommandError α
  | .ok a => .ok a
  | .error e => .error (.math e)

def liftObject {α : Type} : Except ObjectError α → Except CommandError α
  | .ok a => .ok a
  | .error e => .error (.object e)

end CommandError

/-- A reported error: its cause, and the text and line of the command it arose in. Errors of objects
have no text. -/
structure ValidationError where
  cause : CommandError
  text : String
  line : Option Nat

namespace ValidationError

def errorClass (e : ValidationError) : ErrorClass :=
  e.cause.errorClass

/-- The message together with the place. -/
def message (e : ValidationError) : String :=
  if e.text.isEmpty then e.cause.message
  else
    match e.line with
    | some line => s!"in \"{e.text}\" at line {line}:\n  {e.cause.message}"
    | none => s!"in \"{e.text}\":\n  {e.cause.message}"

end ValidationError

end Mission
