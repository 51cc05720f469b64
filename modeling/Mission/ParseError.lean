/-! Syntax errors in expressions and array references. -/
namespace Mission

inductive ParseError
  /-- Something else stands at the point where `what` was expected, or nothing. -/
  | expected (what source : String) (found : Option Char)
  | invalidNumber (text source : String)
  | incompleteName (name source : String)
  | tooManyIndices (source : String)
deriving DecidableEq, Repr

namespace ParseError

def message : ParseError → String
  | expected what source (some c) =>
    s!"expected {what} in \"{source}\", found `{String.singleton c}`"
  | expected what source none => s!"expected {what} in \"{source}\", reached end of string"
  | invalidNumber text source => s!"invalid number `{text}` in \"{source}\""
  | incompleteName name source => s!"incomplete name `{name}` in \"{source}\""
  | tooManyIndices source => s!"too many indices in \"{source}\", expected at most 2"

end ParseError

end Mission
