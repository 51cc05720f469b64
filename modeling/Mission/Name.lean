import Mission.Text.Blank

/-! Identifiers of scripts. A name is a run of ASCII letters, digits and underscores; a dotted name
leads from an owner over an optional dependency to a field. Renaming works on whole text and touches
only the places that refer to an object. -/
namespace Mission.Name

def isNameChar (c : Char) : Bool :=
  c.isAlphanum || c = '_'

/-- A letter followed by name characters. -/
def isValid (text : String) : Bool :=
  match text.toList with
  | [] => false
  | c :: rest => c.isAlpha && rest.all isNameChar

/-- The single quote, which delimits string literals. -/
def quote : Char := '\x27'

/-- Whether an occurrence of `source` at the front of `text`, preceded by `prev`, refers to an object.
It must be a whole identifier, and it must not be a field: a name right after a dot is a field unless
another dot follows it. -/
def isReference (source : List Char) (prev : Option Char) (text : List Char) : Bool :=
  let next := (text.drop source.length).head?
  source.isPrefixOf text && !prev.any isNameChar && !next.any isNameChar
    && !(prev = some '.' && next ≠ some '.')

/-- The renaming scan. `skip` counts the characters of a replaced occurrence still to be passed over,
`quoted` says whether the scan is inside a string literal, and `prev` is the character before the
current one. -/
def replaceFrom (source target : List Char) :
    List Char → (skip : Nat) → (quoted : Bool) → (prev : Option Char) → List Char
  | [], _, _, _ => []
  | _ :: rest, skip + 1, quoted, prev => replaceFrom source target rest skip quoted prev
  | c :: rest, 0, quoted, prev =>
    let quoted := if c = quote then !quoted else quoted
    if !quoted && isReference source prev (c :: rest) then
      target ++ replaceFrom source target rest (source.length - 1) quoted source.getLast?
    else c :: replaceFrom source target rest 0 quoted (some c)

def replaceChars (source target text : List Char) : List Char :=
  if source.isEmpty then text else replaceFrom source target text 0 false none

/-- Replaces the references to `source` by `target`: whole identifiers outside quotes that are not
fields. -/
def replace (text source target : String) : String :=
  String.ofList (replaceChars source.toList target.toList text.toList)

/-- The text before an index or bracket, without blanks around it. -/
def stripIndex (text : String) : String :=
  String.ofList (Text.strip (text.toList.takeWhile fun c => c ≠ '(' && c ≠ '['))

end Mission.Name

namespace Mission

/-- The parts of `owner.dependency.field`. The dependency is all that stands between the first and
the last dot and may contain dots. -/
structure DottedName where
  owner : String
  dependency : String
  field : String
deriving DecidableEq, Repr

namespace DottedName

/-- Splits at the first and the last dot. Without a dot there are no parts at all. -/
def parse (text : String) : DottedName :=
  let cs := text.toList
  match cs.dropWhile (· ≠ '.') with
  | [] => ⟨"", "", ""⟩
  | _ :: rest =>
    let field := (rest.reverse.takeWhile (· ≠ '.')).reverse
    let middle := rest.take (rest.length - field.length - 1)
    ⟨String.ofList (cs.takeWhile (· ≠ '.')), String.ofList middle, String.ofList field⟩

/-- The number of dots in a text. -/
def dots (text : String) : Nat :=
  text.toList.count '.'

end DottedName

end Mission
