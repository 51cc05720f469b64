/-! The types that values, properties and Parameters can have. -/
namespace Mission

inductive DataType
  | integer
  | unsignedInt
  | real
  | string
  | stringArray
  | boolean
  | onOff
  | object
  | objectArray
  | vector
  | matrix
  | enumeration
  | filename
  | unknown
deriving DecidableEq, Repr, Inhabited

namespace DataType

/-- The name in scripts and messages. -/
def name : DataType → String
  | integer => "Integer"
  | unsignedInt => "UnsignedInt"
  | real => "Real"
  | string => "String"
  | stringArray => "StringArray"
  | boolean => "Boolean"
  | onOff => "OnOff"
  | object => "Object"
  | objectArray => "ObjectArray"
  | vector => "Rvector"
  | matrix => "Matrix"
  | enumeration => "Enumeration"
  | filename => "Filename"
  | unknown => "Unknown"

def all : List DataType :=
  [integer, unsignedInt, real, string, stringArray, boolean, onOff, object, objectArray, vector,
    matrix, enumeration, filename, unknown]

def ofName? (text : String) : Option DataType :=
  all.find? fun t => t.name = text

/-- Types whose values can be read as a real number. -/
def isNumeric : DataType → Bool
  | integer | unsignedInt | real => true
  | _ => false

/-- Types whose values can be read as text. Object references are stored by name, so they count. -/
def isStringLike : DataType → Bool
  | string | enumeration | onOff | filename | object => true
  | _ => false

def isMatrix : DataType → Bool
  | vector | matrix => true
  | _ => false

end DataType

end Mission
