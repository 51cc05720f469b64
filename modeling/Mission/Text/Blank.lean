/-! Blank characters and trimming. The class is the White_Space property of the Unicode standard,
which is wider than the blanks of ASCII: a no-break space ends a word and is trimmed, while a
zero-width space is an ordinary character. Everything is defined on character lists; the operations
on strings only convert. -/
namespace Mission.Text

/-- The White_Space code points. -/
def blankCodes : List Nat :=
  [0x09, 0x0A, 0x0B, 0x0C, 0x0D, 0x20, 0x85, 0xA0, 0x1680, 0x2000, 0x2001, 0x2002, 0x2003, 0x2004,
    0x2005, 0x2006, 0x2007, 0x2008, 0x2009, 0x200A, 0x2028, 0x2029, 0x202F, 0x205F, 0x3000]

def isBlank (c : Char) : Bool :=
  blankCodes.contains c.toNat

example : blankCodes.length = 25 := rfl

/-- Drops the blanks in front. -/
def stripStart (cs : List Char) : List Char :=
  cs.dropWhile isBlank

/-- Drops the blanks at the end. -/
def stripEnd (cs : List Char) : List Char :=
  (cs.reverse.dropWhile isBlank).reverse

/-- Drops the blanks at both ends and keeps those inside. -/
def strip (cs : List Char) : List Char :=
  stripEnd (stripStart cs)

def trim (text : String) : String :=
  String.ofList (strip text.toList)

def trimEnd (text : String) : String :=
  String.ofList (stripEnd text.toList)

/-- Equality up to the case of ASCII letters. Other letters keep their case, so a capital letter
outside ASCII differs from its small form. -/
def equalsIgnoringCase (a b : String) : Bool :=
  a.toList.map Char.toLower == b.toList.map Char.toLower

end Mission.Text
