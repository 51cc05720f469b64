import Mission.Name
import Mission.Real.Basic
import Mission.Value

/-! Literals of scripts: quoted text, sets in braces, numbers and flags, and the parentheses that may
enclose any of them. -/
namespace Mission.Literal

/-- Whether a text of at least two characters begins and ends as given. -/
def isEnclosed (first last : Char) (cs : List Char) : Bool :=
  2 ≤ cs.length && cs.head? = some first && cs.getLast? = some last

/-- The text without its first and last character. -/
def inner (cs : List Char) : List Char :=
  cs.tail.dropLast

theorem length_inner_lt {c : Char} {cs : List Char} : (inner (c :: cs)).length < (c :: cs).length := by
  simp only [inner, List.tail_cons, List.length_dropLast, List.length_cons]
  omega

def isQuotedChars (cs : List Char) : Bool :=
  isEnclosed Name.quote Name.quote cs && !(inner cs).contains Name.quote

/-- A single quoted text: quotes at both ends and none between. -/
def isQuoted (text : String) : Bool :=
  isQuotedChars text.toList

/-- A single set in braces. -/
def isBraced (text : String) : Bool :=
  isEnclosed '\x7b' '\x7d' text.toList

/-- The text between the quotes, or the text itself if it is not quoted. -/
def unquote (text : String) : String :=
  if isQuoted text then String.ofList (inner text.toList) else text

/-- Whether the number of quotes is odd. -/
def hasUnbalancedQuote (text : String) : Bool :=
  text.toList.count Name.quote % 2 = 1

/-- What follows the parenthesis that closes `depth` open ones. Parentheses inside quotes do not
count. -/
def afterClosing : (depth : Nat) → (quoted : Bool) → List Char → Option (List Char)
  | _, _, [] => none
  | depth, quoted, c :: rest =>
    if c = Name.quote then afterClosing depth (!quoted) rest
    else if quoted then afterClosing depth quoted rest
    else if c = '(' then afterClosing (depth + 1) quoted rest
    else if c = ')' then
      match depth with
      | 0 => none
      | 1 => some rest
      | depth + 1 => afterClosing depth quoted rest
    else afterClosing depth quoted rest

/-- Whether one pair of matching parentheses encloses the whole text. -/
def isParenthesised (cs : List Char) : Bool :=
  cs.head? = some '(' && afterClosing 0 false cs = some []

theorem length_strip_le (cs : List Char) : (Text.strip cs).length ≤ cs.length := by
  have start : (Text.stripStart cs).length ≤ cs.length := (List.dropWhile_sublist _).length_le
  have finish : (Text.strip cs).length ≤ (Text.stripStart cs).length := by
    simpa [Text.strip, Text.stripEnd] using
      (List.dropWhile_sublist Text.isBlank (l := (Text.stripStart cs).reverse)).length_le
  omega

/-- Removes the blanks and the matching parentheses around a text, as many as there are. -/
def unparenthesiseChars (cs : List Char) : List Char :=
  let stripped := Text.strip cs
  if _h : isParenthesised stripped then unparenthesiseChars (inner stripped) else stripped
termination_by cs.length
decreasing_by
  have := length_strip_le cs
  cases hs : Text.strip cs with
  | nil => simp [stripped, hs, isParenthesised] at _h
  | cons c rest =>
    have := @length_inner_lt c rest
    simp only [stripped, hs] at *
    omega

def unparenthesise (text : String) : String :=
  String.ofList (unparenthesiseChars text.toList)

/-- A number: an optional sign, then a digit or a point, and nothing but digits, points, signs and
exponent marks. Words for infinity and not-a-number are identifiers, and a number that is too large
is none. -/
def real? (text : String) : Option Float :=
  let cs := Text.strip text.toList
  let (_, body) := Real.splitSign cs
  let isNumeric (c : Char) : Bool := c.isDigit || ['.', 'e', 'E', '+', '-'].contains c
  if !(body.head?.any fun c => c.isDigit || c = '.') || !body.all isNumeric then none
  else (Real.ofChars? cs).filter Float.isFinite

/-- `true` or `false`, in any case. -/
def boolean? (text : String) : Option Bool :=
  Value.truthWord? text

/-- `On` or `Off`, in any case. -/
def onOff? (text : String) : Option Bool :=
  Value.flagWord? text

end Mission.Literal
