import Mission.Accessor.Basic
import Mission.Literal.ArrayIndex

/-! The form of a text in a script, before any name in it is looked up. In order of precedence a text
is a quoted string, a set in braces, a number, an array element, or an identifier. -/
namespace Mission

inductive Phrase
  | literal (a : Accessor)
  /-- An array element whose indices cannot be told apart. -/
  | malformed (error : ParseError)
  | element (description name : String) (row column : Phrase)
  /-- A name, with or without dots. -/
  | identifier (description : String)

namespace Phrase

/-- What a text can be without any name in it. -/
def literal? (description : String) : Option Accessor :=
  if Literal.isQuoted description then some (.string description (Literal.unquote description))
  else if Literal.isBraced description then some (.string description description)
  else (Literal.real? description).map (.number description)

/-- Removing the parentheses around a text makes it no longer. -/
theorem length_unparenthesise_le (text : String) :
    (Literal.unparenthesise text).length ≤ text.length := by
  have key (cs : List Char) : (Literal.unparenthesiseChars cs).length ≤ cs.length := by
    fun_induction Literal.unparenthesiseChars cs with
    | case1 cs stripped h ih =>
      have := Literal.length_strip_le cs
      have : (Literal.inner stripped).length ≤ stripped.length := by
        simp only [Literal.inner, List.length_dropLast, List.length_tail]
        omega
      simp only [stripped] at *
      omega
    | case2 cs stripped h => exact Literal.length_strip_le cs
  simpa [Literal.unparenthesise, String.length_ofList, String.length_toList] using key text.toList

/-- Reads the form of a text that has no blanks or parentheses around it. The indices of an array
element lose theirs before they are read in the same way. -/
def ofBare (description : String) : Phrase :=
  match literal? description with
  | some a => .literal a
  | none =>
    match _h : ArrayIndex.parse description with
    | .error e => .malformed e
    | .ok (some index) =>
      .element description index.name (ofBare (Literal.unparenthesise index.row))
        (ofBare (Literal.unparenthesise index.column))
    | .ok none => .identifier description
termination_by description.length
decreasing_by
  · have := length_unparenthesise_le index.row
    have := ArrayIndex.length_lt_of_parse _h
    omega
  · have := length_unparenthesise_le index.column
    have := ArrayIndex.length_lt_of_parse _h
    omega

/-- Reads the form of a text, without the blanks and parentheses around it. -/
def parse (text : String) : Phrase := ofBare (Literal.unparenthesise text)

end Phrase

end Mission
