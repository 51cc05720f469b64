/-! JSON texts, as far as settings need them. Objects keep their members in order with repetitions, and
of a number only the value of a plain integer is kept. -/
namespace Mission

inductive Json
  | null
  | boolean (flag : Bool)
  /-- The value of a number without sign, point and exponent. -/
  | number (integer : Option Nat)
  /-- A text that has a lone surrogate among its escapes has no value. -/
  | string (text : Option String)
  | array (items : List Json)
  | object (members : List (Option String × Json))

namespace Json

instance : Inhabited Json := ⟨null⟩

def isSpace (c : Char) : Bool :=
  c = ' ' || c = '\t' || c = '\n' || c = '\r'

def skipSpaces (cs : List Char) : List Char :=
  cs.dropWhile isSpace

/-- What follows the given character behind spaces. -/
def expect (c : Char) (cs : List Char) : Option (List Char) :=
  match skipSpaces cs with
  | [] => none
  | found :: rest => if found = c then some rest else none

/-- What follows a word. -/
def afterWord (word : String) (cs : List Char) : Option (List Char) :=
  if word.toList.isPrefixOf cs then some (cs.drop word.length) else none

/-- A run of at least one digit. -/
def digits (cs : List Char) : Option (List Char × List Char) :=
  match cs.takeWhile Char.isDigit with
  | [] => none
  | taken => some (taken, cs.dropWhile Char.isDigit)

/-- The digits in front of the point: zero alone, or digits that do not begin with zero. -/
def wholePart (cs : List Char) : Option (List Char × List Char) :=
  if cs.head? = some '0' then some (['0'], cs.tail) else digits cs

/-- What follows the fraction, and whether there is one. -/
def afterFraction (cs : List Char) : Option (Bool × List Char) :=
  if cs.head? = some '.' then (digits cs.tail).map fun (_, rest) => (true, rest)
  else some (false, cs)

/-- What follows the exponent, and whether there is one. -/
def afterExponent (cs : List Char) : Option (Bool × List Char) :=
  if cs.head? = some 'e' || cs.head? = some 'E' then
    let rest := cs.tail
    let rest := if rest.head? = some '+' || rest.head? = some '-' then rest.tail else rest
    (digits rest).map fun (_, rest) => (true, rest)
  else some (false, cs)

def digitsValue (cs : List Char) : Nat :=
  cs.foldl (fun n c => n * 10 + (c.toNat - '0'.toNat)) 0

def numeral (cs : List Char) : Option (Json × List Char) := do
  let signed : Bool := cs.head? = some '-'
  let (whole, rest) ← wholePart (if signed then cs.tail else cs)
  let (fraction, rest) ← afterFraction rest
  let (exponent, rest) ← afterExponent rest
  let plain := !signed && !fraction && !exponent
  return (number (if plain then some (digitsValue whole) else none), rest)

/-- Where the reading of a string stands. -/
inductive StringState
  | plain
  /-- Behind a backslash. -/
  | escape
  /-- Inside a numeric escape, with the digits still to come and the value so far. -/
  | hex (left value : Nat)

/-- The code of a one-letter escape. -/
def escapeCode? (c : Char) : Option Nat :=
  if c = '"' || c = '\\' || c = '/' then some c.toNat
  else if c = 'b' then some 8
  else if c = 'f' then some 12
  else if c = 'n' then some 10
  else if c = 'r' then some 13
  else if c = 't' then some 9
  else none

def hexValue? (c : Char) : Option Nat :=
  if c.isDigit then some (c.toNat - '0'.toNat)
  else if 'a' ≤ c && c ≤ 'f' then some (c.toNat - 'a'.toNat + 10)
  else if 'A' ≤ c && c ≤ 'F' then some (c.toNat - 'A'.toNat + 10)
  else none

/-- The codes of a string up to its closing quote. A numeric escape gives one UTF-16 unit, and every
other character its own code. Control characters are refused. -/
def stringCodes : StringState → List Char → Option (List Nat × List Char)
  | _, [] => none
  | .plain, c :: rest =>
    if c = '"' then some ([], rest)
    else if c = '\\' then stringCodes .escape rest
    else if c.toNat < 32 then none
    else (stringCodes .plain rest).map fun (codes, rest) => (c.toNat :: codes, rest)
  | .escape, c :: rest =>
    if c = 'u' then stringCodes (.hex 4 0) rest
    else
      match escapeCode? c with
      | none => none
      | some code => (stringCodes .plain rest).map fun (codes, rest) => (code :: codes, rest)
  | .hex left value, c :: rest =>
    match hexValue? c with
    | none => none
    | some digit =>
      let value := value * 16 + digit
      if left ≤ 1 then (stringCodes .plain rest).map fun (codes, rest) => (value :: codes, rest)
      else stringCodes (.hex (left - 1) value) rest

def isHighSurrogate (code : Nat) : Bool := 0xD800 ≤ code && code < 0xDC00

def isLowSurrogate (code : Nat) : Bool := 0xDC00 ≤ code && code < 0xE000

/-- The text of a list of codes, with surrogates in pairs. -/
def decode : List Nat → Option (List Char)
  | [] => some []
  | [code] =>
    if isHighSurrogate code || isLowSurrogate code then none else some [Char.ofNat code]
  | code :: next :: rest =>
    if isHighSurrogate code then
      if isLowSurrogate next then
        (decode rest).map (Char.ofNat (0x10000 + (code - 0xD800) * 0x400 + (next - 0xDC00)) :: ·)
      else none
    else if isLowSurrogate code then none
    else (decode (next :: rest)).map (Char.ofNat code :: ·)

/-- A string, without its opening quote. -/
def stringBody (cs : List Char) : Option (Option String × List Char) :=
  (stringCodes .plain cs).map fun (codes, rest) => ((decode codes).map String.ofList, rest)

mutual

/-- One value with the spaces in front of it. -/
def value : (fuel : Nat) → List Char → Option (Json × List Char)
  | 0, _ => none
  | fuel + 1, cs =>
    match skipSpaces cs with
    | [] => none
    | c :: rest =>
      if c = '\x7b' then
        match expect '\x7d' rest with
        | some rest => some (object [], rest)
        | none => (members fuel rest).map fun (found, rest) => (object found, rest)
      else if c = '[' then
        match expect ']' rest with
        | some rest => some (array [], rest)
        | none => (items fuel rest).map fun (found, rest) => (array found, rest)
      else if c = '"' then (stringBody rest).map fun (text, rest) => (string text, rest)
      else if c = 't' then (afterWord "true" (c :: rest)).map fun rest => (boolean true, rest)
      else if c = 'f' then (afterWord "false" (c :: rest)).map fun rest => (boolean false, rest)
      else if c = 'n' then (afterWord "null" (c :: rest)).map fun rest => (null, rest)
      else numeral (c :: rest)

/-- The items of an array up to its end. There is at least one. -/
def items : (fuel : Nat) → List Char → Option (List Json × List Char)
  | 0, _ => none
  | fuel + 1, cs => do
    let (first, rest) ← value fuel cs
    match expect ',' rest with
    | some rest => do
      let (others, rest) ← items fuel rest
      return (first :: others, rest)
    | none => do
      let rest ← expect ']' rest
      return ([first], rest)

/-- The members of an object up to its end. There is at least one. -/
def members : (fuel : Nat) → List Char → Option (List (Option String × Json) × List Char)
  | 0, _ => none
  | fuel + 1, cs => do
    let rest ← expect '"' cs
    let (key, rest) ← stringBody rest
    let rest ← expect ':' rest
    let (first, rest) ← value fuel rest
    match expect ',' rest with
    | some rest => do
      let (others, rest) ← members fuel rest
      return ((key, first) :: others, rest)
    | none => do
      let rest ← expect '\x7d' rest
      return ([(key, first)], rest)

end

/-- Reads a whole text as one value. Every second step of the reading consumes a character. -/
def parse (text : String) : Option Json :=
  let cs := text.toList
  match value (2 * cs.length + 2) cs with
  | none => none
  | some (v, rest) => if (skipSpaces rest).isEmpty then some v else none

/-- The hexadecimal digits of a code below 256. -/
def hexPair (code : Nat) : List Char :=
  [Nat.digitChar (code / 16), Nat.digitChar (code % 16)]

/-- How a character is written inside a string. -/
def escapeChar (c : Char) : List Char :=
  if c = '"' then ['\\', '"']
  else if c = '\\' then ['\\', '\\']
  else if c.toNat = 8 then ['\\', 'b']
  else if c.toNat = 12 then ['\\', 'f']
  else if c = '\n' then ['\\', 'n']
  else if c = '\r' then ['\\', 'r']
  else if c = '\t' then ['\\', 't']
  else if c.toNat < 32 then ['\\', 'u', '0', '0'] ++ hexPair c.toNat
  else [c]

/-- A text as a string literal. -/
def quoted (text : String) : String :=
  String.ofList ('"' :: text.toList.flatMap escapeChar ++ ['"'])

end Json

end Mission
