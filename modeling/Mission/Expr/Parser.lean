import Mission.Expr.Basic
import Mission.Expr.Error

/-! Reading expressions. Sums are loosest, then products, then signs, then powers, whose right operand
may carry a sign of its own, then the transpose mark behind an operand. A name with a parenthesis right
behind it is a call if a function has that name, and otherwise an array element, which is kept as one
leaf up to the matching parenthesis. -/
namespace Mission.Expr

def negated : Expr → Expr
  | number x => number (-x)
  | e => negate e

/-- Reads the character that closes an operand. -/
def close (source : String) (c : Char) (cs : List Char) : Except MathError (List Char) :=
  match Text.stripStart cs with
  | [] => .error (.parse (.expected s!"`{String.singleton c}`" source none))
  | found :: rest =>
    if found = c then .ok rest
    else .error (.parse (.expected s!"`{String.singleton c}`" source (some found)))

/-- A string literal, without its opening quote. -/
def quotedText (source : String) (cs : List Char) : Except MathError (Expr × List Char) :=
  match cs.dropWhile (· ≠ Name.quote) with
  | [] => .error (.parse (.expected "`'`" source none))
  | _ :: rest => .ok (string (String.ofList (cs.takeWhile (· ≠ Name.quote))), rest)

/-- The characters of an exponent: a mark, a sign and digits. Only the mark is required. -/
def exponentChars : List Char → List Char × List Char
  | [] => ([], [])
  | c :: rest =>
    if c = 'e' || c = 'E' then
      let (sign, rest) :=
        match rest with
        | [] => ([], [])
        | s :: after => if s = '+' || s = '-' then ([s], after) else ([], s :: after)
      (c :: sign ++ rest.takeWhile Char.isDigit, rest.dropWhile Char.isDigit)
    else ([], c :: rest)

def isNumberChar (c : Char) : Bool :=
  c.isDigit || c = '.'

/-- A number literal: as many digits and points as there are, with an exponent behind them. -/
def numberLiteral (source : String) (cs : List Char) : Except MathError (Expr × List Char) :=
  let (exponent, rest) := exponentChars (cs.dropWhile isNumberChar)
  let text := cs.takeWhile isNumberChar ++ exponent
  match Real.ofChars? text with
  | some x => .ok (number x, rest)
  | none => .error (.parse (.invalidNumber (String.ofList text) source))

def isDottedChar (c : Char) : Bool :=
  Name.isNameChar c || c = '.'

/-- Cuts behind the parenthesis that closes the first one. Quotes have no meaning here. -/
def enclosed : (depth : Nat) → List Char → Option (List Char × List Char)
  | _, [] => none
  | depth, c :: rest =>
    if c = ')' && depth ≤ 1 then some ([c], rest)
    else
      let depth := if c = '(' then depth + 1 else if c = ')' then depth - 1 else depth
      (enclosed depth rest).map fun (taken, rest) => (c :: taken, rest)

/-- An array element, its name having been read already. -/
def arrayElement (source : String) (name cs : List Char) : Except MathError (Expr × List Char) :=
  match enclosed 0 cs with
  | some (indices, rest) => .ok (element (String.ofList (name ++ indices)), rest)
  | none => .error (.parse (.expected "`)`" source none))

/-- The call of a function, if the number of arguments is right. -/
def application (f : MathFunction) (args : List Expr) : Except MathError Expr :=
  match f, args with
  | .unary f, [e] => .ok (call f e)
  | .atan2, [y, x] => .ok (atan2 y x)
  | f, args => .error (.argumentCount f.name f.arity args.length)

/-- The transpose marks behind an operand. -/
def transposes : Expr → List Char → Expr × List Char
  | e, [] => (e, [])
  | e, c :: rest =>
    if Text.isBlank c then transposes e rest
    else if c = Name.quote then transposes (call .transpose e) rest
    else (e, c :: rest)

/-- The error of a reader that has run out of fuel. No reader does, since the fuel exceeds the number
of steps that a text of its length can take. -/
def exhausted (source : String) : MathError :=
  .parse (.expected "an expression" source none)

mutual

/-- A sum. -/
def expression (source : String) :
    (fuel : Nat) → List Char → Except MathError (Expr × List Char)
  | 0, _ => .error (exhausted source)
  | fuel + 1, cs => do
    let (left, rest) ← term source fuel cs
    sumTail source fuel left rest

/-- The terms behind the first one. -/
def sumTail (source : String) :
    (fuel : Nat) → Expr → List Char → Except MathError (Expr × List Char)
  | 0, _, _ => .error (exhausted source)
  | fuel + 1, left, cs =>
    match Text.stripStart cs with
    | [] => .ok (left, [])
    | c :: rest =>
      match BinaryOp.additive? c with
      | none => .ok (left, c :: rest)
      | some op => do
        let (right, rest) ← term source fuel rest
        sumTail source fuel (binary op left right) rest

/-- A product. -/
def term (source : String) : (fuel : Nat) → List Char → Except MathError (Expr × List Char)
  | 0, _ => .error (exhausted source)
  | fuel + 1, cs => do
    let (left, rest) ← unary source fuel cs
    productTail source fuel left rest

/-- The factors behind the first one. -/
def productTail (source : String) :
    (fuel : Nat) → Expr → List Char → Except MathError (Expr × List Char)
  | 0, _, _ => .error (exhausted source)
  | fuel + 1, left, cs =>
    match Text.stripStart cs with
    | [] => .ok (left, [])
    | c :: rest =>
      match BinaryOp.multiplicative? c with
      | none => .ok (left, c :: rest)
      | some op => do
        let (right, rest) ← unary source fuel rest
        productTail source fuel (binary op left right) rest

/-- An operand with the signs in front of it. -/
def unary (source : String) : (fuel : Nat) → List Char → Except MathError (Expr × List Char)
  | 0, _ => .error (exhausted source)
  | fuel + 1, cs =>
    match Text.stripStart cs with
    | [] => power source fuel []
    | c :: rest =>
      if c = '-' then do
        let (e, rest) ← unary source fuel rest
        return (negated e, rest)
      else if c = '+' then unary source fuel rest
      else power source fuel (c :: rest)

/-- An operand with its transpose marks and its exponent. -/
def power (source : String) : (fuel : Nat) → List Char → Except MathError (Expr × List Char)
  | 0, _ => .error (exhausted source)
  | fuel + 1, cs => do
    let (operand, rest) ← primary source fuel cs
    let (base, rest) := transposes operand rest
    match rest with
    | [] => return (base, [])
    | c :: after =>
      if c = '^' then do
        let (exponent, rest) ← unary source fuel after
        return (binary .power base exponent, rest)
      else return (base, c :: after)

/-- A parenthesised expression, a literal, a name, an array element or a call. -/
def primary (source : String) : (fuel : Nat) → List Char → Except MathError (Expr × List Char)
  | 0, _ => .error (exhausted source)
  | fuel + 1, cs =>
    match Text.stripStart cs with
    | [] => .error (.parse (.expected "a number, name or `(`" source none))
    | c :: rest =>
      if c = '(' then do
        let (e, rest) ← expression source fuel rest
        let rest ← close source ')' rest
        return (e, rest)
      else if c = Name.quote then quotedText source rest
      else if isNumberChar c then numberLiteral source (c :: rest)
      else if c.isAlpha then named source fuel (c :: rest)
      else .error (.parse (.expected "a number, name or `(`" source (some c)))

/-- A name and what belongs to it. -/
def named (source : String) : (fuel : Nat) → List Char → Except MathError (Expr × List Char)
  | 0, _ => .error (exhausted source)
  | fuel + 1, cs =>
    let name := cs.takeWhile isDottedChar
    let rest := cs.dropWhile isDottedChar
    if name.getLast? = some '.' then
      .error (.parse (.incompleteName (String.ofList name) source))
    else if rest.head? ≠ some '(' then .ok (element (String.ofList name), rest)
    else
      match MathFunction.ofName? (String.ofList name) with
      | none => arrayElement source name rest
      | some f => do
        let (args, rest) ← arguments source fuel rest.tail
        let rest ← close source ')' rest
        let e ← application f args
        return (e, rest)

/-- The arguments of a call, separated by commas. -/
def arguments (source : String) :
    (fuel : Nat) → List Char → Except MathError (List Expr × List Char)
  | 0, _ => .error (exhausted source)
  | fuel + 1, cs => do
    let (e, rest) ← expression source fuel cs
    match Text.stripStart rest with
    | [] => return ([e], [])
    | c :: after =>
      if c = ',' then do
        let (others, rest) ← arguments source fuel after
        return (e :: others, rest)
      else return ([e], c :: after)

end

/-- Reads a whole text as an expression. Between two characters that are consumed at most eight
readers call each other. -/
def parse (text : String) : Except MathError Expr := do
  let cs := text.toList
  let (e, rest) ← expression text (8 * (cs.length + 2)) cs
  match Text.stripStart rest with
  | [] => return e
  | c :: _ => throw (.parse (.expected "an operator" text (some c)))

/-- Whether a text is to be evaluated as an equation. A lone number or name is one only on request;
a lone string literal, and what is no expression, never is. -/
def isEquation (text : String) (allowSingle : Bool) : Bool :=
  match parse text with
  | .ok (number _) | .ok (element _) => allowSingle
  | .ok (string _) | .error _ => false
  | .ok _ => true

end Mission.Expr
