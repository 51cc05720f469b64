import Mathlib.Data.List.TakeWhile
import Mission.Expr.Parser
import Mission.Proofs.Outcome

/-! The grammar of expressions, apart from the readers that carry it out. A derivation says what is
read from the front of a text and what is left of it; it knows no fuel and no errors. Readers and
derivations agree: what a reader returns has a derivation, and what has a derivation is returned by the
reader as soon as its fuel covers eight steps for each character. -/
namespace Mission.Expr

open Outcome List Name Text

variable {source : String} {fuel : Nat} {cs rest name : List Char} {e : Expr} {c : Char} {p : Char → Bool}

/-- The two levels at which operators stand between operands and group to the left. -/
inductive ChainLevel
  | sum
  | product
deriving DecidableEq, Repr

namespace ChainLevel

def operator? : ChainLevel → Char → Option BinaryOp
  | sum => BinaryOp.additive?
  | product => BinaryOp.multiplicative?

end ChainLevel

/-- What a reader did: the text it was given, what it made of it, and the text it left. -/
inductive Reading
  | chain (level : ChainLevel) (cs : List Char) (e : Expr) (rest : List Char)
  /-- The operators and operands behind the first operand of a chain. -/
  | tail (level : ChainLevel) (left : Expr) (cs : List Char) (e : Expr) (rest : List Char)
  | signed (cs : List Char) (e : Expr) (rest : List Char)
  | power (cs : List Char) (e : Expr) (rest : List Char)
  | operand (cs : List Char) (e : Expr) (rest : List Char)
  | named (cs : List Char) (e : Expr) (rest : List Char)
  | arguments (cs : List Char) (es : List Expr) (rest : List Char)

namespace ChainLevel

/-- The operands of a sum are products, and those of a product are operands with signs. -/
def operand : ChainLevel → List Char → Expr → List Char → Reading
  | sum => .chain product
  | product => .signed

end ChainLevel

/-- The text does not continue a name or a number. -/
def Detached (cs : List Char) : Prop :=
  ∀ c ∈ cs.head?, isDottedChar c = false

/-- The derivations of the grammar. Blanks are skipped in front of what is looked at next. -/
inductive Reads : Reading → Prop
  | chain {level : ChainLevel} {cs mid rest : List Char} {left e : Expr}
      (hFirst : Reads (level.operand cs left mid)) (hTail : Reads (.tail level left mid e rest)) :
      Reads (.chain level cs e rest)
  | tailEnd {level : ChainLevel} {cs : List Char} {left : Expr}
      (hStop : (Text.stripStart cs).head?.bind level.operator? = none) :
      Reads (.tail level left cs left (Text.stripStart cs))
  | tailStep {level : ChainLevel} {cs after mid rest : List Char} {c : Char} {op : BinaryOp}
      {left right e : Expr} (hFront : Text.stripStart cs = c :: after)
      (hOp : level.operator? c = some op) (hRight : Reads (level.operand after right mid))
      (hTail : Reads (.tail level (binary op left right) mid e rest)) :
      Reads (.tail level left cs e rest)
  | minus {cs after rest : List Char} {e : Expr} (hFront : Text.stripStart cs = '-' :: after)
      (hInner : Reads (.signed after e rest)) : Reads (.signed cs (negated e) rest)
  | plus {cs after rest : List Char} {e : Expr} (hFront : Text.stripStart cs = '+' :: after)
      (hInner : Reads (.signed after e rest)) : Reads (.signed cs e rest)
  | unsigned {cs rest : List Char} {e : Expr} (hMinus : (Text.stripStart cs).head? ≠ some '-')
      (hPlus : (Text.stripStart cs).head? ≠ some '+')
      (hInner : Reads (.power (Text.stripStart cs) e rest)) : Reads (.signed cs e rest)
  | base {cs mid rest : List Char} {e base : Expr} (hInner : Reads (.operand cs e mid))
      (hMarks : transposes e mid = (base, rest)) (hStop : rest.head? ≠ some '^') :
      Reads (.power cs base rest)
  | raised {cs mid after rest : List Char} {e base exponent : Expr}
      (hInner : Reads (.operand cs e mid)) (hMarks : transposes e mid = (base, '^' :: after))
      (hExponent : Reads (.signed after exponent rest)) :
      Reads (.power cs (binary .power base exponent) rest)
  | parenthesised {cs inner mid rest : List Char} {e : Expr}
      (hFront : Text.stripStart cs = '(' :: inner) (hInner : Reads (.chain .sum inner e mid))
      (hClose : Text.stripStart mid = ')' :: rest) : Reads (.operand cs e rest)
  | string {cs text rest : List Char}
      (hFront : Text.stripStart cs = Name.quote :: (text ++ Name.quote :: rest))
      (hText : Name.quote ∉ text) : Reads (.operand cs (string (String.ofList text)) rest)
  | number {cs after exponent rest : List Char} {c : Char} {x : Float}
      (hFront : Text.stripStart cs = c :: after) (hNumber : isNumberChar c = true)
      (hExponent : exponentChars ((c :: after).dropWhile isNumberChar) = (exponent, rest))
      (hValue : Real.ofChars? ((c :: after).takeWhile isNumberChar ++ exponent) = some x) :
      Reads (.operand cs (number x) rest)
  | named {cs after rest : List Char} {c : Char} {e : Expr} (hFront : Text.stripStart cs = c :: after)
      (hAlpha : c.isAlpha = true) (hInner : Reads (.named (c :: after) e rest)) :
      Reads (.operand cs e rest)
  | element {cs name rest : List Char} (hSplit : cs = name ++ rest)
      (hName : name.all isDottedChar = true) (hRest : Detached rest)
      (hLast : name.getLast? ≠ some '.') (hOpen : rest.head? ≠ some '(') :
      Reads (.named cs (element (String.ofList name)) rest)
  | arrayElement {cs name opened indices rest : List Char} (hSplit : cs = name ++ opened)
      (hName : name.all isDottedChar = true) (hLast : name.getLast? ≠ some '.')
      (hOpen : opened.head? = some '(')
      (hFunction : MathFunction.ofName? (String.ofList name) = none)
      (hEnclosed : enclosed 0 opened = some (indices, rest)) :
      Reads (.named cs (element (String.ofList (name ++ indices))) rest)
  | call {cs name inner mid rest : List Char} {f : MathFunction} {args : List Expr} {e : Expr}
      (hSplit : cs = name ++ '(' :: inner) (hName : name.all isDottedChar = true)
      (hLast : name.getLast? ≠ some '.')
      (hFunction : MathFunction.ofName? (String.ofList name) = some f)
      (hArgs : Reads (.arguments inner args mid)) (hClose : Text.stripStart mid = ')' :: rest)
      (hApply : application f args = .ok e) : Reads (.named cs e rest)
  | lastArgument {cs mid : List Char} {e : Expr} (hInner : Reads (.chain .sum cs e mid))
      (hStop : (Text.stripStart mid).head? ≠ some ',') :
      Reads (.arguments cs [e] (Text.stripStart mid))
  | moreArguments {cs mid after rest : List Char} {e : Expr} {es : List Expr}
      (hInner : Reads (.chain .sum cs e mid)) (hComma : Text.stripStart mid = ',' :: after)
      (hOthers : Reads (.arguments after es rest)) : Reads (.arguments cs (e :: es) rest)

namespace ChainLevel

variable (source : String) (fuel : Nat)

def read : ChainLevel → List Char → Except MathError (Expr × List Char)
  | sum => expression source fuel
  | product => term source fuel

def readOperand : ChainLevel → List Char → Except MathError (Expr × List Char)
  | sum => term source fuel
  | product => unary source fuel

def readTail : ChainLevel → Expr → List Char → Except MathError (Expr × List Char)
  | sum => sumTail source fuel
  | product => productTail source fuel

theorem read_succ (level : ChainLevel) (cs : List Char) :
    level.read source (fuel + 1) cs = (do
      let (left, rest) ← level.readOperand source fuel cs
      level.readTail source fuel left rest) := by
  cases level <;> rfl

theorem readTail_succ (level : ChainLevel) (left : Expr) (cs : List Char) :
    level.readTail source (fuel + 1) left cs =
      match stripStart cs with
      | [] => .ok (left, [])
      | c :: rest =>
        match level.operator? c with
        | none => .ok (left, c :: rest)
        | some op => (do
          let (right, rest) ← level.readOperand source fuel rest
          level.readTail source fuel (binary op left right) rest) := by
  cases level <;> rfl

end ChainLevel

/-- The reader of a reading gives its result when it starts with that much fuel. -/
def Reading.RunsWith (source : String) (fuel : Nat) : Reading → Prop
  | chain level cs e rest => level.read source fuel cs = .ok (e, rest)
  | tail level left cs e rest => level.readTail source fuel left cs = .ok (e, rest)
  | signed cs e rest => unary source fuel cs = .ok (e, rest)
  | power cs e rest => Expr.power source fuel cs = .ok (e, rest)
  | operand cs e rest => primary source fuel cs = .ok (e, rest)
  | named cs e rest => Expr.named source fuel cs = .ok (e, rest)
  | arguments cs es rest => Expr.arguments source fuel cs = .ok (es, rest)

theorem ChainLevel.runsWith_operand {level : ChainLevel} :
    (level.operand cs e rest).RunsWith source fuel ↔
      level.readOperand source fuel cs = .ok (e, rest) := by
  cases level <;> rfl

/-! ### What a reader returns has a derivation -/

theorem close_eq_ok_iff : close source c cs = .ok rest ↔ stripStart cs = c :: rest := by
  unfold close
  cases hFront : stripStart cs with
  | nil => simp
  | cons found after =>
    by_cases hFound : found = c
    · simp [hFound]
    · simp [hFound]

theorem quotedText_eq_ok (h : quotedText source cs = .ok (e, rest)) :
    ∃ text, cs = text ++ quote :: rest ∧ quote ∉ text ∧ e = string (String.ofList text) := by
  unfold quotedText at h
  cases hDrop : cs.dropWhile (· ≠ quote) with
  | nil =>
    rw [hDrop] at h
    cases h
  | cons c after =>
    rw [hDrop] at h
    cases h
    refine ⟨cs.takeWhile (· ≠ quote), ?_, ?_, rfl⟩
    · have hHead := List.head?_dropWhile_not (· ≠ quote) cs
      rw [hDrop] at hHead
      have hc : c = quote := by simpa using hHead
      subst hc
      rw [← hDrop, takeWhile_append_dropWhile]
    · intro hMem
      have := mem_takeWhile_imp hMem
      simp at this

theorem numberLiteral_eq_ok (h : numberLiteral source cs = .ok (e, rest)) :
    ∃ exponent x, exponentChars (cs.dropWhile isNumberChar) = (exponent, rest) ∧
      Real.ofChars? (cs.takeWhile isNumberChar ++ exponent) = some x ∧ e = number x := by
  unfold numberLiteral at h
  cases hExponent : exponentChars (cs.dropWhile isNumberChar) with
  | mk exponent after =>
    rw [hExponent] at h
    simp only at h
    cases hValue : Real.ofChars? (cs.takeWhile isNumberChar ++ exponent) with
    | none =>
      rw [hValue] at h
      cases h
    | some x =>
      rw [hValue] at h
      cases h
      exact ⟨exponent, x, rfl, hValue, rfl⟩

theorem arrayElement_eq_ok (h : arrayElement source name cs = .ok (e, rest)) :
    ∃ indices, enclosed 0 cs = some (indices, rest) ∧
      e = element (String.ofList (name ++ indices)) := by
  unfold arrayElement at h
  cases hEnclosed : enclosed 0 cs with
  | none =>
    rw [hEnclosed] at h
    cases h
  | some pair =>
    rw [hEnclosed] at h
    cases h
    exact ⟨_, rfl, rfl⟩

/-- Cuts a text behind the longest run of characters of a class. -/
theorem span_eq (cs : List Char) :
    cs = cs.takeWhile p ++ cs.dropWhile p ∧ (cs.takeWhile p).all p = true ∧
      ∀ c ∈ (cs.dropWhile p).head?, p c = false := by
  refine ⟨takeWhile_append_dropWhile.symm, ?_, ?_⟩
  · exact all_eq_true.mpr fun c hc => mem_takeWhile_imp hc
  · intro c hc
    have hHead := List.head?_dropWhile_not p cs
    rw [hc] at hHead
    exact hHead

section Soundness

variable {source : String} {fuel : Nat} (ih : ∀ g : Reading, g.RunsWith source fuel → Reads g)
variable {cs rest : List Char} {e : Expr}
include ih

theorem Reads.chain_of_run {level : ChainLevel}
    (h : (Reading.chain level cs e rest).RunsWith source (fuel + 1)) : Reads (.chain level cs e rest) := by
  rw [Reading.RunsWith, ChainLevel.read_succ] at h
  obtain ⟨⟨left, mid⟩, hFirst, hTail⟩ := bind_eq_ok.mp h
  exact .chain (ih _ (ChainLevel.runsWith_operand.mpr hFirst)) (ih (.tail level left mid e rest) hTail)

theorem Reads.tail_of_run {level : ChainLevel} {left : Expr}
    (h : (Reading.tail level left cs e rest).RunsWith source (fuel + 1)) :
    Reads (.tail level left cs e rest) := by
  rw [Reading.RunsWith, ChainLevel.readTail_succ] at h
  split at h
  · next hFront =>
      cases h
      rw [← hFront]
      exact .tailEnd (by simp [hFront])
  · next c after hFront =>
      split at h
      · next hOp =>
          cases h
          rw [← hFront]
          exact .tailEnd (by simpa [hFront] using hOp)
      · next op hOp =>
          obtain ⟨⟨right, mid⟩, hRight, hTail⟩ := bind_eq_ok.mp h
          exact .tailStep hFront hOp (ih _ (ChainLevel.runsWith_operand.mpr hRight))
            (ih (.tail level (binary op left right) mid e rest) hTail)

theorem Reads.signed_of_run (h : (Reading.signed cs e rest).RunsWith source (fuel + 1)) :
    Reads (.signed cs e rest) := by
  simp only [Reading.RunsWith, unary] at h
  split at h
  · next hFront =>
      refine .unsigned (by simp [hFront]) (by simp [hFront]) ?_
      rw [hFront]
      exact ih (.power [] e rest) h
  · next c after hFront =>
      split at h
      · next hMinus =>
          subst hMinus
          obtain ⟨⟨inner, mid⟩, hInner, hResult⟩ := bind_eq_ok.mp h
          cases hResult
          exact .minus hFront (ih (.signed after inner mid) hInner)
      · next hMinus =>
          split at h
          · next hPlus =>
              subst hPlus
              exact .plus hFront (ih (.signed after e rest) h)
          · next hPlus =>
              refine .unsigned (by simpa [hFront] using hMinus) (by simpa [hFront] using hPlus) ?_
              rw [hFront]
              exact ih (.power (c :: after) e rest) h

theorem Reads.power_of_run (h : (Reading.power cs e rest).RunsWith source (fuel + 1)) :
    Reads (.power cs e rest) := by
  simp only [Reading.RunsWith, power] at h
  obtain ⟨⟨operand, mid⟩, hOperand, h⟩ := bind_eq_ok.mp h
  have hInner := ih (.operand cs operand mid) hOperand
  cases hMarks : transposes operand mid with
  | mk base left =>
    simp only [hMarks] at h
    split at h
    · cases h
      exact .base hInner hMarks (by simp)
    · next c after =>
        split at h
        · next hCaret =>
            subst hCaret
            obtain ⟨⟨exponent, left⟩, hExponent, hResult⟩ := bind_eq_ok.mp h
            cases hResult
            exact .raised hInner hMarks (ih (.signed after exponent left) hExponent)
        · next hCaret =>
            cases h
            exact .base hInner hMarks (by simpa using hCaret)

theorem Reads.operand_of_run (h : (Reading.operand cs e rest).RunsWith source (fuel + 1)) :
    Reads (.operand cs e rest) := by
  simp only [Reading.RunsWith, primary] at h
  split at h
  · cases h
  · next c after hFront =>
      split at h
      · next hOpen =>
          subst hOpen
          obtain ⟨⟨inner, mid⟩, hInner, h⟩ := bind_eq_ok.mp h
          obtain ⟨left, hClose, hResult⟩ := bind_eq_ok.mp h
          cases hResult
          exact .parenthesised hFront (ih (.chain .sum after inner mid) hInner)
            (close_eq_ok_iff.mp hClose)
      · split at h
        · next hQuote =>
            subst hQuote
            obtain ⟨text, rfl, hText, rfl⟩ := quotedText_eq_ok h
            exact .string hFront hText
        · split at h
          · next hNumber =>
              obtain ⟨exponent, x, hExponent, hValue, rfl⟩ := numberLiteral_eq_ok h
              exact .number hFront hNumber hExponent hValue
          · split at h
            · next hAlpha =>
                exact .named hFront hAlpha (ih (.named (c :: after) e rest) h)
            · cases h

theorem Reads.named_of_run (h : (Reading.named cs e rest).RunsWith source (fuel + 1)) :
    Reads (.named cs e rest) := by
  obtain ⟨hSplit, hName, hRest⟩ := span_eq (p := isDottedChar) cs
  simp only [Reading.RunsWith, Expr.named] at h
  split at h
  · cases h
  · next hLast =>
      split at h
      · next hOpen =>
          cases h
          exact .element hSplit hName hRest hLast hOpen
      · next hOpen =>
          have hOpen : (cs.dropWhile isDottedChar).head? = some '(' := not_not.mp hOpen
          split at h
          · next hFunction =>
              obtain ⟨indices, hEnclosed, rfl⟩ := arrayElement_eq_ok h
              exact .arrayElement hSplit hName hLast hOpen hFunction hEnclosed
          · next f hFunction =>
              obtain ⟨⟨args, mid⟩, hArgs, h⟩ := bind_eq_ok.mp h
              obtain ⟨left, hClose, h⟩ := bind_eq_ok.mp h
              obtain ⟨result, hApply, hResult⟩ := bind_eq_ok.mp h
              cases hResult
              obtain ⟨inner, hInner⟩ := List.head?_eq_some_iff.mp hOpen
              rw [hInner] at hSplit hArgs
              exact .call hSplit hName hLast hFunction (ih (.arguments _ args mid) hArgs)
                (close_eq_ok_iff.mp hClose) hApply

theorem Reads.arguments_of_run {es : List Expr}
    (h : (Reading.arguments cs es rest).RunsWith source (fuel + 1)) : Reads (.arguments cs es rest) := by
  simp only [Reading.RunsWith, arguments] at h
  obtain ⟨⟨e, mid⟩, hFirst, h⟩ := bind_eq_ok.mp h
  have hInner := ih (.chain .sum cs e mid) hFirst
  split at h
  · next hFront =>
      cases h
      rw [← hFront]
      exact .lastArgument hInner (by simp [hFront])
  · next c after hFront =>
      split at h
      · next hComma =>
          subst hComma
          obtain ⟨⟨others, left⟩, hOthers, hResult⟩ := bind_eq_ok.mp h
          cases hResult
          exact .moreArguments hInner hFront (ih (.arguments after others left) hOthers)
      · next hComma =>
          cases h
          rw [← hFront]
          exact .lastArgument hInner (by simpa [hFront] using hComma)

end Soundness

/-- What a reader returns, whatever its fuel, has a derivation. -/
theorem Reads.of_runsWith {g : Reading} (h : g.RunsWith source fuel) : Reads g := by
  induction fuel generalizing g with
  | zero =>
    rcases g with ⟨_ | _, _, _, _⟩ | ⟨_ | _, _, _, _, _⟩ | _ | _ | _ | _ | _ <;> cases h
  | succ fuel ih =>
    have ih : ∀ g : Reading, g.RunsWith source fuel → Reads g := fun g hg => ih hg
    cases g with
    | chain level cs e rest => exact chain_of_run ih h
    | tail level left cs e rest => exact tail_of_run ih h
    | signed cs e rest => exact signed_of_run ih h
    | power cs e rest => exact power_of_run ih h
    | operand cs e rest => exact operand_of_run ih h
    | named cs e rest => exact named_of_run ih h
    | arguments cs es rest => exact arguments_of_run ih h

/-! ### A derivation takes characters off the front -/

namespace Reading

/-- The text that was read from. -/
def given : Reading → List Char
  | chain _ cs _ _ | tail _ _ cs _ _ | signed cs _ _ | power cs _ _ | operand cs _ _ | named cs _ _
  | arguments cs _ _ => cs

/-- The text that was left. -/
def left : Reading → List Char
  | chain _ _ _ rest | tail _ _ _ _ rest | signed _ _ rest | power _ _ rest | operand _ _ rest
  | named _ _ rest | arguments _ _ rest => rest

/-- The number of characters that are taken at least. Only a tail can be empty, and a name that does
not begin. -/
def least : Reading → Nat
  | tail _ _ _ _ _ => 0
  | named cs _ _ => if cs.head?.any Char.isAlpha then 1 else 0
  | _ => 1

end Reading

@[simp] theorem ChainLevel.given_operand (level : ChainLevel) (cs rest : List Char) (e : Expr) :
    (level.operand cs e rest).given = cs := by
  cases level <;> rfl

@[simp] theorem ChainLevel.left_operand (level : ChainLevel) (cs rest : List Char) (e : Expr) :
    (level.operand cs e rest).left = rest := by
  cases level <;> rfl

@[simp] theorem ChainLevel.least_operand (level : ChainLevel) (cs rest : List Char) (e : Expr) :
    (level.operand cs e rest).least = 1 := by
  cases level <;> rfl

theorem stripStart_suffix (cs : List Char) : stripStart cs <:+ cs :=
  dropWhile_suffix _

theorem transposes_suffix (e : Expr) (cs : List Char) : (transposes e cs).2 <:+ cs := by
  induction cs generalizing e with
  | nil => exact suffix_refl _
  | cons c cs ih =>
    simp only [transposes]
    split
    · exact (ih _).trans (suffix_cons c cs)
    · split
      · exact (ih _).trans (suffix_cons c cs)
      · exact suffix_refl _

theorem exponentChars_append (cs : List Char) :
    (exponentChars cs).1 ++ (exponentChars cs).2 = cs := by
  cases cs with
  | nil => rfl
  | cons c cs =>
    by_cases hMark : (c = 'e' || c = 'E') = true
    · cases cs with
      | nil => simp only [exponentChars, if_pos hMark]; rfl
      | cons s after =>
        by_cases hSign : (s = '+' || s = '-') = true
        · simp only [exponentChars, if_pos hMark, if_pos hSign]
          simp
        · simp only [exponentChars, if_pos hMark, if_neg hSign]
          simp
    · simp only [exponentChars, if_neg hMark]
      rfl

theorem enclosed_append {depth : Nat} {taken : List Char} (h : enclosed depth cs = some (taken, rest)) :
    cs = taken ++ rest ∧ taken ≠ [] := by
  induction cs generalizing depth taken with
  | nil => cases h
  | cons c cs ih =>
    simp only [enclosed] at h
    split at h
    · cases h
      exact ⟨rfl, by simp⟩
    · obtain ⟨⟨inner, after⟩, hInner, hPair⟩ := Option.map_eq_some_iff.mp h
      cases hPair
      exact ⟨by rw [(ih hInner).1]; rfl, by simp⟩

theorem suffix_of_stripStart {after : List Char} (hFront : stripStart cs = c :: after)
    (hRest : rest <:+ after) : rest <:+ cs ∧ rest.length + 1 ≤ cs.length := by
  have hStrip := stripStart_suffix cs
  rw [hFront] at hStrip
  refine ⟨(hRest.trans (suffix_cons c after)).trans hStrip, ?_⟩
  have hLength := hStrip.length_le
  have hRestLength := hRest.length_le
  simp only [length_cons] at hLength
  omega

theorem length_of_stripStart {after : List Char} (hFront : stripStart cs = c :: after) :
    after.length + 1 ≤ cs.length :=
  (suffix_of_stripStart hFront (suffix_refl _)).2

theorem isDottedChar_of_isAlpha (h : c.isAlpha = true) : isDottedChar c = true := by
  simp [isDottedChar, isNameChar, Char.isAlphanum, h]

theorem not_isAlpha_of_isDottedChar (h : isDottedChar c = false) : c.isAlpha = false :=
  Bool.eq_false_iff.mpr fun hAlpha => Bool.eq_false_iff.mp h (isDottedChar_of_isAlpha hAlpha)

/-- A name takes at least one character if the text begins with a letter. -/
theorem length_of_name (hSplit : cs = name ++ rest) (hRest : ∀ c ∈ rest.head?, c.isAlpha = false) :
    rest.length + (if cs.head?.any Char.isAlpha then 1 else 0) ≤ cs.length := by
  subst hSplit
  cases name with
  | nil =>
    have hHead : ¬ rest.head?.any Char.isAlpha = true := by
      simpa [Option.any_eq_true] using hRest
    simp [hHead]
  | cons c name =>
    simp only [length_append, length_cons]
    split <;> omega

/-- What is left is an end of what was given, shorter unless nothing but blanks has been passed. -/
theorem Reads.suffix {g : Reading} (h : Reads g) :
    g.left <:+ g.given ∧ g.left.length + g.least ≤ g.given.length := by
  induction h with
  | @chain level cs mid rest left e hFirst hTail ihFirst ihTail =>
    simp only [ChainLevel.given_operand, ChainLevel.left_operand, ChainLevel.least_operand] at ihFirst
    simp only [Reading.given, Reading.left, Reading.least] at *
    exact ⟨ihTail.1.trans ihFirst.1, by omega⟩
  | tailEnd hStop => exact ⟨stripStart_suffix _, (stripStart_suffix _).length_le⟩
  | tailStep hFront hOp hRight hTail ihRight ihTail =>
    simp only [ChainLevel.given_operand, ChainLevel.left_operand] at ihRight
    obtain ⟨hSuffix, hLength⟩ := suffix_of_stripStart hFront (ihTail.1.trans ihRight.1)
    exact ⟨hSuffix, Nat.le_of_succ_le hLength⟩
  | minus hFront hInner ih | plus hFront hInner ih => exact suffix_of_stripStart hFront ih.1
  | unsigned hMinus hPlus hInner ih =>
    exact ⟨ih.1.trans (stripStart_suffix _), le_trans ih.2 (stripStart_suffix _).length_le⟩
  | @base cs mid rest e base hInner hMarks hStop ih =>
    have hSuffix := transposes_suffix e mid
    rw [hMarks] at hSuffix
    have hLength := hSuffix.length_le
    simp only [Reading.given, Reading.left, Reading.least] at *
    exact ⟨hSuffix.trans ih.1, by omega⟩
  | @raised cs mid after rest e base exponent hInner hMarks hExponent ihInner ihExponent =>
    have hSuffix := transposes_suffix e mid
    rw [hMarks] at hSuffix
    have hLength := hSuffix.length_le
    simp only [Reading.given, Reading.left, Reading.least, length_cons] at *
    exact ⟨(ihExponent.1.trans (suffix_cons _ _)).trans (hSuffix.trans ihInner.1), by omega⟩
  | parenthesised hFront hInner hClose ih =>
    obtain ⟨hRest, -⟩ := suffix_of_stripStart hClose (suffix_refl _)
    exact suffix_of_stripStart hFront (hRest.trans ih.1)
  | @string cs text rest hFront hText =>
    exact suffix_of_stripStart hFront ⟨text ++ [quote], append_assoc ..⟩
  | @number cs after exponent rest c x hFront hNumber hExponent hValue =>
    have hAppend := exponentChars_append ((c :: after).dropWhile isNumberChar)
    rw [hExponent, dropWhile_cons_of_pos hNumber] at hAppend
    have hRest : rest <:+ after.dropWhile isNumberChar := ⟨exponent, hAppend⟩
    exact suffix_of_stripStart hFront (hRest.trans (dropWhile_suffix _))
  | @named cs after rest c e hFront hAlpha hInner ih =>
    have hStrip := stripStart_suffix cs
    rw [hFront] at hStrip
    have hLength := hStrip.length_le
    simp only [Reading.given, Reading.left, Reading.least, List.head?_cons, Option.any_some, hAlpha,
      if_true] at *
    exact ⟨ih.1.trans hStrip, by omega⟩
  | element hSplit hName hRest hLast hOpen =>
    exact ⟨⟨_, hSplit.symm⟩, length_of_name hSplit fun c hc => not_isAlpha_of_isDottedChar (hRest c hc)⟩
  | @arrayElement cs name opened indices rest hSplit hName hLast hOpen hFunction hEnclosed =>
    obtain ⟨hAppend, -⟩ := enclosed_append hEnclosed
    have hRest : rest <:+ opened := ⟨indices, hAppend.symm⟩
    have hLength := length_of_name hSplit fun c hc => by
      rw [hOpen] at hc
      cases hc
      rfl
    have hRestLength := hRest.length_le
    refine ⟨hRest.trans ⟨name, hSplit.symm⟩, ?_⟩
    simp only [Reading.given, Reading.left, Reading.least]
    omega
  | @call cs name inner mid rest f args e hSplit hName hLast hFunction hArgs hClose hApply ih =>
    obtain ⟨hRest, -⟩ := suffix_of_stripStart hClose (suffix_refl _)
    have hOpened := (hRest.trans ih.1).trans (suffix_cons '(' inner)
    have hLength := length_of_name hSplit fun c hc => by
      cases hc
      rfl
    have hRestLength := hOpened.length_le
    refine ⟨hOpened.trans ⟨name, hSplit.symm⟩, ?_⟩
    simp only [Reading.given, Reading.left, Reading.least]
    omega
  | @lastArgument cs mid e hInner hStop ih =>
    have hLength := (stripStart_suffix mid).length_le
    simp only [Reading.given, Reading.left, Reading.least] at *
    exact ⟨(stripStart_suffix mid).trans ih.1, by omega⟩
  | moreArguments hInner hComma hOthers ihInner ihOthers =>
    obtain ⟨hAfter, hLength⟩ := suffix_of_stripStart hComma ihOthers.1
    have hInnerLength := ihInner.2
    simp only [Reading.given, Reading.left, Reading.least] at *
    exact ⟨hAfter.trans ihInner.1, by omega⟩

/-! ### What has a derivation is returned by the reader -/

/-- The fuel that suffices: eight steps for each character, and one for each level of the grammar
that can be entered without taking a character. -/
def Reading.need : Reading → Nat
  | chain .sum cs _ _ => 8 * cs.length + 6
  | chain .product cs _ _ => 8 * cs.length + 5
  | tail _ _ cs _ _ => 8 * cs.length + 1
  | signed cs _ _ => 8 * cs.length + 4
  | power cs _ _ => 8 * cs.length + 3
  | operand cs _ _ => 8 * cs.length + 2
  | named cs _ _ => 8 * cs.length + 1
  | arguments cs _ _ => 8 * cs.length + 7

theorem ChainLevel.need_operand_lt (level : ChainLevel) (cs : List Char) (left e : Expr)
    (mid rest : List Char) :
    (level.operand cs left mid).need < (Reading.chain level cs e rest).need := by
  cases level <;> exact Nat.lt_succ_self _

theorem ChainLevel.need_operand_le (level : ChainLevel) (cs : List Char) (e : Expr)
    (rest : List Char) : (level.operand cs e rest).need ≤ 8 * cs.length + 5 := by
  cases level with
  | sum => exact Nat.le_refl _
  | product => exact Nat.le_succ _

theorem takeWhile_of_split (hSplit : cs = name ++ rest) (hName : name.all p = true)
    (hRest : ∀ c ∈ rest.head?, p c = false) : cs.takeWhile p = name ∧ cs.dropWhile p = rest := by
  subst hSplit
  have hInside : ∀ c ∈ name, p c = true := all_eq_true.mp hName
  rw [takeWhile_append_of_pos hInside, dropWhile_append_of_pos hInside]
  cases rest with
  | nil => simp
  | cons c rest =>
    have hc : ¬ p c = true := by simp [hRest c (by simp)]
    rw [takeWhile_cons_of_neg hc, dropWhile_cons_of_neg hc, append_nil]
    exact ⟨rfl, rfl⟩

theorem quotedText_eq {text : List Char} (hText : quote ∉ text) :
    quotedText source (text ++ quote :: rest) = .ok (string (String.ofList text), rest) := by
  have hAll : text.all (· ≠ quote) = true := all_eq_true.mpr fun c hc => by
    have : c ≠ quote := fun h => hText (h ▸ hc)
    simpa using this
  have hStop : ∀ c ∈ (quote :: rest).head?, decide (c ≠ quote) = false := by simp
  obtain ⟨hTake, hDrop⟩ := takeWhile_of_split rfl hAll hStop
  simp only [quotedText, hTake, hDrop]

theorem numberLiteral_eq {exponent : List Char} {x : Float}
    (hExponent : exponentChars (cs.dropWhile isNumberChar) = (exponent, rest))
    (hValue : Real.ofChars? (cs.takeWhile isNumberChar ++ exponent) = some x) :
    numberLiteral source cs = .ok (number x, rest) := by
  simp only [numberLiteral, hExponent, hValue]

/-- A letter opens nothing but a name. -/
theorem front_of_isAlpha (h : c.isAlpha = true) : c ≠ '(' ∧ c ≠ quote ∧ isNumberChar c = false := by
  refine ⟨?_, ?_, ?_⟩
  iterate 2
    rintro rfl
    exact absurd h (by decide)
  have hDigit : c.isDigit = false := by
    change (decide ('A'.val ≤ c.val ∧ c.val ≤ 'Z'.val) ||
      decide ('a'.val ≤ c.val) && decide (c.val ≤ 'z'.val)) = true at h
    simp only [Bool.or_eq_true, Bool.and_eq_true, decide_eq_true_eq] at h
    simp only [Char.isDigit, Bool.and_eq_false_iff, decide_eq_false_iff_not]
    grind
  have hPoint : c ≠ '.' := by
    rintro rfl
    exact absurd h (by decide)
  simp [isNumberChar, hDigit, hPoint]

theorem front_of_isNumberChar (h : isNumberChar c = true) : c ≠ '(' ∧ c ≠ quote := by
  constructor <;>
  · rintro rfl
    exact absurd h (by decide)

section Completeness

variable {source : String} {fuel : Nat}
variable (ih : ∀ g : Reading, Reads g → g.need ≤ fuel → g.RunsWith source fuel)
variable {level : ChainLevel} {cs rest : List Char} {left e : Expr}

include ih

theorem run_of_chain (h : Reads (.chain level cs e rest))
    (hFuel : (Reading.chain level cs e rest).need ≤ fuel + 1) :
    (Reading.chain level cs e rest).RunsWith source (fuel + 1) := by
  obtain @⟨_, _, mid, _, left, _, hFirst, hTail⟩ := h
  have hNeed := level.need_operand_lt cs left e mid rest
  have hLength := hFirst.suffix.2
  simp only [ChainLevel.given_operand, ChainLevel.left_operand, ChainLevel.least_operand] at hLength
  have hTailNeed : (Reading.tail level left mid e rest).need ≤ fuel := by
    have : 8 * cs.length + 5 ≤ (Reading.chain level cs e rest).need := by
      cases level <;> simp [Reading.need]
    simp only [Reading.need] at *
    omega
  rw [Reading.RunsWith, ChainLevel.read_succ]
  exact bind_eq_ok.mpr ⟨(left, mid), ChainLevel.runsWith_operand.mp (ih _ hFirst (by omega)),
    ih _ hTail hTailNeed⟩

theorem run_of_tail (h : Reads (.tail level left cs e rest)) (hFuel : 8 * cs.length + 1 ≤ fuel + 1) :
    (Reading.tail level left cs e rest).RunsWith source (fuel + 1) := by
  rw [Reading.RunsWith, ChainLevel.readTail_succ]
  cases h with
  | tailEnd hStop =>
    cases hFront : stripStart cs with
    | nil => rfl
    | cons c after =>
      rw [hFront] at hStop
      have hOp : level.operator? c = none := hStop
      simp only [hOp]
  | @tailStep _ _ after mid _ c op _ right _ hFront hOp hRight hTail =>
    have hNeed := level.need_operand_le after right mid
    have hAfter := length_of_stripStart hFront
    have hLength := hRight.suffix.2
    simp only [ChainLevel.given_operand, ChainLevel.left_operand, ChainLevel.least_operand] at hLength
    have hTailNeed : (Reading.tail level (binary op left right) mid e rest).need ≤ fuel := by
      simp only [Reading.need]
      omega
    simp only [hFront, hOp]
    exact bind_eq_ok.mpr ⟨(right, mid), ChainLevel.runsWith_operand.mp (ih _ hRight (by omega)),
      ih _ hTail hTailNeed⟩

theorem run_of_signed (h : Reads (.signed cs e rest)) (hFuel : 8 * cs.length + 4 ≤ fuel + 1) :
    unary source (fuel + 1) cs = .ok (e, rest) := by
  cases h with
  | @minus _ after _ e hFront hInner =>
    have hAfter := length_of_stripStart hFront
    have hRun := ih _ hInner (by simp only [Reading.need]; omega)
    simp only [unary, hFront, if_true]
    exact bind_eq_ok.mpr ⟨(e, rest), hRun, rfl⟩
  | plus hFront hInner =>
    have hAfter := length_of_stripStart hFront
    simp only [unary, hFront, if_true]
    exact ih _ hInner (by simp only [Reading.need]; omega)
  | unsigned hMinus hPlus hInner =>
    have hLength := (stripStart_suffix cs).length_le
    have hPower : power source fuel (stripStart cs) = .ok (e, rest) :=
      ih _ hInner (by simp only [Reading.need]; omega)
    simp only [unary]
    cases hFront : stripStart cs with
    | nil =>
      rw [hFront] at hPower
      exact hPower
    | cons c after =>
      rw [hFront] at hPower hMinus hPlus
      have hc : c ≠ '-' := by simpa using hMinus
      have hc' : c ≠ '+' := by simpa using hPlus
      simp only [if_neg hc, if_neg hc']
      exact hPower

theorem run_of_power (h : Reads (.power cs e rest)) (hFuel : 8 * cs.length + 3 ≤ fuel + 1) :
    power source (fuel + 1) cs = .ok (e, rest) := by
  simp only [power]
  cases h with
  | @base _ mid _ e _ hInner hMarks hStop =>
    refine bind_eq_ok.mpr ⟨(e, mid), ih _ hInner (by simp only [Reading.need]; omega), ?_⟩
    simp only [hMarks]
    cases rest with
    | nil => rfl
    | cons c after =>
      have hCaret : c ≠ '^' := by simpa using hStop
      simp only [if_neg hCaret]
      rfl
  | @raised _ mid after _ e base exponent hInner hMarks hExponent =>
    have hSuffix := (transposes_suffix e mid).length_le
    have hLength := hInner.suffix.2
    rw [hMarks] at hSuffix
    simp only [Reading.given, Reading.left, Reading.least, length_cons] at hLength hSuffix
    refine bind_eq_ok.mpr ⟨(e, mid), ih _ hInner (by simp only [Reading.need]; omega), ?_⟩
    simp only [hMarks, if_true]
    exact bind_eq_ok.mpr ⟨(exponent, rest), ih _ hExponent (by simp only [Reading.need]; omega), rfl⟩

theorem run_of_operand (h : Reads (.operand cs e rest)) (hFuel : 8 * cs.length + 2 ≤ fuel + 1) :
    primary source (fuel + 1) cs = .ok (e, rest) := by
  cases h with
  | @parenthesised _ inner mid _ _ hFront hInner hClose =>
    have hAfter := length_of_stripStart hFront
    simp only [primary, hFront, if_true]
    refine bind_eq_ok.mpr ⟨(e, mid), ih _ hInner (by simp only [Reading.need]; omega), ?_⟩
    exact bind_eq_ok.mpr ⟨rest, close_eq_ok_iff.mpr hClose, rfl⟩
  | string hFront hText =>
    have hOpen : quote ≠ '(' := by decide
    simp only [primary, hFront, if_neg hOpen, if_true]
    exact quotedText_eq hText
  | number hFront hNumber hExponent hValue =>
    obtain ⟨hOpen, hQuote⟩ := front_of_isNumberChar hNumber
    simp only [primary, hFront, if_neg hOpen, if_neg hQuote, if_pos hNumber]
    exact numberLiteral_eq hExponent hValue
  | @named _ after _ c _ hFront hAlpha hInner =>
    obtain ⟨hOpen, hQuote, hNumber⟩ := front_of_isAlpha hAlpha
    have hLength := (stripStart_suffix cs).length_le
    rw [hFront] at hLength
    simp only [primary, hFront, if_neg hOpen, if_neg hQuote, hNumber, hAlpha, if_true]
    exact ih _ hInner (by simp only [Reading.need]; omega)

theorem run_of_named (h : Reads (.named cs e rest)) (hFuel : 8 * cs.length + 1 ≤ fuel + 1) :
    named source (fuel + 1) cs = .ok (e, rest) := by
  cases h with
  | element hSplit hName hRest hLast hOpen =>
    obtain ⟨hTake, hDrop⟩ := takeWhile_of_split hSplit hName hRest
    simp only [named, hTake, hDrop, if_neg hLast, if_pos hOpen]
  | arrayElement hSplit hName hLast hOpen hFunction hEnclosed =>
    obtain ⟨hTake, hDrop⟩ := takeWhile_of_split hSplit hName (by
      intro c hc
      rw [hOpen] at hc
      cases hc
      rfl)
    simp only [named, hTake, hDrop, if_neg hLast, hOpen, ne_eq, not_true_eq_false, if_false,
      hFunction, arrayElement, hEnclosed]
  | @call _ name inner mid _ f args _ hSplit hName hLast hFunction hArgs hClose hApply =>
    obtain ⟨hTake, hDrop⟩ := takeWhile_of_split hSplit hName (by
      intro c hc
      cases hc
      rfl)
    have hLength := congrArg List.length hSplit
    simp only [length_append, length_cons] at hLength
    simp only [named, hTake, hDrop, if_neg hLast, List.head?_cons, ne_eq, not_true_eq_false,
      if_false, hFunction, tail_cons]
    refine bind_eq_ok.mpr ⟨(args, mid), ih _ hArgs (by simp only [Reading.need]; omega), ?_⟩
    refine bind_eq_ok.mpr ⟨rest, close_eq_ok_iff.mpr hClose, ?_⟩
    exact bind_eq_ok.mpr ⟨e, hApply, rfl⟩

theorem run_of_arguments {es : List Expr} (h : Reads (.arguments cs es rest))
    (hFuel : 8 * cs.length + 7 ≤ fuel + 1) :
    arguments source (fuel + 1) cs = .ok (es, rest) := by
  simp only [arguments]
  cases h with
  | @lastArgument _ mid e hInner hStop =>
    refine bind_eq_ok.mpr ⟨(e, mid), ih _ hInner (by simp only [Reading.need]; omega), ?_⟩
    cases hFront : stripStart mid with
    | nil => rfl
    | cons c after =>
      rw [hFront] at hStop
      have hComma : c ≠ ',' := by simpa using hStop
      simp only [if_neg hComma]
      rfl
  | @moreArguments _ mid after _ e es hInner hComma hOthers =>
    have hAfter := length_of_stripStart hComma
    have hLength := hInner.suffix.2
    simp only [Reading.given, Reading.left, Reading.least] at hLength
    refine bind_eq_ok.mpr ⟨(e, mid), ih _ hInner (by simp only [Reading.need]; omega), ?_⟩
    simp only [hComma, if_true]
    exact bind_eq_ok.mpr ⟨(es, rest), ih _ hOthers (by simp only [Reading.need]; omega), rfl⟩

end Completeness

/-- What has a derivation is returned by the reader that has enough fuel. -/
theorem Reads.runsWith {g : Reading} (h : Reads g) (hFuel : g.need ≤ fuel) : g.RunsWith source fuel := by
  induction fuel generalizing g with
  | zero =>
    have hPos : 0 < g.need := by
      rcases g with ⟨_ | _, _, _, _⟩ | _ | _ | _ | _ | _ | _ <;> exact Nat.succ_pos _
    omega
  | succ fuel ih =>
    have ih : ∀ g : Reading, Reads g → g.need ≤ fuel → g.RunsWith source fuel := fun g hg => ih hg
    cases g with
    | chain level cs e rest => exact run_of_chain ih h hFuel
    | tail level left cs e rest => exact run_of_tail ih h hFuel
    | signed cs e rest => exact run_of_signed ih h hFuel
    | power cs e rest => exact run_of_power ih h hFuel
    | operand cs e rest => exact run_of_operand ih h hFuel
    | named cs e rest => exact run_of_named ih h hFuel
    | arguments cs es rest => exact run_of_arguments ih h hFuel

/-- A text is read as an expression exactly if a derivation uses it up. -/
theorem parse_eq_ok_iff {text : String} :
    parse text = .ok e ↔
      ∃ rest, Reads (.chain .sum text.toList e rest) ∧ stripStart rest = [] := by
  unfold parse
  constructor
  · intro h
    obtain ⟨⟨result, rest⟩, hRun, h⟩ := bind_eq_ok.mp h
    simp only at h
    split at h
    · next hRest =>
        cases h
        have hRuns : (Reading.chain .sum text.toList e rest).RunsWith text
            (8 * (text.toList.length + 2)) := hRun
        exact ⟨rest, Reads.of_runsWith hRuns, hRest⟩
    · cases h
  · rintro ⟨rest, hReads, hRest⟩
    have hFuel : (Reading.chain .sum text.toList e rest).need ≤ 8 * (text.toList.length + 2) := by
      simp only [Reading.need]
      omega
    have hRuns : (Reading.chain .sum text.toList e rest).RunsWith text
        (8 * (text.toList.length + 2)) := hReads.runsWith hFuel
    refine bind_eq_ok.mpr ⟨(e, rest), hRuns, ?_⟩
    simp only [hRest]
    rfl

end Mission.Expr
