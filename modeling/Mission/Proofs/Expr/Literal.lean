import Mission.Proofs.Expr.Grammar
import Mission.Proofs.Text.Blank

/-! Where the parts of an expression end. What was taken as a literal or as the indices of an array
element is taken again, and no more, when any text that does not continue it is put behind. For numbers
this rests on the fact that no number ends in its exponent mark: such a mark would take a sign that
follows it. -/
namespace Mission.Expr

open Text List Mission.Real Option

variable {mark c : Char} {k rest cs exponent : List Char} {p : Char → Bool} {x : Float}

/-- An exponent is a mark, a sign that may be missing, and digits. -/
theorem exponentChars_shape (cs : List Char) :
    (exponentChars cs).1 = [] ∨ ∃ mark sign digits, (mark = 'e' ∨ mark = 'E') ∧
      (sign = [] ∨ sign = ['+'] ∨ sign = ['-']) ∧ digits.all Char.isDigit = true ∧
      (exponentChars cs).1 = mark :: sign ++ digits := by
  cases cs with
  | nil => exact .inl rfl
  | cons c rest =>
    by_cases hMark : (c = 'e' || c = 'E') = true
    · right
      have hLetter : c = 'e' ∨ c = 'E' := by simpa using hMark
      cases rest with
      | nil => exact ⟨c, [], [], hLetter, .inl rfl, rfl, by simp [exponentChars, hMark]⟩
      | cons s after =>
        by_cases hSign : (s = '+' || s = '-') = true
        · have hEither : [s] = ['+'] ∨ [s] = ['-'] := by simpa using hSign
          refine ⟨c, [s], after.takeWhile Char.isDigit, hLetter, .inr hEither,
            (span_eq after).2.1, ?_⟩
          simp only [exponentChars, if_pos hMark, if_pos hSign]
        · refine ⟨c, [], (s :: after).takeWhile Char.isDigit, hLetter, .inl rfl,
            (span_eq (s :: after)).2.1, ?_⟩
          simp only [exponentChars, if_pos hMark, if_neg hSign]
    · left
      simp only [exponentChars, if_neg hMark]

/-- The exponent ends where no digit follows. A mark without a digit would take a sign behind it. -/
theorem exponentChars_of_shape {sign digits : List Char} (hMark : mark = 'e' ∨ mark = 'E')
    (hSign : sign = [] ∨ sign = ['+'] ∨ sign = ['-']) (hDigits : digits.all Char.isDigit = true)
    (hStop : ∀ c ∈ k.head?, c.isDigit = false)
    (hBare : sign ++ digits = [] → ∀ c ∈ k.head?, c ≠ '+' ∧ c ≠ '-') :
    exponentChars (mark :: sign ++ digits ++ k) = (mark :: sign ++ digits, k) := by
  have hLetter : (mark = 'e' || mark = 'E') = true := by simpa using hMark
  obtain ⟨hTake, hDrop⟩ := takeWhile_of_split rfl hDigits hStop
  rcases hSign with rfl | rfl | rfl
  · have hPlain : ∀ c ∈ (digits ++ k).head?, ¬ (c = '+' || c = '-') = true := by
      intro c hc
      cases digits with
      | nil => simpa using hBare rfl c hc
      | cons d digits =>
        obtain rfl : d = c := by simpa using hc
        have hDigit : d.isDigit = true := all_eq_true.mp hDigits d (by simp)
        intro hSign
        rcases (by simpa using hSign : d = '+' ∨ d = '-') with rfl | rfl
        · exact absurd hDigit (by decide)
        · exact absurd hDigit (by decide)
    simp only [cons_append, exponentChars, if_pos hLetter]
    cases hAfter : digits ++ k with
    | nil =>
      obtain ⟨rfl, rfl⟩ := append_eq_nil_iff.mp hAfter
      rfl
    | cons s after =>
      rw [hAfter] at hTake hDrop
      simp only [nil_append, hAfter, if_neg (hPlain s (by simp [hAfter])), hTake, hDrop]
  · simp only [cons_append, nil_append, exponentChars, if_pos hLetter]
    simp [hTake, hDrop]
  · simp only [cons_append, nil_append, exponentChars, if_pos hLetter]
    simp [hTake, hDrop]

theorem splitSign_mark (hMark : mark = 'e' ∨ mark = 'E') (cs : List Char) :
    ∃ body, (splitSign (cs ++ [mark])).2 = body ++ [mark] := by
  cases cs with
  | nil =>
    refine ⟨[], ?_⟩
    rcases hMark with rfl | rfl <;> rfl
  | cons c cs =>
    rw [cons_append]
    unfold splitSign
    split
    · next hFront =>
        cases hFront
        exact ⟨cs, rfl⟩
    · next hFront =>
        cases hFront
        exact ⟨cs, rfl⟩
    · exact ⟨c :: cs, rfl⟩

theorem readExponent_mark (hMark : mark = 'e' ∨ mark = 'E') (cs : List Char) :
    readExponent (cs ++ [mark]) = none := by
  cases cs with
  | nil => rcases hMark with rfl | rfl <;> rfl
  | cons c cs =>
    obtain ⟨body, hBody⟩ := splitSign_mark hMark cs
    have hDigit : mark.isDigit = false := by rcases hMark with rfl | rfl <;> rfl
    simp [readExponent, hBody, hDigit]

theorem dropWhile_mark (hMark : p mark = false) (cs : List Char) :
    (cs ++ [mark]).dropWhile p = cs.dropWhile p ++ [mark] := by
  rw [dropWhile_append]
  split
  · next hEmpty => simp [isEmpty_iff.mp hEmpty, hMark]
  · rfl

theorem readDecimal_mark (hMark : mark = 'e' ∨ mark = 'E') (cs : List Char) :
    readDecimal (cs ++ [mark]) = none := by
  have hDigit : mark.isDigit = false := by rcases hMark with rfl | rfl <;> rfl
  have hPoint : mark ≠ '.' := by rcases hMark with rfl | rfl <;> decide
  simp only [readDecimal, dropWhile_mark hDigit]
  -- The mark is still the last character when the digits and the point have been taken off.
  split
  · next after hFront =>
      obtain ⟨behind, rfl⟩ : ∃ behind, after = behind ++ [mark] := by
        cases hDrop : cs.dropWhile Char.isDigit with
        | nil =>
          rw [hDrop] at hFront
          cases hFront
          exact absurd rfl hPoint
        | cons c behind =>
          rw [hDrop] at hFront
          cases hFront
          exact ⟨behind, rfl⟩
      simp only [dropWhile_mark hDigit, readExponent_mark hMark, map_none, ite_self]
  · simp only [readExponent_mark hMark, map_none, ite_self]

/-- No number ends in its exponent mark. -/
theorem ofChars?_mark (hMark : mark = 'e' ∨ mark = 'E') (hNumber : isNumberChar c = true) (cs : List Char) :
    ofChars? (c :: cs ++ [mark]) = none := by
  have hUnsigned : splitSign (c :: cs ++ [mark]) = (false, c :: cs ++ [mark]) := by
    rw [cons_append]
    unfold splitSign
    split
    · next hFront =>
        cases hFront
        cases hNumber
    · next hFront =>
        cases hFront
        cases hNumber
    · rfl
  have hLast : (String.ofList ((c :: cs ++ [mark]).map Char.toLower)).toList.getLast? = some 'e' := by
    rw [String.toList_ofList, map_append, List.getLast?_append]
    rcases hMark with rfl | rfl <;> rfl
  simp only [ofChars?, hUnsigned, readDecimal_mark hMark]
  have hWord : ∀ word : String, word.toList.getLast? ≠ some 'e' →
      String.ofList ((c :: cs ++ [mark]).map Char.toLower) ≠ word := by
    rintro word hDiffers rfl
    exact hDiffers hLast
  have hInf := hWord "inf" (by decide)
  have hInfinity := hWord "infinity" (by decide)
  have hNan := hWord "nan" (by decide)
  simp only [hInf, hInfinity, hNan, decide_false, Bool.or_false, if_false, Bool.false_eq_true]

theorem detached_cons (h : isDottedChar c = false) : Detached (c :: k) := by
  rintro d ⟨⟩
  exact h

/-- A text that continues no name or number starts with no character of a smaller class. -/
theorem Detached.head_not (hk : Detached k) (hClass : ∀ c, p c = true → isDottedChar c = true) :
    ∀ c ∈ k.head?, p c = false := by
  intro c hc
  have hPlain := hk c hc
  by_contra hClassed
  rw [hClass c (by simpa using hClassed)] at hPlain
  cases hPlain

theorem Detached.head_not_isNameChar (h : Detached rest) : rest.head?.any Name.isNameChar = false := by
  cases hHead : rest.head? with
  | none => rfl
  | some c =>
    have hPlain := h c hHead
    simp only [isDottedChar, Bool.or_eq_false_iff] at hPlain
    exact hPlain.1

theorem Detached.head_ne_point (h : Detached rest) : rest.head? ≠ some '.' := by
  intro hHead
  cases h '.' hHead

theorem isDottedChar_of_isNumberChar (h : isNumberChar c = true) : isDottedChar c = true := by
  rcases (by simpa [isNumberChar] using h : c.isDigit = true ∨ c = '.') with hDigit | rfl
  · simp [isDottedChar, Name.isNameChar, Char.isAlphanum, hDigit]
  · rfl

/-- A literal is read alike in front of every text that does not continue it. -/
theorem numeral_extend (hNumber : isNumberChar c = true)
    (hExponent : exponentChars ((c :: cs).dropWhile isNumberChar) = (exponent, rest))
    (hValue : ofChars? ((c :: cs).takeWhile isNumberChar ++ exponent) = some x) (hk : Detached k) :
    ((c :: cs).takeWhile isNumberChar ++ exponent ++ k).takeWhile isNumberChar =
        (c :: cs).takeWhile isNumberChar ∧
      exponentChars (((c :: cs).takeWhile isNumberChar ++ exponent ++ k).dropWhile isNumberChar) =
        (exponent, k) := by
  have hWhole := (span_eq (p := isNumberChar) (c :: cs)).2.1
  have hStop := hk.head_not fun _ => isDottedChar_of_isNumberChar
  have hDigit : ∀ c ∈ k.head?, c.isDigit = false := hk.head_not fun c h =>
    isDottedChar_of_isNumberChar (by simp [isNumberChar, h])
  have hShape := exponentChars_shape ((c :: cs).dropWhile isNumberChar)
  rw [hExponent] at hShape
  rcases hShape with hNone | ⟨mark, sign, digits, hMark, hSign, hDigits, hSome⟩
  · subst hNone
    obtain ⟨hTake, hDrop⟩ := takeWhile_of_split rfl hWhole hStop
    rw [append_nil, hTake, hDrop]
    refine ⟨rfl, ?_⟩
    cases k with
    | nil => rfl
    | cons d k =>
      have hPlain := hk d (by simp)
      have hMark : ¬ (d = 'e' || d = 'E') = true := by
        intro hMark
        rcases (by simpa using hMark : d = 'e' ∨ d = 'E') with rfl | rfl
        · cases hPlain
        · cases hPlain
      simp only [exponentChars, if_neg hMark]
  · subst hSome
    have hLetter : ∀ d ∈ (mark :: sign ++ digits ++ k).head?, isNumberChar d = false := by
      intro d hd
      obtain rfl : mark = d := by simpa using hd
      rcases hMark with rfl | rfl <;> rfl
    obtain ⟨hTake, hDrop⟩ := takeWhile_of_split rfl hWhole hLetter
    rw [append_assoc, hTake, hDrop]
    refine ⟨rfl, exponentChars_of_shape hMark hSign hDigits hDigit ?_⟩
    intro hBare
    obtain ⟨rfl, rfl⟩ := append_eq_nil_iff.mp hBare
    rw [takeWhile_cons_of_pos hNumber, append_nil, ofChars?_mark hMark hNumber] at hValue
    cases hValue

theorem Reads.number_extend {cs' : List Char} (hNumber : isNumberChar c = true)
    (hExponent : exponentChars ((c :: cs).dropWhile isNumberChar) = (exponent, rest))
    (hValue : ofChars? ((c :: cs).takeWhile isNumberChar ++ exponent) = some x) (hk : Detached k)
    (hFront : stripStart cs' = (c :: cs).takeWhile isNumberChar ++ exponent ++ k) :
    Reads (.operand cs' (Expr.number x) k) := by
  obtain ⟨hTake, hDrop⟩ := numeral_extend hNumber hExponent hValue hk
  have hCons : (c :: cs).takeWhile isNumberChar ++ exponent ++ k =
      c :: (cs.takeWhile isNumberChar ++ exponent ++ k) := by
    rw [takeWhile_cons_of_pos hNumber, cons_append, cons_append]
  rw [hCons] at hFront
  refine .number hFront hNumber (hCons ▸ hDrop) ?_
  rw [← hCons, hTake, hValue]

/-- A name that is read where a letter stands starts with it. -/
theorem exists_letter {name : List Char} (hSplit : cs = name ++ rest)
    (hRest : ∀ c ∈ rest.head?, c.isAlpha = false) (hAlpha : cs.head?.any Char.isAlpha = true) :
    ∃ c after, name = c :: after ∧ c.isAlpha = true := by
  subst hSplit
  cases name with
  | nil =>
    cases rest with
    | nil => cases hAlpha
    | cons c rest =>
      have hNone := hRest c rfl
      have hLetter : c.isAlpha = true := hAlpha
      rw [hLetter] at hNone
      cases hNone
  | cons c name => exact ⟨c, name, rfl, by simpa using hAlpha⟩

theorem enclosed_extend {depth : Nat} {taken : List Char} (h : enclosed depth cs = some (taken, rest))
    (k : List Char) : enclosed depth (taken ++ k) = some (taken, k) := by
  induction cs generalizing depth taken with
  | nil => cases h
  | cons c cs ih =>
    simp only [enclosed] at h
    split at h
    · next hClose =>
        cases h
        simp only [cons_append, nil_append, enclosed, if_pos hClose]
    · next hClose =>
        obtain ⟨⟨inner, after⟩, hInner, hPair⟩ := map_eq_some_iff.mp h
        cases hPair
        simp only [cons_append, enclosed, if_neg hClose, ih hInner, map_some]

/-- Text without parentheses is passed over. -/
theorem enclosed_plain {plain : List Char} (h : ∀ c ∈ plain, c ≠ '(' ∧ c ≠ ')') (depth : Nat)
    (cs : List Char) : enclosed depth (plain ++ cs) =
      (enclosed depth cs).map fun (taken, rest) => (plain ++ taken, rest) := by
  induction plain with
  | nil =>
    rw [List.nil_append]
    cases enclosed depth cs <;> rfl
  | cons c plain ih =>
    rw [List.forall_mem_cons] at h
    rw [List.cons_append, enclosed]
    simp only [h.1, decide_false, Bool.false_and, Bool.false_eq_true, if_false, ih h.2,
      Option.map_map]
    rfl

/-! ### What ends an operand -/

/-- The text does not continue an operand in front of it: it is no part of a name or a number, and it
opens no indices. -/
def Ends (k : List Char) : Prop :=
  ∀ c ∈ k.head?, isDottedChar c = false ∧ c ≠ '('

theorem Ends.detached (h : Ends k) : Detached k :=
  fun c hc => (h c hc).1

theorem Ends.not_open (h : Ends k) : k.head? ≠ some '(' :=
  fun hOpen => (h '(' hOpen).2 rfl

/-- Blanks belong to no name and open no indices. -/
theorem ends_of_isBlank (h : isBlank c = true) : isDottedChar c = false ∧ c ≠ '(' := by
  have hAll : ∀ n ∈ blankCodes, isDottedChar (Char.ofNat n) = false ∧ Char.ofNat n ≠ '(' := by
    decide
  have hCode : c.toNat ∈ blankCodes := by simpa [isBlank] using h
  have hChar := hAll c.toNat hCode
  rwa [Char.ofNat_toNat] at hChar

theorem not_isBlank_of_isDottedChar (h : isDottedChar c = true) : isBlank c = false := by
  by_contra hBlank
  rw [(ends_of_isBlank (by simpa using hBlank)).1] at h
  cases h

theorem Ends.of_gap {gap : List Char} (hGap : Gap gap) (hk : Ends k) : Ends (gap ++ k) := by
  cases gap with
  | nil => exact hk
  | cons c gap =>
    intro d hd
    cases hd
    exact ends_of_isBlank (gap_cons.mp hGap).1

theorem Ends.cons (h : isDottedChar c = false ∧ c ≠ '(') : Ends (c :: k) := by
  rintro d ⟨⟩
  exact h

namespace ChainLevel

def symbols : ChainLevel → List Char
  | sum => ['+', '-']
  | product => ['*', '/']

theorem operator?_of_not_mem {level : ChainLevel} {c : Char} (h : c ∉ level.symbols) :
    level.operator? c = none := by
  cases level with
  | sum =>
    have hc : ¬ c = '+' ∧ ¬ c = '-' := by simpa [symbols] using h
    simp only [operator?, BinaryOp.additive?, hc, if_false]
  | product =>
    have hc : ¬ c = '*' ∧ ¬ c = '/' := by simpa [symbols] using h
    simp only [operator?, BinaryOp.multiplicative?, hc, if_false]

theorem operator?_mem {level : ChainLevel} {c : Char} {op : BinaryOp}
    (h : level.operator? c = some op) : c ∈ level.symbols := by
  by_contra hc
  rw [operator?_of_not_mem hc] at h
  cases h

end ChainLevel

/-- The name of a function is a name: letters and digits behind a letter. -/
theorem functionName_chars {name : String} {f : MathFunction}
    (h : MathFunction.ofName? name = some f) :
    ∃ c first, name.toList = c :: first ∧ c.isAlpha = true ∧
      (c :: first).all Name.isNameChar = true := by
  have hKnown : name ∈ "atan2" :: "degToRad" :: "radToDeg" :: UnaryFunction.all.map (·.name) := by
    unfold MathFunction.ofName? at h
    split at h
    · simp [*]
    · split at h
      · simp [*]
      · split at h
        · simp [*]
        · obtain ⟨g, hFind, -⟩ := map_eq_some_iff.mp h
          have hMem := mem_of_find?_eq_some hFind
          have hName : g.name = name := by simpa using List.find?_some hFind
          simp only [mem_cons, List.mem_map]
          exact .inr (.inr (.inr ⟨g, hMem, hName⟩))
  have hAll : ∀ known ∈ "atan2" :: "degToRad" :: "radToDeg" :: UnaryFunction.all.map (·.name),
      known.toList.head?.any Char.isAlpha = true ∧ known.toList.all Name.isNameChar = true := by
    decide
  obtain ⟨hHead, hNameChars⟩ := hAll name hKnown
  cases hChars : name.toList with
  | nil =>
    rw [hChars] at hHead
    cases hHead
  | cons c first =>
    rw [hChars] at hHead hNameChars
    exact ⟨c, first, rfl, hHead, hNameChars⟩

theorem all_isDottedChar_of_isNameChar (h : cs.all Name.isNameChar = true) : cs.all isDottedChar = true :=
  all_eq_true.mpr fun c hc => by simp [isDottedChar, all_eq_true.mp h c hc]

theorem getLast?_ne_point (h : cs.all Name.isNameChar = true) : cs.getLast? ≠ some '.' := by
  intro hLast
  cases all_eq_true.mp h '.' (mem_of_getLast? hLast)

end Mission.Expr
