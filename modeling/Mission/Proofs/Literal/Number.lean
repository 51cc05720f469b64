import Mission.Proofs.Classify.Tracking
import Mission.Proofs.Expr.Printing
import Mission.Proofs.Real.Value

/-! Numbers as literals and as expressions. A literal is recognised as a whole, sign included; an
expression takes digits, points and an exponent as long as it can, and the signs in front of them as
operators. Both rest on one reader of unsigned decimals, so they agree as soon as the expression
takes all of what that reader accepts, and a sign in front does to the bits of a number what
negating does. -/
namespace Mission

open Text Outcome List Mission.Expr Mission.Real Option

namespace Real

theorem ofParts_eq (negative : Bool) (bits : Nat) :
    ofParts negative bits = if negative then -ofParts false bits else ofParts false bits := by
  cases negative with
  | false => rfl
  | true => exact ofBits_signBit bits

/-! ### The shape of decimals -/

/-- An exponent as it stands behind a decimal: nothing, or a mark, a sign that may be missing, and
digits. -/
def IsExponent (cs : List Char) : Prop :=
  cs = [] ∨ ∃ mark sign digits, (mark = 'e' ∨ mark = 'E') ∧ (sign = [] ∨ sign = ['+'] ∨ sign = ['-']) ∧
    digits.all Char.isDigit = true ∧ digits ≠ [] ∧ cs = mark :: sign ++ digits

theorem splitSign_append (cs : List Char) :
    ∃ sign, (sign = [] ∨ sign = ['+'] ∨ sign = ['-']) ∧ cs = sign ++ (splitSign cs).2 := by
  unfold splitSign
  split
  · exact ⟨['-'], by simp, rfl⟩
  · exact ⟨['+'], by simp, rfl⟩
  · exact ⟨[], by simp, rfl⟩

theorem isExponent_of_readExponent {cs : List Char} {n : Int} (h : readExponent cs = some n) :
    IsExponent cs := by
  cases cs with
  | nil => exact .inl rfl
  | cons mark rest =>
    simp only [readExponent] at h
    split at h
    · next hMark =>
      split at h
      · cases h
      · next hDigits =>
        obtain ⟨sign, hSign, hRest⟩ := splitSign_append rest
        simp only [Bool.or_eq_true, Bool.not_eq_true', not_or, Bool.not_eq_true, Bool.not_eq_false,
          isEmpty_eq_false_iff] at hDigits
        exact .inr ⟨mark, sign, _, by simpa using hMark, hSign, hDigits.2, hDigits.1,
          by rw [cons_append, ← hRest]⟩
    · cases h

/-- A decimal is made of digits and points, at least one of them, and an exponent. -/
theorem readDecimal_shape {cs : List Char} {d : Decimal} (h : readDecimal cs = some d) :
    ∃ plain exponent, cs = plain ++ exponent ∧ plain.all isNumberChar = true ∧ IsExponent exponent := by
  have hDigits : ∀ cs : List Char, (cs.takeWhile Char.isDigit).all isNumberChar = true := fun cs =>
    all_eq_true.mpr fun c hc => by simp [isNumberChar, mem_takeWhile_imp hc]
  simp only [readDecimal] at h
  split at h
  · next after hPoint =>
    split at h
    · cases h
    · obtain ⟨n, hn, -⟩ := map_eq_some_iff.mp h
      refine ⟨cs.takeWhile Char.isDigit ++ '.' :: after.takeWhile Char.isDigit, after.dropWhile Char.isDigit,
        ?_, ?_, isExponent_of_readExponent hn⟩
      · rw [append_assoc, cons_append, takeWhile_append_dropWhile, ← hPoint,
          takeWhile_append_dropWhile]
      · rw [all_append, all_cons, hDigits, hDigits]
        rfl
  · split at h
    · cases h
    · obtain ⟨n, hn, -⟩ := map_eq_some_iff.mp h
      exact ⟨cs.takeWhile Char.isDigit, cs.dropWhile Char.isDigit, takeWhile_append_dropWhile.symm,
        hDigits cs, isExponent_of_readExponent hn⟩

theorem toLower_of_isNumberChar {c : Char} (h : isNumberChar c = true) : c.toLower = c := by
  rcases (by simpa [isNumberChar] using h : c.isDigit = true ∨ c = '.') with hDigit | rfl
  · have hRange : 48 ≤ c.val ∧ c.val ≤ 57 := by simpa [Char.isDigit] using hDigit
    unfold Char.toLower
    rw [dif_neg]
    rintro ⟨hLow, -⟩
    exact absurd (UInt32.le_trans hLow hRange.2) (by decide)
  · rfl

/-- What starts with a digit or a point behind the sign is no word, so it is a decimal or nothing. -/
theorem ofChars?_of_split {cs after : List Char} {c : Char} {negative : Bool}
    (hSplit : splitSign cs = (negative, c :: after)) (hNumber : isNumberChar c = true) :
    ofChars? cs = (readDecimal (c :: after)).map fun d => ofParts negative d.nearestBits := by
  have hWord : ∀ word : String, word.toList.head?.any isNumberChar = false →
      String.ofList ((c :: after).map Char.toLower) ≠ word := by
    rintro word hHead rfl
    rw [String.toList_ofList, map_cons, List.head?_cons, toLower_of_isNumberChar hNumber] at hHead
    cases hNumber.symm.trans hHead
  have hInf := hWord "inf" (by decide)
  have hInfinity := hWord "infinity" (by decide)
  have hNan := hWord "nan" (by decide)
  simp only [ofChars?, hSplit]
  cases readDecimal (c :: after) with
  | some d => rfl
  | none =>
    simp only [hInf, hInfinity, hNan, decide_false, Bool.or_false, if_false, Bool.false_eq_true, map_none]

end Real

namespace Expr

variable {c : Char} {after : List Char} {x : Float}

theorem splitSign_of_isNumberChar (hNumber : isNumberChar c = true) (after : List Char) :
    splitSign (c :: after) = (false, c :: after) := by
  unfold splitSign
  split
  · next h =>
    cases h
    cases hNumber
  · next h =>
    cases h
    cases hNumber
  · rfl

theorem exponentChars_of_isExponent {cs : List Char} (h : Real.IsExponent cs) :
    exponentChars cs = (cs, []) := by
  rcases h with rfl | ⟨mark, sign, digits, hMark, hSign, hDigits, hSome, rfl⟩
  · rfl
  · have hAll := exponentChars_of_shape (k := []) hMark hSign hDigits (by simp)
      fun hBare => absurd (append_eq_nil_iff.mp hBare).2 hSome
    rwa [append_nil] at hAll

theorem head_isExponent {cs : List Char} (h : Real.IsExponent cs) :
    ∀ d ∈ cs.head?, isNumberChar d = false := by
  rcases h with rfl | ⟨mark, sign, digits, hMark, -, -, -, rfl⟩
  · simp
  · rintro d ⟨⟩
    rcases hMark with rfl | rfl <;> rfl

/-- An expression takes as a number exactly what the reader of decimals accepts. -/
theorem numeral_iff (hNumber : isNumberChar c = true) :
    Numeral (c :: after) x ↔ ∃ d, readDecimal (c :: after) = some d ∧ x = ofParts false d.nearestBits := by
  have hValue := ofChars?_of_split (splitSign_of_isNumberChar hNumber after) hNumber
  constructor
  · rintro ⟨-, hLiteral⟩
    obtain ⟨exponent, y, hExponent, hRead, hResult⟩ := numberLiteral_eq_ok hLiteral
    cases hResult
    have hAppend := exponentChars_append ((c :: after).dropWhile isNumberChar)
    rw [hExponent] at hAppend
    have hDrop : exponent = (c :: after).dropWhile isNumberChar := by simpa using hAppend
    rw [hDrop, takeWhile_append_dropWhile, hValue] at hRead
    obtain ⟨d, hd, rfl⟩ := map_eq_some_iff.mp hRead
    exact ⟨d, hd, rfl⟩
  · rintro ⟨d, hd, rfl⟩
    obtain ⟨plain, exponent, hSplit, hPlain, hExponent⟩ := readDecimal_shape hd
    obtain ⟨hTake, hDrop⟩ := takeWhile_of_split hSplit hPlain (head_isExponent hExponent)
    have hAll : exponentChars ((c :: after).dropWhile isNumberChar) = (exponent, []) := by
      rw [hDrop, exponentChars_of_isExponent hExponent]
    refine ⟨⟨c, after, rfl, hNumber⟩, numberLiteral_eq hAll ?_⟩
    rw [hTake, ← hSplit, hValue, hd]
    rfl

theorem readsBack_plus {e : Expr} {text : List Char} (h : ReadsBack .sign e text) :
    ReadsBack .sign e ('+' :: text) := by
  intro k hEnds hAvoids
  exact .plus (stripStart_cons (by decide) _) (h k hEnds hAvoids)

end Expr

namespace Literal

/-- The characters that a number may be made of. -/
theorem isNumeric_of_readDecimal {cs : List Char} {d : Real.Decimal} (h : readDecimal cs = some d) :
    (cs.all fun c => c.isDigit || ['.', 'e', 'E', '+', '-'].contains c) = true := by
  obtain ⟨plain, exponent, rfl, hPlain, hExponent⟩ := readDecimal_shape h
  have hNumber : (plain.all fun c => c.isDigit || ['.', 'e', 'E', '+', '-'].contains c) = true := by
    refine all_eq_true.mpr fun c hc => ?_
    rcases (by simpa [isNumberChar] using all_eq_true.mp hPlain c hc : c.isDigit = true ∨ c = '.') with
      hDigit | rfl
    · simp [hDigit]
    · rfl
  rw [all_append, hNumber, Bool.true_and]
  rcases hExponent with rfl | ⟨mark, sign, digits, hMark, hSign, hDigits, -, rfl⟩
  · rfl
  · have hBehind : (digits.all fun c => c.isDigit || ['.', 'e', 'E', '+', '-'].contains c) = true :=
      all_eq_true.mpr fun c hc => by simp [all_eq_true.mp hDigits c hc]
    rw [all_append, hBehind, Bool.and_true]
    rcases hMark with rfl | rfl <;> rcases hSign with rfl | rfl | rfl <;> decide

/-- The literals that are numbers: a sign that may be missing, and a decimal behind it. -/
theorem real?_eq_some {text : String} {v : Float} : real? text = some v ↔
    ∃ negative c after d, splitSign (strip text.toList) = (negative, c :: after) ∧
      isNumberChar c = true ∧ readDecimal (c :: after) = some d ∧
      v = ofParts negative d.nearestBits ∧ v.isFinite = true := by
  rw [real?]
  rcases hSplit : splitSign (strip text.toList) with ⟨negative, body⟩
  dsimp only
  constructor
  · intro h
    split at h
    · cases h
    · next hBody =>
      simp only [Bool.or_eq_true, Bool.not_eq_true', not_or, Bool.not_eq_false] at hBody
      cases body with
      | nil => cases hBody.1
      | cons c after =>
        have hNumber : isNumberChar c = true := hBody.1
        obtain ⟨hRead, hFinite⟩ := filter_eq_some_iff.mp h
        rw [ofChars?_of_split hSplit hNumber] at hRead
        obtain ⟨d, hd, rfl⟩ := map_eq_some_iff.mp hRead
        exact ⟨negative, c, after, d, rfl, hNumber, hd, rfl, hFinite⟩
  · rintro ⟨negative', c, after, d, hSame, hNumber, hd, rfl, hFinite⟩
    cases hSame
    have hHead : ((c :: after).head?.any fun c => c.isDigit || decide (c = '.')) = true := hNumber
    rw [hHead, isNumeric_of_readDecimal hd, if_neg (by decide), ofChars?_of_split hSplit hNumber, hd]
    exact filter_eq_some_iff.mpr ⟨rfl, hFinite⟩

theorem strip_of_splitSign {cs body : List Char} {negative : Bool} (h : splitSign cs = (negative, body)) :
    (negative = true ∧ cs = '-' :: body) ∨ (negative = false ∧ (cs = '+' :: body ∨ cs = body)) := by
  unfold splitSign at h
  split at h
  · cases h
    exact .inl ⟨rfl, rfl⟩
  · cases h
    exact .inr ⟨rfl, .inl rfl⟩
  · cases h
    exact .inr ⟨rfl, .inr rfl⟩

/-- A literal is read as the same number by an expression. -/
theorem parse_of_real? {text : String} {v : Float} (h : real? text = some v) :
    parse text = .ok (.number v) := by
  obtain ⟨negative, c, after, d, hSplit, hNumber, hd, rfl, -⟩ := real?_eq_some.mp h
  have hNumeral := (numeral_iff hNumber).mpr ⟨d, hd, rfl⟩
  have hBody : Expr.ReadsBack .sign (.number (ofParts false d.nearestBits)) (c :: after) :=
    (readsBack_number hNumeral).loosen (by decide)
  have hSigned : Expr.ReadsBack .sign (.number (ofParts negative d.nearestBits)) (strip text.toList) := by
    rcases strip_of_splitSign hSplit with ⟨rfl, hText⟩ | ⟨rfl, hText | hText⟩
    · rw [hText, ofParts_eq]
      exact readsBack_negate gap_nil hBody
    · rw [hText]
      exact readsBack_plus hBody
    · rw [hText]
      exact hBody
  obtain ⟨before, hBefore, hFront⟩ := exists_gap text.toList
  obtain ⟨behind, hBehind, hEnd⟩ := exists_gap_end (stripStart text.toList)
  refine hSigned.parse hBefore hBehind ?_
  rw [append_assoc, strip, ← hEnd, ← hFront]

theorem real?_trim (text : String) : real? (trim text) = real? text := by
  have hStrip : strip (trim text).toList = strip text.toList := by
    have hTwice := congrArg String.toList (trim_trim text)
    simp only [trim, String.toList_ofList] at hTwice ⊢
    exact hTwice
  rw [real?, real?, hStrip]

/-- A literal is classified as a number, and nothing but the log changes. -/
theorem classify_of_real? {text : String} {v : Float} (h : real? text = some v) (kinds : ParameterKinds)
    (options : ClassifyOptions) (w : Workspace) :
    ∃ log, classify kinds options text w = (.ok (.number (trim text) v), { w with log }) := by
  obtain ⟨negative, c, after, d, hSplit, hNumber, -⟩ := real?_eq_some.mp h
  have hHead : ∀ first ∈ ['(', Name.quote, '\x7b'], (strip text.toList).head? ≠ some first := by
    intro first hFirst hHead
    rcases strip_of_splitSign hSplit with ⟨-, hText⟩ |
      ⟨-, hText | hText⟩ <;> rw [hText] at hHead <;> cases hHead
    · exact absurd hFirst (by decide)
    · exact absurd hFirst (by decide)
    · rcases (by simpa using hFirst : c = '(' ∨ c = Name.quote ∨ c = '\x7b') with rfl | rfl |
        rfl <;> cases hNumber
  have hBare : unparenthesise text = trim text := by
    rw [unparenthesise, unparenthesiseChars, dif_neg (by simp [isParenthesised, hHead '(' (by simp)])]
    rfl
  have hLiteral : Phrase.literal? (trim text) = some (.number (trim text) v) := by
    have hChars : (trim text).toList = strip text.toList := String.toList_ofList
    rw [Phrase.literal?, if_neg, if_neg, real?_trim, h]
    · rfl
    · simp [isBraced, isEnclosed, hChars, hHead '\x7b' (by simp)]
    · simp [isQuoted, isQuotedChars, isEnclosed, hChars, hHead Name.quote (by simp)]
  have hPhrase : Phrase.parse text = .literal (.number (trim text) v) := by
    rw [Phrase.parse, hBare, Phrase.ofBare]
    split
    · next a ha =>
      rw [hLiteral] at ha
      cases ha
      rfl
    · next hNone =>
      rw [hLiteral] at hNone
      cases hNone
  rw [classify, hPhrase]
  exact ⟨_, rfl⟩

end Literal

namespace Expr

variable {e : Expr} {rest cs : List Char} {v : Float}

theorem transposes_ne_number (h : ∀ v, e ≠ number v) (cs : List Char) (v : Float) :
    (transposes e cs).1 ≠ number v := by
  fun_induction transposes e cs with
  | case1 => exact h v
  | case2 _ _ _ _ ih => exact ih h
  | case3 _ _ _ ih => exact ih (by simp)
  | case4 => exact h v

/-- Nothing that has a mark behind it is a number. -/
theorem transposes_eq_number {mid : List Char} (h : transposes e mid = (number v, rest)) :
    e = number v ∧ rest = stripStart mid := by
  induction mid with
  | nil =>
    cases h
    exact ⟨rfl, rfl⟩
  | cons c mid ih =>
    rw [transposes] at h
    split at h
    · next hBlank =>
      rw [stripStart_cons_of_blank hBlank]
      exact ih h
    · next hBlank =>
      split at h
      · exact absurd (congrArg Prod.fst h) (transposes_ne_number (by simp) mid v)
      · cases h
        exact ⟨rfl, (stripStart_cons (by simpa using hBlank) mid).symm⟩

theorem negated_eq_number (h : negated e = number v) : ∃ x, e = number x ∧ v = -x := by
  cases e with
  | number x =>
    cases h
    exact ⟨x, rfl, rfl⟩
  | _ => cases h

theorem application_ne_number {f : MathFunction} {args : List Expr} :
    application f args ≠ .ok (number v) := by
  unfold application
  split <;> simp

/-- The number that signs make of a number. -/
def signed (signs : List Char) (x : Float) : Float :=
  signs.foldr (fun c y => if c = '-' then -y else y) x

/-- What is read as a number from a text without blanks and parentheses is a literal with signs in
front. -/
def Reading.Spells : Reading → Prop
  | tail _ left cs e rest => ∀ v, e = number v → left = number v ∧ rest = stripStart cs
  | chain _ cs e rest | signed cs e rest | power cs e rest | operand cs e rest =>
    ∀ v, e = number v → '(' ∉ cs → (∀ c ∈ cs, isBlank c = false) →
      ∃ signs body x, cs = signs ++ body ++ rest ∧ (∀ c ∈ signs, c = '+' ∨ c = '-') ∧ Numeral body x ∧
        v = Expr.signed signs x
  | named _ e _ => ∀ v, e ≠ number v
  | arguments _ _ _ => True

theorem stripStart_of_full (h : ∀ c ∈ cs, isBlank c = false) : stripStart cs = cs := by
  cases cs with
  | nil => rfl
  | cons c cs => exact stripStart_cons (h c (by simp)) cs

theorem ChainLevel.spells_operand {level : ChainLevel} :
    (level.operand cs e rest).Spells ↔ (Reading.signed cs e rest).Spells := by
  cases level <;> rfl

theorem Reads.spells {g : Reading} (h : Reads g) : g.Spells := by
  induction h with
  | chain _ _ ihFirst ihTail =>
    intro v hv hOpen hFull
    obtain ⟨hLeft, rfl⟩ := ihTail v hv
    obtain ⟨signs, body, x, rfl, hSigns, hBody, hValue⟩ := ChainLevel.spells_operand.mp ihFirst v hLeft hOpen
      hFull
    exact ⟨signs, body, x, by rw [stripStart_of_full fun c hc => hFull c (by simp [hc])], hSigns, hBody,
      hValue⟩
  | tailEnd => exact fun v hv => ⟨hv, rfl⟩
  | tailStep _ _ _ _ _ ihTail =>
    intro v hv
    cases (ihTail v hv).1
  | minus hFront _ ihInner =>
    intro v hv hOpen hFull
    obtain ⟨x, rfl, rfl⟩ := negated_eq_number hv
    rw [stripStart_of_full hFull] at hFront
    subst hFront
    obtain ⟨signs, body, y, rfl, hSigns, hBody, rfl⟩ :=
      ihInner x rfl (fun h => hOpen (by simp [h])) fun c hc => hFull c (by simp [hc])
    exact ⟨'-' :: signs, body, y, rfl, by simpa using hSigns, hBody, rfl⟩
  | plus hFront _ ihInner =>
    intro v hv hOpen hFull
    rw [stripStart_of_full hFull] at hFront
    subst hFront
    obtain ⟨signs, body, y, rfl, hSigns, hBody, rfl⟩ :=
      ihInner v hv (fun h => hOpen (by simp [h])) fun c hc => hFull c (by simp [hc])
    exact ⟨'+' :: signs, body, y, rfl, by simpa using hSigns, hBody, rfl⟩
  | unsigned _ _ _ ihInner =>
    intro v hv hOpen hFull
    rw [stripStart_of_full hFull] at ihInner
    exact ihInner v hv hOpen hFull
  | base _ hMarks _ ihInner =>
    intro v hv hOpen hFull
    subst hv
    obtain ⟨rfl, rfl⟩ := transposes_eq_number hMarks
    obtain ⟨signs, body, x, rfl, hSigns, hBody, hValue⟩ := ihInner v rfl hOpen hFull
    exact ⟨signs, body, x, by rw [stripStart_of_full fun c hc => hFull c (by simp [hc])], hSigns, hBody,
      hValue⟩
  | parenthesised hFront =>
    intro v _ hOpen hFull
    rw [stripStart_of_full hFull] at hFront
    exact absurd (by simp [hFront]) hOpen
  | @number cs after exponent rest c x hFront hNumber hExponent hValue =>
    intro v hv hOpen hFull
    cases hv
    rw [stripStart_of_full hFull] at hFront
    have hAppend := exponentChars_append ((c :: after).dropWhile isNumberChar)
    rw [hExponent] at hAppend
    refine ⟨[], _, x, ?_, by simp, Numeral.of_reads hNumber hExponent hValue, rfl⟩
    rw [hFront, nil_append, append_assoc]
    exact takeWhile_append_dropWhile.symm.trans (congrArg _ hAppend.symm)
  | named _ _ _ ihInner => exact fun v hv => absurd hv (ihInner v)
  | call _ _ _ _ _ _ hApply =>
    rintro v rfl
    exact application_ne_number hApply
  | raised | string | element | arrayElement =>
    intro v hv
    cases hv
  | lastArgument | moreArguments => trivial

end Expr

namespace Literal

/-- No two signs stand in front of the text. -/
def OneSign (cs : List Char) : Prop :=
  ∀ first second rest, cs = first :: second :: rest →
    (first = '+' ∨ first = '-') → ¬ (second = '+' ∨ second = '-')

theorem strip_of_full {cs : List Char} (h : ∀ c ∈ cs, isBlank c = false) : strip cs = cs := by
  have hEnd := stripEnd_append (fun c hc => h c (mem_of_getLast? hc)) []
  rw [append_nil] at hEnd
  rw [strip, stripStart_of_full h, hEnd]
  exact append_nil cs

/-- A finite number that an expression reads from a text without blanks, parentheses and a second
sign is a literal. -/
theorem real?_of_parse {text : String} {v : Float}
    (hChars : ∀ c ∈ text.toList, isBlank c = false ∧ c ≠ '(' ∧ c ≠ ')') (hSign : OneSign text.toList)
    (hParse : parse text = .ok (.number v)) (hFinite : v.isFinite = true) : real? text = some v := by
  have hFull : ∀ c ∈ text.toList, isBlank c = false := fun c hc => (hChars c hc).1
  obtain ⟨rest, hReads, hRest⟩ := parse_eq_ok_iff.mp hParse
  obtain ⟨signs, body, x, hText, hSigns, hBody, rfl⟩ := hReads.spells v rfl
    (fun h => (hChars _ h).2.1 rfl) hFull
  have hDone : rest = [] := by
    rw [← hRest, stripStart_of_full fun c hc => hFull c (by simp [hText, hc])]
  obtain ⟨⟨c, after, rfl, hNumber⟩, -⟩ := id hBody
  obtain ⟨d, hd, rfl⟩ := (numeral_iff hNumber).mp hBody
  rw [hDone, append_nil] at hText
  rw [real?_eq_some, strip_of_full hFull, hText]
  cases signs with
  | nil => exact ⟨false, c, after, d, splitSign_of_isNumberChar hNumber after, hNumber, hd, rfl, hFinite⟩
  | cons sign signs =>
    have hOne := hSigns sign (by simp)
    cases signs with
    | nil =>
      rcases hOne with rfl | rfl
      · exact ⟨false, c, after, d, rfl, hNumber, hd, rfl, hFinite⟩
      · exact ⟨true, c, after, d, rfl, hNumber, hd, (ofParts_eq true _).symm, hFinite⟩
    | cons second signs => exact absurd (hSigns second (by simp)) (hSign _ _ _ hText hOne)

/-- Literals and expressions agree on numbers. A literal is an expression that is this number, is no
equation, and is classified as this number, which changes nothing but the log. An expression that is
a finite number is a literal, if it is written without blanks, parentheses and a second sign in
front. -/
theorem number_literals_agree (text : String) (v : Float) :
    (real? text = some v →
      Expr.parse text = .ok (.number v) ∧ Expr.isEquation text false = false ∧
        ∀ kinds options w, ∃ log, classify kinds options text w =
        (.ok (.number (trim text) v), { w with log })) ∧
    ((∀ c ∈ text.toList, isBlank c = false ∧ c ≠ '(' ∧ c ≠ ')') → OneSign text.toList →
      Expr.parse text = .ok (.number v) → v.isFinite = true → real? text = some v) := by
  refine ⟨fun h => ?_, real?_of_parse⟩
  have hParse := parse_of_real? h
  exact ⟨hParse, by rw [Expr.isEquation, hParse], classify_of_real? h⟩

/-- A zero with a sign, a point in front and an exponent is the same number either way. -/
theorem number_literals_agree_negative_zero :
    (real? " -.0E-3 " = some (Real.ofParts true 0) ∧
      Expr.parse " -.0E-3 " = .ok (.number (Real.ofParts true 0))) ∧
    Expr.parse "-.0E-3" = .ok (.number (Real.ofParts true 0)) ∧ real? "-.0E-3" =
      some (Real.ofParts true 0) := by
  have hBlanks : real? " -.0E-3 " = some (Real.ofParts true 0) :=
    real?_eq_some.mpr ⟨true, '.', "0E-3".toList, ⟨0, -4⟩, by decide, rfl, by decide, rfl, by decide⟩
  have hParse : Expr.parse "-.0E-3" = .ok (.number (Real.ofParts true 0)) := by
    rfl
  refine ⟨⟨hBlanks, ((number_literals_agree _ _).1 hBlanks).1⟩, hParse, ?_⟩
  have hChars : "-.0E-3".toList = ['-', '.', '0', 'E', '-', '3'] := by decide
  refine (number_literals_agree _ _).2 (by rw [hChars]; simp [isBlank, blankCodes]) ?_ hParse (by decide)
  intro first second rest hText _
  rw [hChars] at hText
  cases hText
  decide

end Literal

end Mission
