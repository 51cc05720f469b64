import Mission.Proofs.Name.Scan

/-! What the readers of expressions are inside of at each place of a text. A quote opens a string only
where an operand is expected; behind an operand it is a transpose mark, and within the indices of an
array element it belongs to the leaf. The renaming scan only counts quotes. `Aligned` says that the two
agree wherever the old name is referred to. -/
namespace Mission.Expr

open Text Name List

/-- What stands at a place of a text. -/
inductive Context
  /-- An operand is expected. -/
  | expecting
  | name (chars : List Char)
  /-- A number, and whether its last character is an exponent mark. -/
  | number (marked : Bool)
  /-- The indices of an array element: the parentheses that are open, and whether the quotes of the
  element so far leave one open. -/
  | indices (depth : Nat) (quoted : Bool)
  | string
  /-- An operand has been completed. -/
  | finished

namespace Context

/-- The place behind a character that follows an operand. -/
def afterOperand (c : Char) : Context :=
  if isBlank c || c = quote || c = ')' then finished else expecting

def isMark (c : Char) : Bool :=
  c = 'e' || c = 'E'

def step : Context → Char → Context
  | expecting, c =>
    if c = quote then string
    else if c.isAlpha then name [c]
    else if isNumberChar c then number false
    else expecting
  | name chars, c =>
    if isDottedChar c then name (chars ++ [c])
    else if c = '(' then
      if (MathFunction.ofName? (String.ofList chars)).isSome then expecting else indices 1 false
    else afterOperand c
  | number marked, c =>
    if isDottedChar c then number (isMark c)
    else if marked && (c = '+' || c = '-') then number false
    else afterOperand c
  | indices depth quoted, c =>
    if c = ')' && depth ≤ 1 then finished
    else indices (if c = '(' then depth + 1 else if c = ')' then depth - 1 else depth)
      (if c = quote then !quoted else quoted)
  | string, c => if c = quote then finished else string
  | finished, c => afterOperand c

/-- Whether the place is quoted: inside a string, or behind an odd number of quotes in a leaf. -/
def quoted : Context → Bool
  | indices _ quoted => quoted
  | string => true
  | _ => false

/-- An operand may end here. -/
def IsDone : Context → Prop
  | name _ | finished => True
  | number marked => marked = false
  | _ => False

end Context

/-- The place behind a text. -/
def context (before : List Char) : Context :=
  before.foldl Context.step .expecting

theorem context_append (before cs : List Char) :
    context (before ++ cs) = cs.foldl Context.step (context before) :=
  foldl_append

theorem context_concat (before : List Char) (c : Char) :
    context (before ++ [c]) = (context before).step c := by
  rw [context_append]
  rfl

/-- The scan and the readers agree about the quotes at every reference to the old name. -/
def Aligned (old text : String) : Prop :=
  ∀ before after, text.toList = before ++ after →
    isReference old.toList before.getLast? after = true →
    oddQuotes before = (context before).quoted

/-- The same for the references in the piece `cs` between `before` and `rest`. -/
def AlignedIn (old before cs rest : List Char) : Prop :=
  ∀ passed ahead, cs = passed ++ ahead → ahead ≠ [] →
    isReference old (before ++ passed).getLast? (ahead ++ rest) = true →
    oddQuotes (before ++ passed) = (context (before ++ passed)).quoted

theorem alignedIn_iff_aligned {old text : String} (hOld : IsIdentifier old.toList) :
    AlignedIn old.toList [] text.toList [] ↔ Aligned old text := by
  constructor
  · intro h before after hSplit hRef
    refine h before after hSplit ?_ (by rwa [append_nil])
    rintro rfl
    obtain ⟨c, tail, hChars, -⟩ := hOld
    rw [hChars] at hRef
    cases hRef
  · intro h passed ahead hSplit _ hRef
    exact h passed ahead hSplit (by rwa [append_nil] at hRef)

section

variable {old before cs rest : List Char}

theorem alignedIn_of_not_refersIn (h : ¬ RefersIn old before cs rest) :
    AlignedIn old before cs rest :=
  fun passed ahead hSplit hAhead hRef => absurd ⟨passed, ahead, hSplit, hAhead, hRef⟩ h

theorem alignedIn_append {more : List Char} :
    AlignedIn old before (cs ++ more) rest ↔
      AlignedIn old before cs (more ++ rest) ∧ AlignedIn old (before ++ cs) more rest := by
  constructor
  · intro h
    constructor
    · rintro passed ahead rfl hAhead hRef
      refine h passed (ahead ++ more) (append_assoc ..) (by simp [hAhead]) ?_
      rwa [append_assoc]
    · rintro passed ahead rfl hAhead hRef
      rw [append_assoc] at hRef ⊢
      exact h (cs ++ passed) ahead (append_assoc ..).symm hAhead hRef
  · rintro ⟨hFirst, hSecond⟩ passed ahead hSplit hAhead hRef
    rcases append_eq_append_iff.mp hSplit with ⟨middle, rfl, rfl⟩ | ⟨middle, rfl, rfl⟩
    · rw [← append_assoc] at hRef ⊢
      exact hSecond middle ahead rfl hAhead hRef
    · cases middle with
      | nil =>
        have hFront := hSecond [] more rfl hAhead
        simp only [append_nil] at hFront
        exact hFront hRef
      | cons c middle =>
        refine hFirst passed (c :: middle) rfl (cons_ne_nil c middle) ?_
        rwa [← append_assoc]

/-- Where the readers count the quotes of the piece from its start, they agree with the scan if it
started outside quotes. -/
theorem alignedIn_iff_of_quoted (hOld : IsIdentifier old) (hRest : Detached rest)
    (hQuoted : ∀ passed ahead, cs = passed ++ ahead → ahead ≠ [] →
      (context (before ++ passed)).quoted = oddQuotes passed) :
    AlignedIn old before cs rest ↔ (RefersIn old before cs [] → oddQuotes before = false) := by
  have hAgree : ∀ passed ahead, cs = passed ++ ahead → ahead ≠ [] →
      (oddQuotes (before ++ passed) = (context (before ++ passed)).quoted ↔
        oddQuotes before = false) := by
    intro passed ahead hSplit hAhead
    rw [hQuoted passed ahead hSplit hAhead, oddQuotes_append]
    cases oddQuotes before <;> cases oddQuotes passed <;> decide
  rw [← refersIn_of_detached hOld hRest]
  constructor
  · rintro h ⟨passed, ahead, hSplit, hAhead, hRef⟩
    exact (hAgree passed ahead hSplit hAhead).mp (h passed ahead hSplit hAhead hRef)
  · intro h passed ahead hSplit hAhead hRef
    exact (hAgree passed ahead hSplit hAhead).mpr (h ⟨passed, ahead, hSplit, hAhead, hRef⟩)

/-- Inside a string the readers agree with the scan if it is inside quotes as well. -/
theorem alignedIn_iff_of_string (hOld : IsIdentifier old) (hRest : Detached rest)
    (hQuote : quote ∉ cs)
    (hString : ∀ passed ahead, cs = passed ++ ahead → context (before ++ passed) = .string) :
    AlignedIn old before cs rest ↔ (RefersIn old before cs [] → oddQuotes before = true) := by
  have hAgree : ∀ passed ahead, cs = passed ++ ahead →
      (oddQuotes (before ++ passed) = (context (before ++ passed)).quoted ↔
        oddQuotes before = true) := by
    intro passed ahead hSplit
    have hPassed : quote ∉ passed := by
      intro hMem
      exact hQuote (hSplit ▸ mem_append_left ahead hMem)
    rw [hString passed ahead hSplit, oddQuotes_append, oddQuotes_eq_false hPassed, Bool.xor_false]
    rfl
  rw [← refersIn_of_detached hOld hRest]
  constructor
  · rintro h ⟨passed, ahead, hSplit, hAhead, hRef⟩
    exact (hAgree passed ahead hSplit).mp (h passed ahead hSplit hAhead hRef)
  · intro h passed ahead hSplit hAhead hRef
    exact (hAgree passed ahead hSplit).mpr (h ⟨passed, ahead, hSplit, hAhead, hRef⟩)

end

/-! ### Between operands -/

/-- An operand is expected, and what has been passed does not reach into it. -/
structure Open (before : List Char) : Prop where
  clean : Clean before
  expects : context before = .expecting

/-- An operand may have ended. -/
def Closed (before : List Char) : Prop :=
  (context before).IsDone

theorem open_nil : Open [] :=
  ⟨by simp [Clean], rfl⟩

theorem Context.step_of_isDone {s : Context} {c : Char} (h : s.IsDone)
    (hc : isDottedChar c = false ∧ c ≠ '(') : s.step c = .afterOperand c := by
  cases s with
  | name chars => simp [step, hc]
  | number marked =>
    obtain rfl : marked = false := h
    simp [step, hc]
  | finished => rfl
  | _ => cases h

section

variable {before : List Char}
variable {c : Char} {name cs exponent rest old : List Char}

theorem Open.concat (h : Open before) (hc : c ≠ quote ∧ isDottedChar c = false) : Open (before ++ [c]) := by
  refine ⟨?_, ?_⟩
  · intro d hd
    rw [List.getLast?_concat] at hd
    cases hd
    exact hc.2
  · have hAlpha := not_isAlpha_of_isDottedChar hc.2
    have hNumber : isNumberChar c = false := by
      by_contra hNumber
      rw [isDottedChar_of_isNumberChar (by simpa using hNumber)] at hc
      cases hc.2
    rw [context_concat, h.expects]
    simp [Context.step, hc.1, hAlpha, hNumber]

theorem Open.gap {gap : List Char} (h : Open before) (hGap : Gap gap) : Open (before ++ gap) := by
  induction gap generalizing before with
  | nil => rwa [append_nil]
  | cons c gap ih =>
    obtain ⟨hBlank, hGap⟩ := gap_cons.mp hGap
    have hc : c ≠ quote := by
      rintro rfl
      cases hBlank
    rw [← singleton_append, ← append_assoc]
    exact ih (h.concat ⟨hc, (ends_of_isBlank hBlank).1⟩) hGap

theorem Closed.concat (h : Closed before) (hc : isDottedChar c = false ∧ c ≠ '(')
    (hStays : (isBlank c || c = quote || c = ')') = true) : Closed (before ++ [c]) := by
  rw [Closed, context_concat, Context.step_of_isDone h hc, Context.afterOperand, if_pos hStays]
  trivial

theorem Closed.gap {gap : List Char} (h : Closed before) (hGap : Gap gap) :
    Closed (before ++ gap) := by
  induction gap generalizing before with
  | nil => rwa [append_nil]
  | cons c gap ih =>
    obtain ⟨hBlank, hGap⟩ := gap_cons.mp hGap
    rw [← singleton_append, ← append_assoc]
    exact ih (h.concat (ends_of_isBlank hBlank) (by simp [hBlank])) hGap

/-- An operator or a comma asks for another operand. -/
theorem Closed.open_concat (h : Closed before) (hc : isDottedChar c = false ∧ c ≠ '(')
    (hLeaves : (isBlank c || c = quote || c = ')') = false) : Open (before ++ [c]) := by
  refine ⟨?_, ?_⟩
  · intro d hd
    rw [List.getLast?_concat] at hd
    cases hd
    exact hc.1
  · rw [context_concat, Context.step_of_isDone h hc, Context.afterOperand, hLeaves]
    rfl

/-! ### Within operands -/

theorem context_name (h : Open before) (hAlpha : c.isAlpha = true) (hName : name.all isDottedChar = true) :
    context (before ++ c :: name) = .name (c :: name) := by
  have hFront : context (before ++ [c]) = .name [c] := by
    have hc : c ≠ quote := by
      rintro rfl
      cases hAlpha
    rw [context_concat, h.expects]
    simp [Context.step, hc, hAlpha]
  have hRun : ∀ (chars more : List Char), more.all isDottedChar = true →
      more.foldl Context.step (.name chars) = .name (chars ++ more) := by
    intro chars more hMore
    induction more generalizing chars with
    | nil => rw [append_nil]; rfl
    | cons d more ih =>
      obtain ⟨hd, hMore⟩ : isDottedChar d = true ∧ more.all isDottedChar = true := by
        simpa using hMore
      rw [foldl_cons, Context.step, if_pos hd, ih _ hMore, append_assoc]
      rfl
  rw [← singleton_append, ← append_assoc, context_append, hFront, hRun [c] name hName]

theorem Context.step_number {marked : Bool} (h : isNumberChar c = true) :
    (number marked).step c = number false := by
  have hMark : isMark c = false := by
    cases hMark : isMark c with
    | false => rfl
    | true =>
      rcases (by simpa [isMark] using hMark : c = 'e' ∨ c = 'E') with rfl | rfl
      · cases h
      · cases h
  rw [step, if_pos (isDottedChar_of_isNumberChar h), hMark]

theorem foldl_step_number {more : List Char} (h : more.all isNumberChar = true) :
    more.foldl Context.step (.number false) = .number false := by
  induction more with
  | nil => rfl
  | cons c more ih =>
    obtain ⟨hc, hMore⟩ : isNumberChar c = true ∧ more.all isNumberChar = true := by simpa using h
    rw [foldl_cons, Context.step_number hc, ih hMore]

theorem not_isAlpha_of_isNumberChar (h : isNumberChar c = true) : c.isAlpha = false := by
  by_contra hAlpha
  rw [(front_of_isAlpha (by simpa using hAlpha)).2.2] at h
  cases h

theorem isNumberChar_of_isDigit (h : c.isDigit = true) : isNumberChar c = true := by
  simp [isNumberChar, h]

/-- A number is one piece, and it ends as an operand does. -/
theorem context_number {x : Float} (h : Open before) (hNumber : isNumberChar c = true)
    (hExponent : exponentChars ((c :: cs).dropWhile isNumberChar) = (exponent, rest))
    (hValue : Real.ofChars? ((c :: cs).takeWhile isNumberChar ++ exponent) = some x) :
    context (before ++ ((c :: cs).takeWhile isNumberChar ++ exponent)) = .number false := by
  have hWhole : context (before ++ (c :: cs).takeWhile isNumberChar) = .number false := by
    have hc : c ≠ quote := (front_of_isNumberChar hNumber).2
    have hFront : context (before ++ [c]) = .number false := by
      rw [context_concat, h.expects]
      simp [Context.step, hc, hNumber, not_isAlpha_of_isNumberChar hNumber]
    rw [takeWhile_cons_of_pos hNumber, ← singleton_append, ← append_assoc,
      context_append, hFront]
    exact foldl_step_number (span_eq cs).2.1
  rw [← append_assoc, context_append, hWhole]
  have hShape := exponentChars_shape ((c :: cs).dropWhile isNumberChar)
  rw [hExponent] at hShape
  rcases hShape with hNone | ⟨mark, sign, digits, hMark, hSign, hDigits, hSome⟩
  · have hEmpty : exponent = [] := hNone
    rw [hEmpty]
    rfl
  · obtain rfl : exponent = mark :: sign ++ digits := hSome
    have hDigits' : digits.all isNumberChar = true := all_eq_true.mpr fun d hd =>
      isNumberChar_of_isDigit (all_eq_true.mp hDigits d hd)
    have hMarked : (Context.number false).step mark = .number true := by
      rcases hMark with rfl | rfl <;> rfl
    rw [foldl_append, foldl_cons, hMarked]
    rcases hSign with rfl | rfl | rfl
    · cases digits with
      | nil =>
        rw [takeWhile_cons_of_pos hNumber, append_nil, ofChars?_mark hMark hNumber]
          at hValue
        cases hValue
      | cons d digits =>
        obtain ⟨hd, hMore⟩ : isNumberChar d = true ∧ digits.all isNumberChar = true := by
          simpa using hDigits'
        rw [foldl_nil, foldl_cons, Context.step_number hd, foldl_step_number hMore]
    · exact foldl_step_number hDigits'
    · exact foldl_step_number hDigits'

theorem getLast?_number (hNumber : isNumberChar c = true) :
    ∃ d, (before ++ (c :: cs).takeWhile isNumberChar).getLast? = some d ∧ isNumberChar d = true := by
  have hNonempty : (c :: cs).takeWhile isNumberChar ≠ [] := by
    rw [takeWhile_cons_of_pos hNumber]
    exact cons_ne_nil _ _
  refine ⟨_, ?_, all_eq_true.mp (span_eq (c :: cs)).2.1 _ (getLast_mem hNonempty)⟩
  rw [List.getLast?_append, List.getLast?_eq_some_getLast hNonempty, Option.some_or]

/-- An exponent mark refers to nothing. It stands behind a digit, which continues a name, or behind
a point and in front of no other. -/
theorem not_isReference_exponent {d : Char} (hOld : IsIdentifier old) (hd : isNumberChar d = true)
    (hPoint : '.' ∉ cs) : ¬ isReference old (some d) (c :: cs) = true := by
  intro hRef
  obtain ⟨o, tail, rfl, -⟩ := hOld
  simp only [isReference, length_cons, drop_succ_cons, Bool.and_eq_true] at hRef
  rcases (by simpa [isNumberChar] using hd : d.isDigit = true ∨ d = '.') with hDigit | rfl
  · have hChar : isNameChar d = true := by simp [isNameChar, Char.isAlphanum, hDigit]
    simp [hChar] at hRef
  · have hNext : (cs.drop tail.length).head? ≠ some '.' := fun hHead =>
      hPoint (mem_of_mem_drop (mem_of_head? hHead))
    exact hNext (by simpa using hRef.2)

/-- A number refers to nothing. -/
theorem not_refersIn_number {after : List Char} (hOld : IsIdentifier old) (hNumber : isNumberChar c = true)
    (hExponent : exponentChars ((c :: cs).dropWhile isNumberChar) = (exponent, rest))
    (hAfter : Detached after) :
    ¬ RefersIn old before ((c :: cs).takeWhile isNumberChar ++ exponent) after := by
  have hPlain : ∀ {text : List Char}, text.all isNumberChar = true → ∀ d ∈ text, d.isAlpha = false :=
    fun h d hd => not_isAlpha_of_isNumberChar (all_eq_true.mp h d hd)
  have hWhole := (span_eq (p := isNumberChar) (c :: cs)).2.1
  rw [refersIn_append, not_or]
  refine ⟨not_refersIn_of_not_isAlpha hOld (hPlain hWhole), ?_⟩
  have hShape := exponentChars_shape ((c :: cs).dropWhile isNumberChar)
  rw [hExponent] at hShape
  rcases hShape with hNone | ⟨mark, sign, digits, hMark, hSign, hDigits, hSome⟩
  · obtain rfl : exponent = [] := hNone
    exact not_refersIn_of_not_isAlpha hOld (by simp)
  · obtain rfl : exponent = mark :: sign ++ digits := hSome
    have hBehind : ∀ d ∈ sign ++ digits, d.isAlpha = false ∧ d ≠ '.' := by
      intro d hd
      rcases mem_append.mp hd with hd | hd
      · rcases hSign with rfl | rfl | rfl
        · cases hd
        · obtain rfl := mem_singleton.mp hd
          decide
        · obtain rfl := mem_singleton.mp hd
          decide
      · have hDigit := all_eq_true.mp hDigits d hd
        refine ⟨not_isAlpha_of_isNumberChar (isNumberChar_of_isDigit hDigit), ?_⟩
        rintro rfl
        cases hDigit
    rw [cons_append, refersIn_cons, not_or]
    refine ⟨?_, not_refersIn_of_not_isAlpha hOld fun d hd => (hBehind d hd).1⟩
    obtain ⟨d, hLast, hd⟩ := getLast?_number hNumber
    rw [isReference_append hOld hAfter, hLast]
    exact not_isReference_exponent hOld hd fun hMem => (hBehind '.' hMem).2 rfl

/-- Within the indices of an array element the quotes of the element are counted, and behind the
parenthesis that closes them the element is complete. -/
theorem context_indices {depth : Nat} {odd : Bool} {taken : List Char}
    (hContext : context before = .indices depth odd) (h : enclosed depth cs = some (taken, rest)) :
    context (before ++ taken) = .finished ∧ ∀ passed ahead, taken = passed ++ ahead → ahead ≠ [] →
      (context (before ++ passed)).quoted = (odd ^^ oddQuotes passed) := by
  induction cs generalizing before depth odd taken with
  | nil => cases h
  | cons c cs ih =>
    have hStart : (context (before ++ [])).quoted = (odd ^^ oddQuotes []) := by
      rw [append_nil, hContext, oddQuotes_nil, Bool.xor_false]
      rfl
    simp only [enclosed] at h
    split at h
    · next hClose =>
        cases h
        refine ⟨by rw [context_concat, hContext, Context.step, if_pos hClose], ?_⟩
        intro passed ahead hSplit hAhead
        cases passed with
        | nil => exact hStart
        | cons d passed =>
          have hEmpty : [] = passed ++ ahead := (cons_eq_cons.mp hSplit).2
          exact absurd (append_eq_nil_iff.mp hEmpty.symm).2 hAhead
    · next hClose =>
        obtain ⟨⟨inner, after⟩, hInner, hPair⟩ := Option.map_eq_some_iff.mp h
        cases hPair
        have hNext : context (before ++ [c]) =
            .indices (if c = '(' then depth + 1 else if c = ')' then depth - 1 else depth)
              (odd ^^ oddQuotes [c]) := by
          rw [context_concat, hContext, Context.step, if_neg hClose, oddQuotes_singleton]
          by_cases hQuote : c = quote <;> simp [hQuote]
        obtain ⟨hEnd, hInside⟩ := ih hNext hInner
        rw [append_assoc] at hEnd
        refine ⟨hEnd, ?_⟩
        intro passed ahead hSplit hAhead
        cases passed with
        | nil => exact hStart
        | cons d passed =>
          obtain ⟨rfl, hRest⟩ := cons_eq_cons.mp hSplit
          have hPlace := hInside passed ahead hRest hAhead
          rwa [append_assoc, Bool.xor_assoc, ← oddQuotes_append] at hPlace

/-- Within a name no quote is open. -/
theorem quoted_name (h : Open before) (hAlpha : c.isAlpha = true)
    (hName : (c :: name).all isDottedChar = true) {passed ahead : List Char}
    (hSplit : c :: name = passed ++ ahead) : (context (before ++ passed)).quoted = oddQuotes passed := by
  cases passed with
  | nil =>
    rw [append_nil, h.expects]
    rfl
  | cons d passed =>
    obtain ⟨rfl, hRest⟩ := cons_eq_cons.mp hSplit
    have hAll : ∀ x ∈ c :: passed, isDottedChar x = true := by
      intro x hx
      refine all_eq_true.mp hName x ?_
      rw [hSplit]
      exact mem_append_left ahead hx
    have hQuote : quote ∉ c :: passed := by
      intro hMem
      cases hAll quote hMem
    have hPassed : passed.all isDottedChar = true :=
      all_eq_true.mpr fun x hx => hAll x (mem_cons_of_mem c hx)
    rw [context_name h hAlpha hPassed, oddQuotes_eq_false hQuote]
    rfl

/-- Within an array element the quotes of the element are counted from its start. -/
theorem context_leaf {inside : List Char} (h : Open before) (hAlpha : c.isAlpha = true)
    (hName : (c :: name).all isDottedChar = true)
    (hFunction : MathFunction.ofName? (String.ofList (c :: name)) = none)
    (hEnclosed : enclosed 0 ('(' :: inside) = some ('(' :: inside, [])) :
    context (before ++ (c :: name ++ '(' :: inside)) = .finished ∧
      ∀ passed ahead, c :: name ++ '(' :: inside = passed ++ ahead → ahead ≠ [] →
        (context (before ++ passed)).quoted = oddQuotes passed := by
  have hRest : name.all isDottedChar = true := by
    rw [all_cons, Bool.and_eq_true] at hName
    exact hName.2
  have hOpened : context (before ++ (c :: name ++ ['('])) = .indices 1 false := by
    rw [← append_assoc, context_concat, context_name h hAlpha hRest]
    rw [Context.step, if_neg (by decide), if_pos rfl, hFunction]
    rfl
  have hInside : enclosed 1 inside = some (inside, []) := by
    obtain ⟨⟨taken, rest⟩, hTaken, hPair⟩ := Option.map_eq_some_iff.mp hEnclosed
    cases hPair
    exact hTaken
  obtain ⟨hEnd, hPlaces⟩ := context_indices hOpened hInside
  constructor
  · simpa using hEnd
  · intro passed ahead hSplit hAhead
    rcases append_eq_append_iff.mp hSplit with ⟨more, rfl, hMore⟩ | ⟨more, hMore, -⟩
    · cases more with
      | nil =>
        rw [append_nil]
        exact quoted_name h hAlpha hName (append_nil _).symm
      | cons d more =>
        obtain ⟨rfl, hInner⟩ := cons_eq_cons.mp hMore
        have hPlace := hPlaces more ahead hInner hAhead
        have hQuote : quote ∉ c :: name ++ ['('] := by
          intro hMem
          rcases mem_append.mp hMem with hMem | hMem
          · cases all_eq_true.mp hName quote hMem
          · cases mem_singleton.mp hMem
        have hPassed : c :: name ++ '(' :: more = c :: name ++ ['('] ++ more := by simp
        rw [hPassed, oddQuotes_append, oddQuotes_eq_false hQuote, ← append_assoc before]
        exact hPlace
    · exact quoted_name h hAlpha hName hMore

/-- A string is quoted from its first quote to its last. -/
theorem context_string {text : List Char} (h : Open before) (hText : quote ∉ text) :
    context (before ++ [quote] ++ text) = .string := by
  have hOpened : context (before ++ [quote]) = .string := by
    rw [context_concat, h.expects]
    rfl
  rw [context_append, hOpened]
  clear hOpened
  induction text with
  | nil => rfl
  | cons c text ih =>
    have hc : c ≠ quote := fun hc => hText (by simp [hc])
    rw [foldl_cons, Context.step, if_neg hc]
    exact ih fun hMem => hText (mem_cons_of_mem c hMem)

end

end Mission.Expr
