import Mission.Proofs.Expr.Literal

/-! Blanks around what is read. The readers skip blanks in front of what they look at and never take
one into a literal or a name, so neither the blanks in front of an expression nor those behind it
matter, and a text can be trimmed before it is read. -/
namespace Mission.Expr

open Text Name List ChainLevel

variable {cs cs' rest after : List Char} {e base : Expr} {c : Char}

/-! ### In front -/

/-- The same reading of another text. A name is read from where it starts and keeps its text. -/
def Reading.onText (cs' : List Char) : Reading → Reading
  | chain level _ e rest => chain level cs' e rest
  | tail level left _ e rest => tail level left cs' e rest
  | signed _ e rest => signed cs' e rest
  | power _ e rest => power cs' e rest
  | operand _ e rest => operand cs' e rest
  | named cs e rest => named cs e rest
  | arguments _ es rest => arguments cs' es rest

theorem ChainLevel.onText_operand {level : ChainLevel} :
    (level.operand cs e rest).onText cs' = level.operand cs' e rest := by
  cases level <;> rfl

/-- Every reader but that of names skips the blanks in front, however many there are. -/
theorem Reads.reblank {g : Reading} (h : Reads g) (hSame : stripStart cs' = stripStart g.given) :
    Reads (g.onText cs') := by
  induction h with
  | chain hFirst hTail ihFirst ihTail =>
    rw [given_operand, onText_operand] at ihFirst
    exact .chain (ihFirst hSame) hTail
  | @tailEnd level cs left hStop =>
    change Reads (.tail level left cs' left (stripStart cs))
    have hFront : stripStart cs' = stripStart cs := hSame
    rw [← hFront] at hStop ⊢
    exact .tailEnd hStop
  | tailStep hFront hOp hRight hTail => exact .tailStep (hSame.trans hFront) hOp hRight hTail
  | minus hFront hInner => exact .minus (hSame.trans hFront) hInner
  | plus hFront hInner => exact .plus (hSame.trans hFront) hInner
  | @unsigned cs rest e hMinus hPlus hInner =>
    have hFront : stripStart cs' = stripStart cs := hSame
    rw [← hFront] at hMinus hPlus hInner
    exact .unsigned hMinus hPlus hInner
  | base hInner hMarks hStop ihInner => exact .base (ihInner hSame) hMarks hStop
  | raised hInner hMarks hExponent ihInner => exact .raised (ihInner hSame) hMarks hExponent
  | parenthesised hFront hInner hClose => exact .parenthesised (hSame.trans hFront) hInner hClose
  | string hFront hText => exact .string (hSame.trans hFront) hText
  | number hFront hNumber hExponent hValue =>
    exact .number (hSame.trans hFront) hNumber hExponent hValue
  | named hFront hAlpha hInner => exact .named (hSame.trans hFront) hAlpha hInner
  | element hSplit hName hRest hLast hOpen => exact .element hSplit hName hRest hLast hOpen
  | arrayElement hSplit hName hLast hOpen hFunction hEnclosed =>
    exact .arrayElement hSplit hName hLast hOpen hFunction hEnclosed
  | call hSplit hName hLast hFunction hArgs hClose hApply =>
    exact .call hSplit hName hLast hFunction hArgs hClose hApply
  | lastArgument hInner hStop ihInner => exact .lastArgument (ihInner hSame) hStop
  | moreArguments hInner hComma hOthers ihInner =>
    exact .moreArguments (ihInner hSame) hComma hOthers

/-! ### What follows an operand -/

/-- An operand in front of a closing character, an operator or a mark is not continued. -/
theorem ends_of_stripStart (h : stripStart cs = c :: after) (hc : isDottedChar c = false ∧ c ≠ '(') :
    Ends cs := by
  obtain ⟨gap, hGap, hSplit⟩ := exists_gap cs
  rw [hSplit, h]
  exact .of_gap hGap (.cons hc)

theorem ends_of_stripStart_ends (h : Ends (stripStart cs)) : Ends cs := by
  obtain ⟨gap, hGap, hSplit⟩ := exists_gap cs
  rw [hSplit]
  exact .of_gap hGap h

theorem ChainLevel.operator_ends {level : ChainLevel} {op : BinaryOp} (h : level.operator? c = some op) :
    (isDottedChar c = false ∧ c ≠ '(') ∧ (isBlank c || c = quote || c = ')') = false := by
  have hMem := operator?_mem h
  cases level with
  | sum =>
    rcases (by simpa [symbols] using hMem : c = '+' ∨ c = '-') with rfl | rfl <;> decide
  | product =>
    rcases (by simpa [symbols] using hMem : c = '*' ∨ c = '/') with rfl | rfl <;> decide

theorem Reads.tail_ends {level : ChainLevel} {left : Expr} (h : Reads (.tail level left cs e rest))
    (hEnds : Ends rest) : Ends cs := by
  cases h with
  | tailEnd => exact ends_of_stripStart_ends hEnds
  | tailStep hFront hOp => exact ends_of_stripStart hFront (operator_ends hOp).1

/-- The marks behind an operand, applied to an expression. -/
def marked (e : Expr) (marks : List Char) : Expr :=
  marks.foldl (fun e c => if c = quote then call .transpose e else e) e

/-- The text does not start with a blank or a mark. -/
def Unmarked (cs : List Char) : Prop :=
  ∀ c ∈ cs.head?, isBlank c = false ∧ c ≠ quote

theorem transposes_split (e : Expr) (cs : List Char) :
    ∃ marks, cs = marks ++ (transposes e cs).2 ∧ (∀ c ∈ marks, isBlank c = true ∨ c = quote) ∧
      Unmarked (transposes e cs).2 ∧ (transposes e cs).1 = marked e marks := by
  fun_induction transposes e cs with
  | case1 => exact ⟨[], rfl, by simp, by simp [Unmarked], rfl⟩
  | case2 e c rest hBlank ih =>
    obtain ⟨marks, hSplit, hMarks, hStop, hMarked⟩ := ih
    refine ⟨c :: marks, by rw [cons_append, ← hSplit], ?_, hStop, ?_⟩
    · rw [forall_mem_cons]
      exact ⟨.inl hBlank, hMarks⟩
    · have hc : c ≠ quote := by
        rintro rfl
        cases hBlank
      rw [hMarked]
      simp [marked, hc]
  | case3 e rest _ ih =>
    obtain ⟨marks, hSplit, hMarks, hStop, hMarked⟩ := ih
    refine ⟨quote :: marks, by rw [cons_append, ← hSplit], ?_, hStop, ?_⟩
    · rw [forall_mem_cons]
      exact ⟨.inr rfl, hMarks⟩
    · rw [hMarked]
      simp [marked]
  | case4 e c rest hBlank hQuote =>
    refine ⟨[], rfl, by simp, ?_, rfl⟩
    rintro d ⟨⟩
    exact ⟨by simpa using hBlank, hQuote⟩

theorem transposes_marks {marks : List Char} (h : ∀ c ∈ marks, isBlank c = true ∨ c = quote)
    (hRest : Unmarked rest) (e : Expr) : transposes e (marks ++ rest) = (marked e marks, rest) := by
  induction marks generalizing e with
  | nil =>
    cases rest with
    | nil => rfl
    | cons c rest =>
      obtain ⟨hBlank, hQuote⟩ := hRest c rfl
      simp [transposes, hBlank, hQuote, marked]
  | cons c marks ih =>
    rw [forall_mem_cons] at h
    by_cases hQuote : c = quote
    · subst hQuote
      rw [cons_append, transposes, if_neg (by decide), if_pos rfl, ih h.2]
      simp [marked]
    · have hBlank := h.1.resolve_right hQuote
      rw [cons_append, transposes, if_pos hBlank, ih h.2]
      simp [marked, hQuote]

theorem ends_of_transposes {mid : List Char} (h : transposes e mid = (base, rest)) (hRest : Ends rest) :
    Ends mid := by
  obtain ⟨marks, hSplit, hMarks, -⟩ := transposes_split e mid
  rw [h] at hSplit
  rw [hSplit]
  cases marks with
  | nil => exact hRest
  | cons c marks =>
    rintro d ⟨⟩
    rcases hMarks c (by simp) with hBlank | rfl
    · exact ends_of_isBlank hBlank
    · decide

/-! ### Behind -/

/-- The same reading of the text without the blanks at its end. -/
def Reading.trimmed : Reading → Reading
  | chain level cs e rest => chain level (stripEnd cs) e (stripEnd rest)
  | tail level left cs e rest => tail level left (stripEnd cs) e (stripEnd rest)
  | signed cs e rest => signed (stripEnd cs) e (stripEnd rest)
  | power cs e rest => power (stripEnd cs) e (stripEnd rest)
  | operand cs e rest => operand (stripEnd cs) e (stripEnd rest)
  | named cs e rest => named (stripEnd cs) e (stripEnd rest)
  | arguments cs es rest => arguments (stripEnd cs) es (stripEnd rest)

theorem ChainLevel.trimmed_operand {level : ChainLevel} :
    (level.operand cs e rest).trimmed = level.operand (stripEnd cs) e (stripEnd rest) := by
  cases level <;> rfl

theorem head?_stripEnd_subset (h : c ∈ (stripEnd cs).head?) : c ∈ cs.head? := by
  obtain ⟨gap, hSplit⟩ := stripEnd_isPrefix cs
  rw [← hSplit, List.head?_append, h]
  rfl

theorem head?_stripEnd_ne (h : cs.head? ≠ some c) : (stripEnd cs).head? ≠ some c :=
  fun hHead => h (head?_stripEnd_subset hHead)

theorem stripEnd_front (h : stripStart cs = c :: after) : stripStart (stripEnd cs) = c :: stripEnd after := by
  rw [stripStart_stripEnd, h, stripEnd_cons (isBlank_of_stripStart h)]

theorem transposes_stripEnd (h : transposes e cs = (base, rest)) :
    transposes e (stripEnd cs) = (base, stripEnd rest) := by
  fun_induction transposes e cs with
  | case1 =>
    cases h
    rfl
  | case2 e c cs hBlank ih =>
    rcases stripEnd_cons_or c cs with hKept | ⟨hNone, hRest⟩
    · rw [hKept, transposes, if_pos hBlank]
      exact ih h
    · rw [hNone, ← hRest]
      exact ih h
  | case3 e cs hBlank ih =>
    rw [stripEnd_cons (by decide), transposes, if_neg (by decide), if_pos rfl]
    exact ih h
  | case4 e c cs hBlank hQuote =>
    cases h
    have hFull : isBlank c = false := by simpa using hBlank
    rw [stripEnd_cons hFull, transposes, if_neg hBlank, if_neg hQuote]

theorem numeral_not_isBlank {exponent : List Char} {d : Char}
    (h : exponentChars (cs.dropWhile isNumberChar) = (exponent, rest))
    (hd : d ∈ cs.takeWhile isNumberChar ++ exponent) : isBlank d = false := by
  obtain rfl : (exponentChars (cs.dropWhile isNumberChar)).1 = exponent := by rw [h]
  have hDotted : ∀ c, isNumberChar c = true → isBlank c = false := fun c hc =>
    not_isBlank_of_isDottedChar (isDottedChar_of_isNumberChar hc)
  rcases mem_append.mp hd with hDigits | hExponent
  · exact hDotted d (mem_takeWhile_imp hDigits)
  · rcases exponentChars_shape (cs.dropWhile isNumberChar) with
      hNone | ⟨mark, sign, digits, hMark, hSign, hDigits, hSome⟩
    · rw [hNone] at hExponent
      cases hExponent
    · rw [hSome] at hExponent
      rcases mem_append.mp hExponent with hFront | hDigit
      · rcases mem_cons.mp hFront with rfl | hSigned
        · rcases hMark with rfl | rfl <;> decide
        · rcases hSign with rfl | rfl | rfl
          · cases hSigned
          · rw [mem_singleton.mp hSigned]
            decide
          · rw [mem_singleton.mp hSigned]
            decide
      · exact hDotted d (by simp [isNumberChar, all_eq_true.mp hDigits d hDigit])

theorem getLast?_enclosed {depth : Nat} {taken : List Char} (h : enclosed depth cs = some (taken, rest)) :
    taken.getLast? = some ')' := by
  induction cs generalizing depth taken with
  | nil => cases h
  | cons c cs ih =>
    simp only [enclosed] at h
    split at h
    · next hClose =>
        cases h
        have hc : c = ')' := by
          simp only [Bool.and_eq_true, decide_eq_true_eq] at hClose
          exact hClose.1
        rw [hc]
        rfl
    · obtain ⟨⟨inner, after⟩, hInner, hPair⟩ := Option.map_eq_some_iff.mp h
      cases hPair
      rw [List.getLast?_cons, ih hInner]
      rfl

theorem not_isBlank_getLast {name : List Char} (h : name.all isDottedChar = true) :
    ∀ c ∈ name.getLast?, isBlank c = false := fun c hc =>
  not_isBlank_of_isDottedChar (all_eq_true.mp h c (mem_of_getLast? hc))

/-- The blanks at the end of a text belong to nothing that is read from it. -/
theorem Reads.trimmed {g : Reading} (h : Reads g) (hEnds : Ends g.left) : Reads g.trimmed := by
  induction h with
  | chain hFirst hTail ihFirst ihTail =>
    rw [left_operand, trimmed_operand] at ihFirst
    exact .chain (ihFirst (hTail.tail_ends hEnds)) (ihTail hEnds)
  | @tailEnd level cs left hStop =>
    change Reads (.tail level left (stripEnd cs) left (stripEnd (stripStart cs)))
    rw [← stripStart_stripEnd]
    refine .tailEnd ?_
    rw [stripStart_stripEnd]
    cases hHead : (stripEnd (stripStart cs)).head? with
    | none => rfl
    | some c =>
      rw [head?_stripEnd_subset hHead] at hStop
      exact hStop
  | tailStep hFront hOp hRight hTail ihRight ihTail =>
    rw [left_operand, trimmed_operand] at ihRight
    exact .tailStep (stripEnd_front hFront) hOp (ihRight (hTail.tail_ends hEnds)) (ihTail hEnds)
  | minus hFront _ ih => exact .minus (stripEnd_front hFront) (ih hEnds)
  | plus hFront _ ih => exact .plus (stripEnd_front hFront) (ih hEnds)
  | @unsigned cs rest e hMinus hPlus _ ih =>
    have hInner : Reads (.power (stripEnd (stripStart cs)) e (stripEnd rest)) := ih hEnds
    rw [← stripStart_stripEnd] at hInner
    refine .unsigned ?_ ?_ hInner
    · rw [stripStart_stripEnd]
      exact head?_stripEnd_ne hMinus
    · rw [stripStart_stripEnd]
      exact head?_stripEnd_ne hPlus
  | base _ hMarks hStop ih =>
    exact .base (ih (ends_of_transposes hMarks hEnds)) (transposes_stripEnd hMarks)
      (head?_stripEnd_ne hStop)
  | raised _ hMarks _ ihInner ihExponent =>
    have hMarks' := transposes_stripEnd hMarks
    rw [stripEnd_cons (by decide)] at hMarks'
    exact .raised (ihInner (ends_of_transposes hMarks (.cons (by decide)))) hMarks'
      (ihExponent hEnds)
  | parenthesised hFront _ hClose ih =>
    exact .parenthesised (stripEnd_front hFront) (ih (ends_of_stripStart hClose (by decide)))
      (stripEnd_front hClose)
  | @string cs text rest hFront hText =>
    refine .string ?_ hText
    have hQuote : ∀ c ∈ (text ++ [quote]).getLast?, isBlank c = false := by
      rw [List.getLast?_concat]
      rintro c ⟨⟩
      decide
    have hAppend := stripEnd_append hQuote rest
    rw [append_assoc, append_assoc] at hAppend
    rw [stripEnd_front hFront]
    exact congrArg _ hAppend
  | @number cs after exponent rest c x hFront hNumber hExponent hValue =>
    have hDetached : Detached (stripEnd rest) := fun d hd =>
      hEnds.detached d (head?_stripEnd_subset hd)
    refine Reads.number_extend hNumber hExponent hValue hDetached ?_
    have hWhole : c :: after = (c :: after).takeWhile isNumberChar ++ exponent ++ rest := by
      have hRest := exponentChars_append ((c :: after).dropWhile isNumberChar)
      rw [hExponent] at hRest
      rw [append_assoc, hRest, takeWhile_append_dropWhile]
    have hFull : ∀ d ∈ ((c :: after).takeWhile isNumberChar ++ exponent).getLast?,
        isBlank d = false := fun d hd =>
      numeral_not_isBlank hExponent (mem_of_getLast? hd)
    rw [stripStart_stripEnd, hFront, ← stripEnd_append hFull, ← hWhole]
  | named hFront hAlpha _ ih =>
    refine .named (stripEnd_front hFront) hAlpha ?_
    rw [← stripEnd_cons (isBlank_of_stripStart hFront)]
    exact ih hEnds
  | element hSplit hName hRest hLast hOpen =>
    refine .element ?_ hName (fun d hd => hRest d (head?_stripEnd_subset hd)) hLast
      (head?_stripEnd_ne hOpen)
    rw [hSplit, stripEnd_append (not_isBlank_getLast hName)]
  | @arrayElement cs name opened indices rest hSplit hName hLast hOpen hFunction hEnclosed =>
    obtain ⟨hOpened, hNonempty⟩ := enclosed_append hEnclosed
    have hEnd : ∀ c ∈ indices.getLast?, isBlank c = false := by
      rw [getLast?_enclosed hEnclosed]
      rintro c ⟨⟩
      decide
    refine .arrayElement ?_ hName hLast ?_ hFunction (enclosed_extend hEnclosed (stripEnd rest))
    · rw [hSplit, stripEnd_append (not_isBlank_getLast hName), hOpened, stripEnd_append hEnd]
    · rw [hOpened, List.head?_append_of_ne_nil _ hNonempty] at hOpen
      rw [List.head?_append_of_ne_nil _ hNonempty, hOpen]
  | @call cs name inner mid rest f args e hSplit hName hLast hFunction _ hClose hApply ih =>
    refine .call ?_ hName hLast hFunction (ih (ends_of_stripStart hClose (by decide)))
      (stripEnd_front hClose) hApply
    rw [hSplit, stripEnd_append (not_isBlank_getLast hName), stripEnd_cons (by decide)]
  | @lastArgument cs mid e _ hStop ih =>
    change Reads (.arguments (stripEnd cs) [e] (stripEnd (stripStart mid)))
    rw [← stripStart_stripEnd]
    refine .lastArgument (ih (ends_of_stripStart_ends hEnds)) ?_
    rw [stripStart_stripEnd]
    exact head?_stripEnd_ne hStop
  | moreArguments _ hComma _ ihInner ihOthers =>
    exact .moreArguments (ihInner (ends_of_stripStart hComma (by decide))) (stripEnd_front hComma)
      (ihOthers hEnds)

theorem ends_of_stripStart_nil (h : stripStart cs = []) : Ends cs := by
  refine ends_of_stripStart_ends ?_
  rw [h]
  exact fun _ hc => nomatch hc

/-- A text reads alike without the blanks around it. -/
theorem parse_trim {text : String} (h : parse text = .ok e) : parse (trim text) = .ok e := by
  obtain ⟨rest, hReads, hRest⟩ := parse_eq_ok_iff.mp h
  have hTrimmed : Reads (.chain .sum (stripEnd text.toList) e (stripEnd rest)) :=
    hReads.trimmed (ends_of_stripStart_nil hRest)
  refine parse_eq_ok_iff.mpr ⟨stripEnd rest, ?_, ?_⟩
  · rw [toList_trim]
    exact hTrimmed.reblank (stripStart_stripStart _)
  · rw [stripStart_stripEnd, hRest]
    rfl

end Mission.Expr
