import Mission.Proofs.Expr.Blanks
import Mission.Proofs.Real.Negation

/-! Written forms of expressions, and reading them back. A written form puts parentheses around an
operand exactly where it binds more loosely than its place demands, leaves the amount of blanks open,
and writes a number as any literal with its value. Every expression that some text reads as has a written
form, and every written form of it reads as that expression.

The argument goes level by level. `ReadsBack` says for each level what the readers make of a text in
front of a continuation that does not extend it; a text of one level is then also one of each looser
level, and a parenthesised text is one of every level. -/
namespace Mission.Expr

open Text ChainLevel List Name

variable {e left right : Expr} {f : MathFunction} {cs rest forbidden k gap text text₁ text₂ before behind :
  List Char}
  {c : Char} {x : Float} {name : String} {op : BinaryOp}

/-- How tightly a written form binds, from the loosest to the tightest. -/
inductive Precedence
  | sum
  | product
  | sign
  | power
  /-- A transpose mark behind an operand. -/
  | mark
  | primary
deriving DecidableEq, Repr

namespace Precedence

def rank : Precedence → Nat
  | sum => 0
  | product => 1
  | sign => 2
  | power => 3
  | mark => 4
  | primary => 5

/-- The first level is at least as loose as the second. -/
instance : LE Precedence := ⟨fun p q => p.rank ≤ q.rank⟩

instance (p q : Precedence) : Decidable (p ≤ q) := inferInstanceAs (Decidable (p.rank ≤ q.rank))

/-- The level of an operator, and the levels that it asks of its operands. Sums and products group to
the left; the exponent of a power may carry signs, and its base may not. -/
def ofOperator : BinaryOp → Precedence × Precedence × Precedence
  | .add | .subtract => (sum, sum, product)
  | .multiply | .divide => (product, product, sign)
  | .power => (power, mark, sign)

end Precedence

/-- A text that the number rule reads as a whole, and its value. -/
def Numeral (text : List Char) (x : Float) : Prop :=
  (∃ c after, text = c :: after ∧ isNumberChar c = true) ∧
    numberLiteral (String.ofList text) text = .ok (number x, [])

/-- An operand in a place that asks for the level `least`: as it is if it binds tightly enough, and in
parentheses otherwise. -/
def Wrapped (least own : Precedence) (bare text : List Char) : Prop :=
  (least ≤ own ∧ text = bare) ∨
    (¬ least ≤ own ∧ ∃ before behind, Gap before ∧ Gap behind ∧
      text = '(' :: (before ++ bare ++ behind) ++ [')'])

/-- The written forms of an expression, each with the level at which it binds. -/
inductive Written : Precedence → Expr → List Char → Prop
  | number {text : List Char} {x : Float} (hText : Numeral text x) :
      Written .primary (number x) text
  | negative {gap text : List Char} {x : Float} (hGap : Gap gap) (hText : Numeral text x) :
      Written .sign (number (-x)) ('-' :: (gap ++ text))
  | string (text : String) : Written .primary (string text) (Name.quote :: text.toList ++ [Name.quote])
  | element (name : String) : Written .primary (element name) name.toList
  | negate {own : Precedence} {e : Expr} {bare gap text : List Char} (hGap : Gap gap)
      (hOperand : Written own e bare) (hWrapped : Wrapped .sign own bare text) :
      Written .sign (negate e) ('-' :: (gap ++ text))
  | binary {op : BinaryOp} {level least₁ least₂ own₁ own₂ : Precedence} {left right : Expr}
      {bare₁ bare₂ text₁ text₂ before behind : List Char}
      (hLevel : Precedence.ofOperator op = (level, least₁, least₂))
      (hLeft : Written own₁ left bare₁) (hRight : Written own₂ right bare₂)
      (hWrapped₁ : Wrapped least₁ own₁ bare₁ text₁) (hWrapped₂ : Wrapped least₂ own₂ bare₂ text₂)
      (hBefore : Gap before) (hBehind : Gap behind) :
      Written level (binary op left right)
        (text₁ ++ before ++ op.symbol.toList ++ behind ++ text₂)
  | mark {own : Precedence} {e : Expr} {bare text gap : List Char} (hGap : Gap gap)
      (hOperand : Written own e bare) (hWrapped : Wrapped .mark own bare text) :
      Written .mark (call .transpose e) (text ++ gap ++ [Name.quote])
  | call {f : UnaryFunction} {name : String} {own : Precedence} {e : Expr}
      {bare before behind : List Char} (hName : MathFunction.ofName? name = some (.unary f))
      (hArgument : Written own e bare) (hBefore : Gap before) (hBehind : Gap behind) :
      Written .primary (call f e) (name.toList ++ '(' :: (before ++ bare ++ behind) ++ [')'])
  | atan2 {own₁ own₂ : Precedence} {y x : Expr} {bare₁ bare₂ : List Char}
      {before₁ behind₁ before₂ behind₂ : List Char} (hFirst : Written own₁ y bare₁)
      (hSecond : Written own₂ x bare₂) (hBefore₁ : Gap before₁) (hBehind₁ : Gap behind₁)
      (hBefore₂ : Gap before₂) (hBehind₂ : Gap behind₂) :
      Written .primary (atan2 y x)
        ("atan2".toList ++
          '(' :: (before₁ ++ bare₁ ++ behind₁ ++ ',' :: (before₂ ++ bare₂ ++ behind₂)) ++ [')'])

/-- A whole text that is a written form, with blanks around it. -/
def Prints (e : Expr) (text : String) : Prop :=
  ∃ own bare before behind, Written own e bare ∧ Gap before ∧ Gap behind ∧
    text.toList = before ++ bare ++ behind

/-! ### The expressions that some text reads as -/

/-- A leaf as the readers leave it: a dotted name, or a name that is no function with its indices. -/
def IsLeaf (leaf : List Char) : Prop :=
  ∃ c name indices, leaf = c :: name ++ indices ∧ c.isAlpha = true ∧
    (c :: name).all isDottedChar = true ∧ (c :: name).getLast? ≠ some '.' ∧
    (indices = [] ∨ (indices.head? = some '(' ∧
      MathFunction.ofName? (String.ofList (c :: name)) = none ∧
      enclosed 0 indices = some (indices, [])))

/-- No sign is kept in front of a number, no quote in a string, and the leaves are leaves. -/
def Readable : Expr → Prop
  | number x => ∃ text, Numeral text x ∨ Numeral text (-x)
  | string text => Name.quote ∉ text.toList
  | element name => IsLeaf name.toList
  | negate e => (∀ x, e ≠ number x) ∧ Readable e
  | binary _ left right => Readable left ∧ Readable right
  | call _ e => Readable e
  | atan2 y x => Readable y ∧ Readable x

theorem readable_negated (h : Readable e) : Readable (negated e) := by
  cases e with
  | number x =>
    obtain ⟨text, hText⟩ := h
    refine ⟨text, ?_⟩
    rw [Real.neg_neg]
    exact hText.symm
  | _ => exact ⟨by simp, h⟩

theorem readable_transposes (cs : List Char) (h : Readable e) : Readable (transposes e cs).1 := by
  fun_induction transposes e cs with
  | case1 => exact h
  | case2 e c rest _ ih => exact ih h
  | case3 e rest _ ih => exact ih h
  | case4 => exact h

theorem readable_application {args : List Expr} (hArgs : ∀ arg ∈ args, Readable arg)
    (hApply : application f args = .ok e) : Readable e := by
  unfold application at hApply
  split at hApply
  · next argument =>
      cases hApply
      exact hArgs argument (by simp)
  · next y x =>
      cases hApply
      exact ⟨hArgs y (by simp), hArgs x (by simp)⟩
  · cases hApply

/-- What was read has a property, provided that what was read before has it. A name is read only
where a letter stands. -/
def Reading.Yields (P : Expr → Prop) : Reading → Prop
  | tail _ left _ e _ => P left → P e
  | named cs e _ => cs.head?.any Char.isAlpha = true → P e
  | arguments _ es _ => ∀ e ∈ es, P e
  | chain _ _ e _ | signed _ e _ | power _ e _ | operand _ e _ => P e

theorem ChainLevel.yields_operand {P : Expr → Prop} {level : ChainLevel} :
    (level.operand cs e rest).Yields P ↔ P e := by
  cases level <;> rfl

/-- A literal in front of a text is one on its own. -/
theorem Numeral.of_reads {exponent : List Char} (hNumber : isNumberChar c = true)
    (hExponent : exponentChars ((c :: cs).dropWhile isNumberChar) = (exponent, rest))
    (hValue : Real.ofChars? ((c :: cs).takeWhile isNumberChar ++ exponent) = some x) :
    Numeral ((c :: cs).takeWhile isNumberChar ++ exponent) x := by
  have hAlone := numeral_extend hNumber hExponent hValue (k := []) (by simp [Detached])
  rw [append_nil] at hAlone
  refine ⟨⟨c, cs.takeWhile isNumberChar ++ exponent, ?_, hNumber⟩, ?_⟩
  · rw [takeWhile_cons_of_pos hNumber, cons_append]
  · refine numberLiteral_eq hAlone.2 ?_
    rw [hAlone.1, hValue]

theorem Reads.yields_readable {g : Reading} (h : Reads g) : g.Yields Readable := by
  induction h with
  | chain _ _ ihFirst ihTail => exact ihTail (yields_operand.mp ihFirst)
  | tailEnd => exact id
  | tailStep _ _ _ _ ihRight ihTail =>
    exact fun hLeft => ihTail ⟨hLeft, yields_operand.mp ihRight⟩
  | minus _ _ ihInner => exact readable_negated ihInner
  | plus _ _ ihInner => exact ihInner
  | unsigned _ _ _ ihInner => exact ihInner
  | @base _ mid _ _ _ _ hMarks _ ihInner =>
    have hBase := readable_transposes mid ihInner
    rw [hMarks] at hBase
    exact hBase
  | @raised _ mid _ _ _ _ _ _ hMarks _ ihInner ihExponent =>
    have hBase := readable_transposes mid ihInner
    rw [hMarks] at hBase
    exact ⟨hBase, ihExponent⟩
  | parenthesised _ _ _ ihInner => exact ihInner
  | string _ hText =>
    change quote ∉ (String.ofList _).toList
    rwa [String.toList_ofList]
  | number _ hNumber hExponent hValue =>
    exact ⟨_, .inl (Numeral.of_reads hNumber hExponent hValue)⟩
  | named _ hAlpha _ ihInner => exact ihInner hAlpha
  | element hSplit hName hRest hLast hOpen =>
    intro hAlpha
    obtain ⟨c, name, rfl, hLetter⟩ := exists_letter hSplit
      (hRest.head_not fun _ => isDottedChar_of_isAlpha) hAlpha
    refine ⟨c, name, [], ?_, hLetter, hName, hLast, .inl rfl⟩
    rw [String.toList_ofList, append_nil]
  | @arrayElement _ _ _ indices _ hSplit hName hLast hOpen hFunction hEnclosed =>
    intro hAlpha
    obtain ⟨c, name, rfl, hLetter⟩ := exists_letter hSplit (by simp [hOpen]) hAlpha
    refine ⟨c, name, indices, ?_, hLetter, hName, hLast, .inr ⟨?_, hFunction, ?_⟩⟩
    · rw [String.toList_ofList]
    · obtain ⟨hTaken, hNonempty⟩ := enclosed_append hEnclosed
      rwa [hTaken, List.head?_append, List.head?_eq_some_head hNonempty, Option.some_or,
        ← List.head?_eq_some_head hNonempty] at hOpen
    · have hAlone := enclosed_extend hEnclosed []
      rwa [append_nil] at hAlone
  | call _ _ _ _ _ _ hApply ihArgs => exact fun _ => readable_application ihArgs hApply
  | lastArgument _ _ ihInner =>
    intro e he
    rwa [mem_singleton.mp he]
  | moreArguments _ _ _ ihInner ihOthers =>
    intro e he
    rcases mem_cons.mp he with rfl | he
    · exact ihInner
    · exact ihOthers e he

/-! ### Reading a written form back -/

/-- The first character behind the blanks is none of the given ones. -/
def Avoids (forbidden : List Char) (k : List Char) : Prop :=
  ∀ c ∈ (stripStart k).head?, c ∉ forbidden

theorem Avoids.head_ne (h : Avoids forbidden k) (hc : c ∈ forbidden) : (stripStart k).head? ≠ some c :=
  fun hHead => h c hHead hc

theorem Avoids.mono {fewer : List Char} (h : Avoids forbidden k) (hFewer : ∀ c ∈ fewer, c ∈ forbidden) :
    Avoids fewer k :=
  fun c hc hMem => h c hc (hFewer c hMem)

/-- What the readers make of the text of an expression in front of a continuation `k`. At the levels of
sums and products the operators behind the expression belong to the same chain, so the expression is what
the chain goes on from. Marks may follow at the level of marks, and only there. -/
def ReadsBack : Precedence → Expr → List Char → Prop
  | .primary, e, text => ∀ k, Ends k → Reads (.operand (text ++ k) e k)
  | .mark, e, text => ∀ k, Ends k →
      ∃ inner mid, Reads (.operand (text ++ k) inner mid) ∧ transposes inner mid = transposes e k
  | .power, e, text => ∀ k, Ends k → Avoids [Name.quote, '^'] k →
      Reads (.power (text ++ k) e (stripStart k))
  | .sign, e, text => ∀ k, Ends k → Avoids [Name.quote, '^'] k →
      Reads (.signed (text ++ k) e (stripStart k))
  | .product, e, text => ∀ k, Ends k → Avoids [Name.quote, '^'] k → ∀ e' rest,
      Reads (.tail .product e k e' rest) → Reads (.chain .product (text ++ k) e' rest)
  | .sum, e, text => ∀ k, Ends k → Avoids [Name.quote, '^', '*', '/'] k → ∀ e' rest,
      Reads (.tail .sum e k e' rest) → Reads (.chain .sum (text ++ k) e' rest)

theorem Reads.tail_stripStart {level : ChainLevel} (h : Reads (.tail level left cs e rest)) :
    Reads (.tail level left (stripStart cs) e rest) :=
  h.reblank (stripStart_stripStart cs)

/-- An operand starts with no sign. -/
theorem Reads.operand_unsigned (h : Reads (.operand cs e rest)) :
    (stripStart cs).head? ≠ some '-' ∧ (stripStart cs).head? ≠ some '+' := by
  cases h with
  | parenthesised hFront => simp [hFront]
  | string hFront => simp [hFront, quote]
  | number hFront hNumber =>
    rw [hFront]
    constructor
    · rintro ⟨⟩
      cases hNumber
    · rintro ⟨⟩
      cases hNumber
  | named hFront hAlpha =>
    rw [hFront]
    constructor
    · rintro ⟨⟩
      cases hAlpha
    · rintro ⟨⟩
      cases hAlpha

theorem Reads.power_unsigned (h : Reads (.power cs e rest)) :
    (stripStart cs).head? ≠ some '-' ∧ (stripStart cs).head? ≠ some '+' := by
  cases h with
  | base hInner | raised hInner => exact hInner.operand_unsigned

/-- Without a mark behind the blanks nothing is transposed. -/
theorem transposes_of_avoids (h : (stripStart k).head? ≠ some quote) :
    transposes e k = (e, stripStart k) := by
  induction k with
  | nil => rfl
  | cons c k ih =>
    cases hBlank : isBlank c with
    | true =>
      rw [stripStart_cons_of_blank hBlank] at h ⊢
      simp only [transposes, hBlank, if_true, ih h]
    | false =>
      rw [stripStart_cons hBlank] at h ⊢
      have hc : ¬ c = quote := by simpa using h
      simp only [transposes, hBlank, hc, if_false, Bool.false_eq_true]

theorem transposes_gap (hGap : Gap gap) (k : List Char) : transposes e (gap ++ k) = transposes e k := by
  induction gap with
  | nil => rfl
  | cons c gap ih =>
    obtain ⟨hBlank, hGap⟩ := gap_cons.mp hGap
    simp only [cons_append, transposes, hBlank, if_true, ih hGap]

theorem Avoids.of_gap (hGap : Gap gap) (hk : Avoids forbidden k) : Avoids forbidden (gap ++ k) := by
  intro c hc
  rw [stripStart_gap hGap] at hc
  exact hk c hc

theorem Avoids.cons (hBlank : isBlank c = false) (hc : c ∉ forbidden) : Avoids forbidden (c :: k) := by
  intro d hd
  rw [stripStart_cons hBlank] at hd
  cases hd
  exact hc

/-- A chain ends where none of its operators follows. -/
theorem Reads.tail_end {level : ChainLevel} (h : Avoids level.symbols k) :
    Reads (.tail level e k e (stripStart k)) := by
  refine .tailEnd ?_
  cases hFront : (stripStart k).head? with
  | none => rfl
  | some c => exact operator?_of_not_mem (h c hFront)

namespace Precedence

/-- The next looser level. -/
def looser : Precedence → Precedence
  | primary => mark
  | mark => power
  | power => sign
  | sign => product
  | product | sum => sum

theorem eq_of_rank_eq {p q : Precedence} (h : p.rank = q.rank) : p = q := by
  revert h
  cases p <;> cases q <;> decide

theorem rank_looser (p : Precedence) : p.looser.rank = p.rank - 1 := by
  cases p <;> rfl

end Precedence

section Loosen

variable {e : Expr} {text : List Char}

theorem ReadsBack.mark_of_primary (h : ReadsBack .primary e text) : ReadsBack .mark e text :=
  fun k hEnds => ⟨e, k, h k hEnds, rfl⟩

theorem ReadsBack.power_of_mark (h : ReadsBack .mark e text) : ReadsBack .power e text := by
  intro k hEnds hAvoids
  obtain ⟨inner, mid, hInner, hMarks⟩ := h k hEnds
  rw [transposes_of_avoids (hAvoids.head_ne (by simp))] at hMarks
  exact .base hInner hMarks (hAvoids.head_ne (by simp))

theorem ReadsBack.sign_of_power (h : ReadsBack .power e text) : ReadsBack .sign e text := by
  intro k hEnds hAvoids
  have hPower := h k hEnds hAvoids
  obtain ⟨hMinus, hPlus⟩ := hPower.power_unsigned
  exact .unsigned hMinus hPlus (hPower.reblank (stripStart_stripStart _))

theorem ReadsBack.product_of_sign (h : ReadsBack .sign e text) : ReadsBack .product e text :=
  fun k hEnds hAvoids _ _ hTail => .chain (h k hEnds hAvoids) hTail.tail_stripStart

theorem ReadsBack.sum_of_product (h : ReadsBack .product e text) : ReadsBack .sum e text := by
  intro k hEnds hAvoids e' rest hTail
  have hProduct := h k hEnds (hAvoids.mono (by simp)) e (stripStart k)
    (.tail_end (hAvoids.mono (by simp [symbols])))
  exact .chain hProduct hTail.tail_stripStart

theorem ReadsBack.looser {own : Precedence} (h : ReadsBack own e text) :
    ReadsBack own.looser e text := by
  cases own with
  | sum => exact h
  | product => exact h.sum_of_product
  | sign => exact h.product_of_sign
  | power => exact h.sign_of_power
  | mark => exact h.power_of_mark
  | primary => exact h.mark_of_primary

/-- What binds tightly can stand where looser operands are read. -/
theorem ReadsBack.loosen {least own : Precedence} (h : ReadsBack own e text) (hLe : least ≤ own) :
    ReadsBack least e text := by
  have hRank : least.rank ≤ own.rank := hLe
  induction hSteps : own.rank - least.rank generalizing own with
  | zero =>
    obtain rfl : own = least := Precedence.eq_of_rank_eq (by omega)
    exact h
  | succ n ih =>
    have hLooser := own.rank_looser
    have hStill : least.rank ≤ own.looser.rank := by omega
    exact ih h.looser hStill hStill (by omega)

/-- An expression that is closed by `c`, with blanks around it. -/
theorem ReadsBack.enclosed {own : Precedence} {before behind : List Char} {c : Char}
    (h : ReadsBack own e text) (hBefore : Gap before) (hBehind : Gap behind)
    (hEnds : isDottedChar c = false ∧ c ≠ '(') (hBlank : isBlank c = false)
    (hc : c ∉ [quote, '^', '*', '/', '+', '-']) (k : List Char) :
    Reads (.chain .sum (before ++ text ++ behind ++ c :: k) e (c :: k)) := by
  have hSum : ReadsBack .sum e text := h.loosen (Nat.zero_le own.rank)
  have hAvoids : Avoids [quote, '^', '*', '/', '+', '-'] (behind ++ c :: k) :=
    .of_gap hBehind (.cons hBlank hc)
  have hTail : Reads (.tail .sum e (behind ++ c :: k) e (stripStart (behind ++ c :: k))) :=
    .tail_end (hAvoids.mono (by simp [symbols]))
  have hRead := hSum (behind ++ c :: k) (.of_gap hBehind (.cons hEnds)) (hAvoids.mono (by simp)) _ _
    hTail
  rw [stripStart_gap hBehind, stripStart_cons hBlank] at hRead
  rw [append_assoc, append_assoc]
  exact hRead.reblank (stripStart_gap hBefore _)

/-- Parentheses make a primary of every form. -/
theorem ReadsBack.parenthesised {own : Precedence} {before behind : List Char}
    (h : ReadsBack own e text) (hBefore : Gap before) (hBehind : Gap behind) :
    ReadsBack .primary e ('(' :: (before ++ text ++ behind) ++ [')']) := by
  intro k _
  have hInner := h.enclosed hBefore hBehind (c := ')') (by decide) (by decide) (by decide) k
  have hText : '(' :: (before ++ text ++ behind) ++ [')'] ++ k =
      '(' :: (before ++ text ++ behind ++ ')' :: k) := by
    simp
  rw [hText]
  exact .parenthesised (stripStart_cons (by decide) _) hInner (stripStart_cons (by decide) k)

theorem ReadsBack.wrapped {least own : Precedence} {bare : List Char} (h : ReadsBack own e bare)
    (hWrapped : Wrapped least own bare text) : ReadsBack least e text := by
  rcases hWrapped with ⟨hLe, rfl⟩ | ⟨-, before, behind, hBefore, hBehind, rfl⟩
  · exact h.loosen hLe
  · have hPrimary := h.parenthesised hBefore hBehind
    refine hPrimary.loosen ?_
    cases least <;> decide

end Loosen

/-! ### One lemma for each form -/

theorem readsBack_number (hText : Numeral text x) : ReadsBack .primary (number x) text := by
  intro k hEnds
  obtain ⟨⟨c, after, rfl, hNumber⟩, hLiteral⟩ := hText
  obtain ⟨exponent, y, hExponent, hValue, hResult⟩ := numberLiteral_eq_ok hLiteral
  cases hResult
  have hSplit : (c :: after).takeWhile isNumberChar ++ exponent = c :: after := by
    have hAppend := exponentChars_append ((c :: after).dropWhile isNumberChar)
    rw [hExponent] at hAppend
    have hDrop : exponent = (c :: after).dropWhile isNumberChar := by simpa using hAppend
    rw [hDrop, takeWhile_append_dropWhile]
  have hBlank := not_isBlank_of_isDottedChar (isDottedChar_of_isNumberChar hNumber)
  refine .number_extend hNumber hExponent hValue hEnds.detached ?_
  rw [hSplit, cons_append, stripStart_cons hBlank]

theorem readsBack_string {text : String} (hText : quote ∉ text.toList) :
    ReadsBack .primary (string text) (quote :: text.toList ++ [quote]) := by
  intro k _
  have hShape : quote :: text.toList ++ [quote] ++ k =
      quote :: (text.toList ++ quote :: k) := by
    simp
  rw [hShape]
  have hRead := Reads.string (stripStart_cons (by decide) (text.toList ++ quote :: k)) hText
  rwa [String.ofList_toList] at hRead

theorem readsBack_element (hName : IsLeaf name.toList) : ReadsBack .primary (element name) name.toList := by
  intro k hEnds
  obtain ⟨c, first, indices, hLeaf, hAlpha, hAll, hLast, hIndices⟩ := hName
  have hBlank := not_isBlank_of_isDottedChar (isDottedChar_of_isAlpha hAlpha)
  have hChars : String.ofList (c :: first ++ indices) = name := by
    rw [← hLeaf, String.ofList_toList]
  rw [hLeaf, append_assoc]
  refine .named (stripStart_cons hBlank (first ++ (indices ++ k))) hAlpha ?_
  rcases hIndices with rfl | ⟨hOpen, hFunction, hEnclosed⟩
  · rw [append_nil] at hChars
    rw [← hChars]
    exact .element rfl hAll hEnds.detached hLast hEnds.not_open
  · rw [← hChars]
    refine .arrayElement rfl hAll hLast ?_ hFunction (enclosed_extend hEnclosed k)
    rw [List.head?_append, hOpen, Option.some_or]

theorem readsBack_negate (hGap : Gap gap) (h : ReadsBack .sign e text) :
    ReadsBack .sign (negated e) ('-' :: (gap ++ text)) := by
  intro k hEnds hAvoids
  have hInner := (h k hEnds hAvoids).reblank (stripStart_gap hGap _)
  have hText : '-' :: (gap ++ text) ++ k = '-' :: (gap ++ (text ++ k)) := by
    simp
  rw [hText]
  exact .minus (stripStart_cons (by decide) _) hInner

theorem readsBack_mark (hGap : Gap gap) (h : ReadsBack .mark e text) :
    ReadsBack .mark (call .transpose e) (text ++ gap ++ [quote]) := by
  intro k _
  obtain ⟨inner, mid, hInner, hMarks⟩ := h (gap ++ quote :: k) (.of_gap hGap (.cons (by decide)))
  refine ⟨inner, mid, ?_, ?_⟩
  · simpa using hInner
  · rw [hMarks, transposes_gap hGap]
    rfl

/-- The base of a power is an operand with its marks, and the exponent may carry signs. -/
theorem readsBack_power (hBefore : Gap before) (hBehind : Gap behind) (h₁ : ReadsBack .mark left text₁)
    (h₂ : ReadsBack .sign right text₂) :
    ReadsBack .power (binary .power left right) (text₁ ++ before ++ ['^'] ++ behind ++ text₂) := by
  intro k hEnds hAvoids
  obtain ⟨inner, mid, hInner, hMarks⟩ := h₁ (before ++ '^' :: (behind ++ (text₂ ++ k)))
    (.of_gap hBefore (.cons (by decide)))
  rw [transposes_of_avoids (Avoids.head_ne (.of_gap hBefore (.cons (by decide) (by decide)))
    (mem_singleton_self quote)), stripStart_gap hBefore, stripStart_cons (by decide)] at hMarks
  have hExponent := (h₂ k hEnds hAvoids).reblank (stripStart_gap hBehind _)
  have hText : text₁ ++ before ++ ['^'] ++ behind ++ text₂ ++ k =
      text₁ ++ (before ++ '^' :: (behind ++ (text₂ ++ k))) := by
    simp
  rw [hText]
  exact .raised hInner hMarks hExponent

namespace ChainLevel

def precedence : ChainLevel → Precedence
  | sum => .sum
  | product => .product

def operandPrecedence : ChainLevel → Precedence
  | sum => .product
  | product => .sign

/-- What would continue the last operand of a chain. -/
def stops : ChainLevel → List Char
  | sum => [Name.quote, '^', '*', '/']
  | product => [Name.quote, '^']

theorem readsBack_iff {level : ChainLevel} {e : Expr} {text : List Char} :
    ReadsBack level.precedence e text ↔ ∀ k, Ends k → Avoids level.stops k → ∀ e' rest,
      Reads (.tail level e k e' rest) → Reads (.chain level (text ++ k) e' rest) := by
  cases level <;> rfl

theorem reads_operand {level : ChainLevel} {e : Expr} {text k : List Char}
    (h : ReadsBack level.operandPrecedence e text) (hEnds : Ends k) (hAvoids : Avoids level.stops k) :
    Reads (level.operand (text ++ k) e (stripStart k)) := by
  cases level with
  | sum =>
    exact h k hEnds (hAvoids.mono (by simp [stops])) e _
      (.tail_end (hAvoids.mono (by simp [stops, symbols])))
  | product => exact h k hEnds hAvoids

/-- An operator ends the operand in front of it and continues no operand. -/
theorem symbol_ends {level : ChainLevel} {c : Char} (h : c ∈ level.symbols) :
    (isDottedChar c = false ∧ c ≠ '(') ∧ isBlank c = false ∧ c ∉ level.stops := by
  cases level with
  | sum => rcases (by simpa [symbols] using h : c = '+' ∨ c = '-') with rfl | rfl <;> decide
  | product => rcases (by simpa [symbols] using h : c = '*' ∨ c = '/') with rfl | rfl <;> decide

end ChainLevel

/-- A chain goes on behind its first operands as it would behind a single one. -/
theorem readsBack_chain (level : ChainLevel) (hOp : level.operator? c = some op) (hBefore : Gap before)
    (hBehind : Gap behind) (h₁ : ReadsBack level.precedence left text₁)
    (h₂ : ReadsBack level.operandPrecedence right text₂) :
    ReadsBack level.precedence (binary op left right)
      (text₁ ++ before ++ [c] ++ behind ++ text₂) := by
  rw [readsBack_iff] at h₁ ⊢
  intro k hEnds hAvoids e' rest hTail
  obtain ⟨hPlain, hBlank, hGoesOn⟩ := symbol_ends (operator?_mem hOp)
  have hRight : Reads (level.operand (behind ++ (text₂ ++ k)) right (stripStart k)) := by
    have hOperand := reads_operand h₂ hEnds hAvoids
    rw [← onText_operand]
    exact hOperand.reblank (by rw [given_operand, stripStart_gap hBehind])
  have hFront : stripStart (before ++ c :: (behind ++ (text₂ ++ k))) =
      c :: (behind ++ (text₂ ++ k)) := by
    rw [stripStart_gap hBefore, stripStart_cons hBlank]
  have hText : text₁ ++ before ++ [c] ++ behind ++ text₂ ++ k =
      text₁ ++ (before ++ c :: (behind ++ (text₂ ++ k))) := by
    simp
  rw [hText]
  exact h₁ _ (.of_gap hBefore (.cons hPlain)) (.of_gap hBefore (.cons hBlank hGoesOn)) e' rest
    (.tailStep hFront hOp hRight hTail.tail_stripStart)

theorem readsBack_binary {level least₁ least₂ : Precedence}
    (hLevel : Precedence.ofOperator op = (level, least₁, least₂)) (hBefore : Gap before)
    (hBehind : Gap behind) (h₁ : ReadsBack least₁ left text₁) (h₂ : ReadsBack least₂ right text₂) :
    ReadsBack level (binary op left right)
      (text₁ ++ before ++ op.symbol.toList ++ behind ++ text₂) := by
  cases op with
  | add =>
    cases hLevel
    exact readsBack_chain .sum (c := '+') rfl hBefore hBehind h₁ h₂
  | subtract =>
    cases hLevel
    exact readsBack_chain .sum (c := '-') rfl hBefore hBehind h₁ h₂
  | multiply =>
    cases hLevel
    exact readsBack_chain .product (c := '*') rfl hBefore hBehind h₁ h₂
  | divide =>
    cases hLevel
    exact readsBack_chain .product (c := '/') rfl hBefore hBehind h₁ h₂
  | power =>
    cases hLevel
    exact readsBack_power hBefore hBehind h₁ h₂

/-- A call is read if its arguments are. -/
theorem readsBack_application (args : List Expr) {inner : List Char}
    (hName : MathFunction.ofName? name = some f) (hApply : application f args = .ok e)
    (hArgs : ∀ k, Reads (.arguments (inner ++ ')' :: k) args (')' :: k))) :
    ReadsBack .primary e (name.toList ++ '(' :: inner ++ [')']) := by
  intro k _
  obtain ⟨c, first, hChars, hAlpha, hNameChars⟩ := functionName_chars hName
  have hDotted := all_isDottedChar_of_isNameChar hNameChars
  have hLast := getLast?_ne_point hNameChars
  have hBlank := not_isBlank_of_isDottedChar (isDottedChar_of_isAlpha hAlpha)
  have hText : name.toList ++ '(' :: inner ++ [')'] ++ k =
      (c :: first) ++ '(' :: (inner ++ ')' :: k) := by
    simp [hChars]
  have hFunction : MathFunction.ofName? (String.ofList (c :: first)) = some f := by
    rw [← hChars, String.ofList_toList, hName]
  rw [hText]
  refine .named (stripStart_cons hBlank _) hAlpha ?_
  exact .call rfl hDotted hLast hFunction (hArgs k) (stripStart_cons (by decide) k) hApply

theorem readsBack_call {f : UnaryFunction} {own : Precedence} {bare : List Char}
    (hName : MathFunction.ofName? name = some (.unary f)) (h : ReadsBack own e bare) (hBefore : Gap before)
    (hBehind : Gap behind) :
    ReadsBack .primary (call f e) (name.toList ++ '(' :: (before ++ bare ++ behind) ++ [')']) := by
  refine readsBack_application [e] hName rfl fun k => ?_
  have hInner := h.enclosed hBefore hBehind (c := ')') (by decide) (by decide) (by decide) k
  have hEnd : stripStart (')' :: k) = ')' :: k := stripStart_cons (by decide) k
  have hArgs := Reads.lastArgument hInner (by simp [hEnd])
  rwa [hEnd] at hArgs

theorem readsBack_atan2 {own₁ own₂ : Precedence} {y x : Expr} {bare₁ bare₂ : List Char}
    {before₁ behind₁ before₂ behind₂ : List Char} (h₁ : ReadsBack own₁ y bare₁)
    (h₂ : ReadsBack own₂ x bare₂) (hBefore₁ : Gap before₁) (hBehind₁ : Gap behind₁)
    (hBefore₂ : Gap before₂) (hBehind₂ : Gap behind₂) :
    ReadsBack .primary (atan2 y x) ("atan2".toList ++
      '(' :: (before₁ ++ bare₁ ++ behind₁ ++ ',' :: (before₂ ++ bare₂ ++ behind₂)) ++ [')']) := by
  refine readsBack_application (f := .atan2) [y, x] rfl rfl fun k => ?_
  have hSecond := h₂.enclosed hBefore₂ hBehind₂ (c := ')') (by decide) (by decide) (by decide) k
  have hEnd : stripStart (')' :: k) = ')' :: k := stripStart_cons (by decide) k
  have hLast := Reads.lastArgument hSecond (by simp [hEnd])
  rw [hEnd] at hLast
  have hFirst := h₁.enclosed hBefore₁ hBehind₁ (c := ',') (by decide) (by decide) (by decide)
    (before₂ ++ bare₂ ++ behind₂ ++ ')' :: k)
  have hText : before₁ ++ bare₁ ++ behind₁ ++ ',' :: (before₂ ++ bare₂ ++ behind₂) ++ ')' :: k =
      before₁ ++ bare₁ ++ behind₁ ++ ',' :: (before₂ ++ bare₂ ++ behind₂ ++ ')' :: k) := by
    simp
  rw [hText]
  exact .moreArguments hFirst (stripStart_cons (by decide) _) hLast

/-- Every written form of an expression that can be read reads back as that expression, at the level
of the form. The induction is on the form, and each constructor has its lemma above. -/
theorem Written.readsBack {own : Precedence} (h : Written own e text) (hReadable : Readable e) :
    ReadsBack own e text := by
  induction h with
  | number hText => exact readsBack_number hText
  | negative hGap hText =>
    have hOperand : ReadsBack .sign _ _ := (readsBack_number hText).loosen (by decide)
    exact readsBack_negate hGap hOperand
  | string => exact readsBack_string hReadable
  | element => exact readsBack_element hReadable
  | @negate _ e _ _ _ hGap _ hWrapped ih =>
    have hOperand := readsBack_negate hGap ((ih hReadable.2).wrapped hWrapped)
    have hKept : negated e = e.negate := by
      cases e with
      | number x => exact absurd rfl (hReadable.1 x)
      | _ => rfl
    rwa [hKept] at hOperand
  | binary hLevel _ _ hWrapped₁ hWrapped₂ hBefore hBehind ih₁ ih₂ =>
    exact readsBack_binary hLevel hBefore hBehind ((ih₁ hReadable.1).wrapped hWrapped₁)
      ((ih₂ hReadable.2).wrapped hWrapped₂)
  | mark hGap _ hWrapped ih => exact readsBack_mark hGap ((ih hReadable).wrapped hWrapped)
  | call hName _ hBefore hBehind ih => exact readsBack_call hName (ih hReadable) hBefore hBehind
  | atan2 _ _ hBefore₁ hBehind₁ hBefore₂ hBehind₂ ih₁ ih₂ =>
    exact readsBack_atan2 (ih₁ hReadable.1) (ih₂ hReadable.2) hBefore₁ hBehind₁ hBefore₂ hBehind₂

/-! ### Written forms exist -/

theorem exists_wrapped (least own : Precedence) (bare : List Char) :
    ∃ text, Wrapped least own bare text := by
  by_cases hLe : least ≤ own
  · exact ⟨bare, .inl ⟨hLe, rfl⟩⟩
  · exact ⟨_, .inr ⟨hLe, [], [], gap_nil, gap_nil, rfl⟩⟩

theorem ofName?_name (f : UnaryFunction) : MathFunction.ofName? f.name = some (.unary f) := by
  cases f <;> rfl

theorem Readable.exists_written (h : Readable e) : ∃ own text, Written own e text := by
  induction e with
  | number x =>
    obtain ⟨text, hText | hText⟩ := h
    · exact ⟨_, _, .number hText⟩
    · have hNegative := Written.negative gap_nil hText
      rw [Real.neg_neg] at hNegative
      exact ⟨_, _, hNegative⟩
  | string text => exact ⟨_, _, .string text⟩
  | element name => exact ⟨_, _, .element name⟩
  | negate e ih =>
    obtain ⟨own, bare, hOperand⟩ := ih h.2
    obtain ⟨text, hWrapped⟩ := exists_wrapped .sign own bare
    exact ⟨_, _, .negate gap_nil hOperand hWrapped⟩
  | binary op left right ih₁ ih₂ =>
    obtain ⟨own₁, bare₁, hLeft⟩ := ih₁ h.1
    obtain ⟨own₂, bare₂, hRight⟩ := ih₂ h.2
    obtain ⟨text₁, hWrapped₁⟩ := exists_wrapped (Precedence.ofOperator op).2.1 own₁ bare₁
    obtain ⟨text₂, hWrapped₂⟩ := exists_wrapped (Precedence.ofOperator op).2.2 own₂ bare₂
    exact ⟨_, _, .binary rfl hLeft hRight hWrapped₁ hWrapped₂ gap_nil gap_nil⟩
  | call f e ih =>
    obtain ⟨own, bare, hArgument⟩ := ih h
    exact ⟨_, _, .call (ofName?_name f) hArgument gap_nil gap_nil⟩
  | atan2 y x ih₁ ih₂ =>
    obtain ⟨own₁, bare₁, hFirst⟩ := ih₁ h.1
    obtain ⟨own₂, bare₂, hSecond⟩ := ih₂ h.2
    exact ⟨_, _, .atan2 hFirst hSecond gap_nil gap_nil gap_nil gap_nil⟩

theorem readable_of_parse {source : String} (h : parse source = .ok e) : Readable e := by
  obtain ⟨rest, hReads, -⟩ := parse_eq_ok_iff.mp h
  exact hReads.yields_readable

theorem ReadsBack.parse {own : Precedence} {e : Expr} {bare before behind : List Char}
    {text : String} (h : ReadsBack own e bare) (hBefore : Gap before) (hBehind : Gap behind)
    (hText : text.toList = before ++ bare ++ behind) : parse text = .ok e := by
  have hSum : ReadsBack .sum e bare := h.loosen (Nat.zero_le own.rank)
  have hEnd : stripStart behind = [] := stripStart_eq_nil hBehind
  have hAvoids : ∀ forbidden, Avoids forbidden behind := by
    intro forbidden c hc
    rw [hEnd] at hc
    cases hc
  have hEnds : Ends behind := by
    rw [← append_nil behind]
    exact .of_gap hBehind (by simp [Ends])
  have hRead := hSum behind hEnds (hAvoids _) e _ (.tail_end (hAvoids _))
  refine parse_eq_ok_iff.mpr ⟨stripStart behind, ?_, by rw [hEnd]; rfl⟩
  rw [hText, append_assoc]
  exact hRead.reblank (stripStart_gap hBefore _)

/-- An expression of this form has written forms, and reading undoes writing. -/
theorem Readable.printed (h : Readable e) :
    (∃ text, Prints e text) ∧ ∀ text, Prints e text → parse text = .ok e := by
  constructor
  · obtain ⟨own, bare, hWritten⟩ := h.exists_written
    refine ⟨String.ofList bare, own, bare, [], [], hWritten, gap_nil, gap_nil, ?_⟩
    rw [String.toList_ofList, nil_append, append_nil]
  · rintro text ⟨own, bare, before, behind, hWritten, hBefore, hBehind, hText⟩
    exact (hWritten.readsBack h).parse hBefore hBehind hText

/-- Those are the expressions that texts read as. -/
theorem readable_iff : Readable e ↔ ∃ source, parse source = .ok e := by
  refine ⟨fun h => ?_, fun ⟨_, hSource⟩ => readable_of_parse hSource⟩
  obtain ⟨text, hPrints⟩ := h.printed.1
  exact ⟨text, h.printed.2 text hPrints⟩

/-- Reading undoes writing. An expression that some text reads as has written forms, with parentheses
only where the levels demand them, and each of them, whatever its blanks and literals, reads as the
expression itself. -/
theorem parse_printed {e : Expr} (hRead : ∃ source, parse source = .ok e) :
    (∃ text, Prints e text) ∧ ∀ text, Prints e text → parse text = .ok e :=
  (readable_iff.mpr hRead).printed

/-- A sign over a power whose exponent has a sign, less a transposed difference, with blanks in odd
places. -/
theorem parse_printed_nested :
    let e := binary .subtract (negate (binary .power (element "a") (negate (element "b"))))
      (call .transpose (binary .subtract (element "c(2)") (string "x")))
    Prints e " - a^ -b-( c(2)-'x') '" ∧ parse " - a^ -b-( c(2)-'x') '" = .ok e := by
  intro e
  have hRead : ∃ source, parse source = .ok e := ⟨"-a ^ -b - (c(2) - 'x')'", by cbv⟩
  have hBare : ∀ {least own text}, least ≤ own → Wrapped least own text text := fun h => .inl ⟨h, rfl⟩
  have hPow : Precedence.ofOperator .power = (.power, .mark, .sign) := rfl
  have hLess : Precedence.ofOperator .subtract = (.sum, .sum, .product) := rfl
  have hExponent : Written .sign (negate (element "b")) ['-', 'b'] :=
    .negate gap_nil (.element "b") (hBare (by decide))
  have hPower : Written .power (binary .power (element "a") (negate (element "b")))
      ['a', '^', ' ', '-', 'b'] :=
    .binary hPow (.element "a") hExponent (hBare (by decide)) (hBare (by decide)) gap_nil
      (show Gap [' '] from rfl)
  have hDifference : Written .sum (binary .subtract (element "c(2)") (string "x"))
      ['c', '(', '2', ')', '-', Name.quote, 'x', Name.quote] :=
    .binary hLess (.element "c(2)") (.string "x") (hBare (by decide)) (hBare (by decide)) gap_nil gap_nil
  have hWrapped : Wrapped .mark .sum ['c', '(', '2', ')', '-', Name.quote, 'x', Name.quote]
      ['(', ' ', 'c', '(', '2', ')', '-', Name.quote, 'x', Name.quote, ')'] :=
    .inr ⟨by decide, [' '], [], rfl, rfl, rfl⟩
  have hMinus : Written .sign (negate (binary .power (element "a") (negate (element "b"))))
      ['-', ' ', 'a', '^', ' ', '-', 'b'] :=
    .negate (show Gap [' '] from rfl) hPower (hBare (by decide))
  have hWritten : Written .sum e (['-', ' ', 'a', '^', ' ', '-', 'b'] ++ [] ++ ['-'] ++ [] ++
      (['(', ' ', 'c', '(', '2', ')', '-', Name.quote, 'x', Name.quote, ')'] ++ [' '] ++
        [Name.quote])) :=
    .binary hLess hMinus (.mark (show Gap [' '] from rfl) hDifference hWrapped) (hBare (by decide))
      (hBare (by decide)) gap_nil gap_nil
  have hPrints : Prints e " - a^ -b-( c(2)-'x') '" :=
    ⟨.sum, _, [' '], [], hWritten, rfl, rfl, by decide⟩
  exact ⟨hPrints, (parse_printed hRead).2 _ hPrints⟩

end Mission.Expr
