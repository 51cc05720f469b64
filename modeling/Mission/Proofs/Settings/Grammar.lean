import Mission.Settings.Json

/-! The grammar of JSON texts. Every text that is written by its rules, with whatever spaces and
escapes, is read as the value it is written for. -/
namespace Mission.Json

open List

variable {codes : List Nat} {text : List Char}

/-! ### Spaces -/

def Spaces (cs : List Char) : Prop :=
  cs.all isSpace = true

section

variable {gap rest : List Char} {c d : Char}

theorem skipSpaces_append (h : Spaces gap) (cs : List Char) : skipSpaces (gap ++ cs) = skipSpaces cs :=
  dropWhile_append_of_pos (all_eq_true.mp h)

theorem skipSpaces_cons (h : isSpace c = false) (cs : List Char) : skipSpaces (c :: cs) = c :: cs := by
  simp [skipSpaces, h]

theorem expect_gap (hGap : Spaces gap) (hd : isSpace d = false) (c : Char) :
    expect c (gap ++ d :: rest) = if d = c then some rest else none := by
  rw [expect, skipSpaces_append hGap, skipSpaces_cons hd]

theorem value_gap (hGap : Spaces gap) (fuel : Nat) (cs : List Char) :
    value fuel (gap ++ cs) = value fuel cs := by
  cases fuel with
  | zero => rfl
  | succ fuel => rw [value, value, skipSpaces_append hGap]

end

/-! ### Numbers -/

/-- What could still belong to a number. -/
def continues (c : Char) : Bool :=
  c.isDigit || c = '.' || c = 'e' || c = 'E'

/-- Nothing that could still belong to a number stands in front. -/
def Stops (cs : List Char) : Prop :=
  ∀ c ∈ cs.head?, continues c = false

def IsDigits (cs : List Char) : Prop :=
  cs ≠ [] ∧ cs.all Char.isDigit = true

/-- Zero, or digits that do not begin with zero. -/
def IsWhole (cs : List Char) : Prop :=
  cs = ['0'] ∨ IsDigits cs ∧ cs.head? ≠ some '0'

/-- A fraction, and whether there is one. -/
inductive FractionText : Bool → List Char → Prop
  | absent : FractionText false []
  | present {ds : List Char} (hDigits : IsDigits ds) : FractionText true ('.' :: ds)

/-- An exponent, and whether there is one. -/
inductive ExponentText : Bool → List Char → Prop
  | absent : ExponentText false []
  | present {mark : Char} {sign ds : List Char} (hMark : mark = 'e' ∨ mark = 'E')
      (hSign : sign = [] ∨ sign = ['+'] ∨ sign = ['-']) (hDigits : IsDigits ds) :
      ExponentText true (mark :: (sign ++ ds))

/-- A number, with its value if it has neither sign nor fraction nor exponent. -/
inductive NumberText : Option Nat → List Char → Prop
  | parts {signed fractional scaled : Bool} {whole fraction exponent : List Char} (hWhole : IsWhole whole)
      (hFraction : FractionText fractional fraction) (hExponent : ExponentText scaled exponent) :
      NumberText (if !signed && !fractional && !scaled then some (digitsValue whole) else none)
        ((if signed then ['-'] else []) ++ (whole ++ (fraction ++ exponent)))

section

variable {ds whole fraction exponent rest : List Char} {fractional scaled : Bool}

theorem stops_cons {c : Char} (h : continues c = false) : Stops (c :: rest) := by
  rintro _ ⟨⟩
  exact h

theorem stops_append {gap : List Char} (hGap : Spaces gap) (hRest : Stops rest) : Stops (gap ++ rest) := by
  cases gap with
  | nil => exact hRest
  | cons space gap =>
    have hSpace : isSpace space = true := all_eq_true.mp hGap space mem_cons_self
    simp only [isSpace, Bool.or_eq_true, decide_eq_true_eq] at hSpace
    refine stops_cons ?_
    rcases hSpace with ((rfl | rfl) | rfl) | rfl <;> rfl

theorem IsDigits.head (h : IsDigits ds) : ∃ d tail, ds = d :: tail ∧ d.isDigit = true := by
  obtain ⟨d, tail, rfl⟩ := exists_cons_of_ne_nil h.1
  exact ⟨d, tail, rfl, all_eq_true.mp h.2 d mem_cons_self⟩

theorem IsWhole.head (h : IsWhole whole) : ∃ d tail, whole = d :: tail ∧ d.isDigit = true := by
  rcases h with rfl | ⟨hDigits, -⟩
  · exact ⟨'0', [], rfl, rfl⟩
  · exact hDigits.head

/-- No digit and no point follows the fraction. -/
theorem ExponentText.head (h : ExponentText scaled exponent) (hRest : Stops rest) :
    ∀ c ∈ (exponent ++ rest).head?, c.isDigit = false ∧ c ≠ '.' := by
  cases h with
  | absent =>
    intro c hc
    have hStop := hRest c hc
    simp only [continues, Bool.or_eq_false_iff, decide_eq_false_iff_not] at hStop
    exact ⟨hStop.1.1.1, hStop.1.1.2⟩
  | present hMark _ _ =>
    rintro _ ⟨⟩
    rcases hMark with rfl | rfl <;> exact ⟨rfl, by decide⟩

theorem digits_append (h : IsDigits ds) (hRest : ∀ c ∈ rest.head?, c.isDigit = false) :
    digits (ds ++ rest) = some (ds, rest) := by
  have hAll := all_eq_true.mp h.2
  have hTake : rest.takeWhile Char.isDigit = [] := by
    cases rest with
    | nil => rfl
    | cons c rest => exact takeWhile_cons_of_neg (by simp [hRest c rfl])
  have hDrop : rest.dropWhile Char.isDigit = rest := by
    cases rest with
    | nil => rfl
    | cons c rest => exact dropWhile_cons_of_neg (by simp [hRest c rfl])
  rw [digits, takeWhile_append_of_pos hAll, dropWhile_append_of_pos hAll, hTake, hDrop, append_nil]
  obtain ⟨d, tail, rfl, -⟩ := h.head
  rfl

theorem wholePart_append (h : IsWhole whole) (hRest : ∀ c ∈ rest.head?, c.isDigit = false) :
    wholePart (whole ++ rest) = some (whole, rest) := by
  rcases h with rfl | ⟨hDigits, hZero⟩
  · rfl
  · obtain ⟨d, tail, rfl, -⟩ := hDigits.head
    rw [wholePart, if_neg (by simpa using hZero), digits_append hDigits hRest]

theorem afterFraction_append (h : FractionText fractional fraction)
    (hRest : ∀ c ∈ rest.head?, c.isDigit = false ∧ c ≠ '.') :
    afterFraction (fraction ++ rest) = some (fractional, rest) := by
  cases h with
  | absent =>
    have hPoint : ¬ rest.head? = some '.' := fun hPoint => (hRest _ hPoint).2 rfl
    rw [nil_append, afterFraction, if_neg hPoint]
  | present hDigits =>
    rw [afterFraction, cons_append, List.head?_cons, if_pos rfl, tail_cons,
      digits_append hDigits fun c hc => (hRest c hc).1]
    rfl

theorem afterExponent_append (h : ExponentText scaled exponent) (hRest : Stops rest) :
    afterExponent (exponent ++ rest) = some (scaled, rest) := by
  have hEnd : ∀ c ∈ rest.head?, c.isDigit = false := fun c hc => (ExponentText.absent.head hRest c hc).1
  cases h with
  | absent =>
    have hMark : ¬ (decide (rest.head? = some 'e') || decide (rest.head? = some 'E')) = true := by
      rw [Bool.or_eq_true, decide_eq_true_eq, decide_eq_true_eq]
      rintro (hMark | hMark) <;> cases hRest _ hMark
    rw [nil_append, afterExponent, if_neg hMark]
  | @present mark sign ds hMark hSign hDigits =>
    have hMarked : (decide (some mark = some 'e') || decide (some mark = some 'E')) = true := by
      simpa using hMark
    rw [afterExponent, cons_append, List.head?_cons, if_pos hMarked, tail_cons, append_assoc]
    rcases hSign with rfl | rfl | rfl
    · have hUnsigned : (ds ++ rest).head? ≠ some '+' ∧ (ds ++ rest).head? ≠ some '-' := by
        obtain ⟨d, tail, rfl, hd⟩ := hDigits.head
        constructor <;> rintro ⟨⟩ <;> cases hd
      simp [-List.head?_append, hUnsigned, digits_append hDigits hEnd]
    · simp [digits_append hDigits hEnd]
    · simp [digits_append hDigits hEnd]

/-- A number is read up to the first character that cannot continue it. -/
theorem numeral_append {n : Option Nat} {text : List Char} (h : NumberText n text) (hRest : Stops rest) :
    numeral (text ++ rest) = some (number n, rest) := by
  cases h with
  | @parts signed fractional scaled whole fraction exponent hWhole hFraction hExponent =>
    have hExponentHead := hExponent.head hRest
    have hFractionHead : ∀ c ∈ (fraction ++ (exponent ++ rest)).head?, c.isDigit = false := by
      cases hFraction with
      | absent => exact fun c hc => (hExponentHead c hc).1
      | present _ =>
        rintro _ ⟨⟩
        rfl
    have hUnsigned : (whole ++ (fraction ++ (exponent ++ rest))).head? ≠ some '-' := by
      obtain ⟨d, tail, rfl, hd⟩ := hWhole.head
      rintro ⟨⟩
      cases hd
    have hWholePart := wholePart_append hWhole hFractionHead
    have hAfterFraction := afterFraction_append hFraction hExponentHead
    have hAfterExponent := afterExponent_append hExponent hRest
    cases signed with
    | true => simp [numeral, hWholePart, hAfterFraction, hAfterExponent]
    | false => simp [-List.head?_append, numeral, hUnsigned, hWholePart, hAfterFraction, hAfterExponent]

end

/-! ### Strings -/

/-- What stands between the quotes of a string, and the codes that it gives. -/
inductive StringText : List Nat → List Char → Prop
  | nil : StringText [] []
  | char {c : Char} {codes : List Nat} {cs : List Char} (hQuote : c ≠ '"') (hEscape : c ≠ '\\')
      (hCode : 32 ≤ c.toNat) (h : StringText codes cs) : StringText (c.toNat :: codes) (c :: cs)
  | escape {c : Char} {code : Nat} {codes : List Nat} {cs : List Char} (hCode : escapeCode? c = some code)
      (h : StringText codes cs) : StringText (code :: codes) ('\\' :: c :: cs)
  | unit {c₁ c₂ c₃ c₄ : Char} {d₁ d₂ d₃ d₄ : Nat} {codes : List Nat} {cs : List Char}
      (h₁ : hexValue? c₁ = some d₁) (h₂ : hexValue? c₂ = some d₂) (h₃ : hexValue? c₃ = some d₃)
      (h₄ : hexValue? c₄ = some d₄) (h : StringText codes cs) :
      StringText ((((d₁ * 16 + d₂) * 16 + d₃) * 16 + d₄) :: codes) ('\\' :: 'u' :: c₁ :: c₂ :: c₃ :: c₄ :: cs)

theorem stringCodes_append (h : StringText codes text) (rest : List Char) :
    stringCodes .plain (text ++ '"' :: rest) = some (codes, rest) := by
  induction h with
  | nil => simp [stringCodes]
  | char hQuote hEscape hCode _ ih => simp [stringCodes, hQuote, hEscape, Nat.not_lt.mpr hCode, ih]
  | @escape c code codes cs hCode _ ih =>
    have hUnit : c ≠ 'u' := by
      rintro rfl
      cases hCode
    simp [stringCodes, hUnit, hCode, ih]
  | unit h₁ h₂ h₃ h₄ _ ih => simp [stringCodes, h₁, h₂, h₃, h₄, ih]

/-- The text that a string stands for. Surrogates that are not paired stand for none. -/
def decoded (codes : List Nat) : Option String :=
  (decode codes).map String.ofList

theorem stringBody_append (h : StringText codes text) (rest : List Char) :
    stringBody (text ++ '"' :: rest) = some (decoded codes, rest) := by
  rw [stringBody, stringCodes_append h]
  rfl

/-! ### Values -/

/-- A value, the items of an array or the members of an object. -/
inductive Part
  | value (v : Json)
  | items (vs : List Json)
  | members (ms : List (Option String × Json))

/-- The texts by which a part may be written. A value has no spaces around it; the items and the
members have. -/
inductive Written : Part → List Char → Prop
  | null : Written (.value null) "null".toList
  | flag (b : Bool) : Written (.value (boolean b)) (if b then "true" else "false").toList
  | number {n : Option Nat} {text : List Char} (h : NumberText n text) : Written (.value (number n)) text
  | string {codes : List Nat} {text : List Char} (h : StringText codes text) :
      Written (.value (string (decoded codes))) ('"' :: text ++ ['"'])
  | emptyArray {gap : List Char} (hGap : Spaces gap) : Written (.value (array [])) ('[' :: gap ++ [']'])
  | array {vs : List Json} {text : List Char} (h : Written (.items vs) text) :
      Written (.value (array vs)) ('[' :: text ++ [']'])
  | emptyObject {gap : List Char} (hGap : Spaces gap) : Written (.value (object []))
      ('\x7b' :: gap ++ ['\x7d'])
  | object {ms : List (Option String × Json)} {text : List Char} (h : Written (.members ms) text) :
      Written (.value (object ms)) ('\x7b' :: text ++ ['\x7d'])
  | lastItem {v : Json} {before text behind : List Char} (hBefore : Spaces before)
      (h : Written (.value v) text)
      (hBehind : Spaces behind) : Written (.items [v]) (before ++ (text ++ behind))
  | item {v : Json} {vs : List Json} {before text behind others : List Char} (hBefore : Spaces before)
      (h : Written (.value v) text) (hBehind : Spaces behind) (hOthers : Written (.items vs) others) :
      Written (.items (v :: vs)) (before ++ (text ++ (behind ++ ',' :: others)))
  | lastMember {codes : List Nat} {v : Json} {start key middle before text behind : List Char}
      (hStart : Spaces start) (hKey : StringText codes key) (hMiddle : Spaces middle)
      (hBefore : Spaces before)
      (h : Written (.value v) text) (hBehind : Spaces behind) :
      Written (.members [(decoded codes, v)])
        (start ++ '"' :: (key ++ '"' :: (middle ++ ':' :: (before ++ (text ++ behind)))))
  | member {codes : List Nat} {v : Json} {ms : List (Option String × Json)}
      {start key middle before text behind others : List Char}
      (hStart : Spaces start) (hKey : StringText codes key) (hMiddle : Spaces middle)
      (hBefore : Spaces before)
      (h : Written (.value v) text) (hBehind : Spaces behind) (hOthers : Written (.members ms) others) :
      Written (.members ((decoded codes, v) :: ms))
        (start ++ '"' :: (key ++ '"' :: (middle ++ ':' :: (before ++ (text ++ (behind ++ ',' :: others))))))

/-- Behind its spaces the text begins, and not with what closes an array or an object. -/
def Begins (text : List Char) : Prop :=
  ∃ gap c tail, text = gap ++ c :: tail ∧ Spaces gap ∧ isSpace c = false ∧ c ≠ ']' ∧ c ≠ '\x7d'

theorem Begins.append {before : List Char} (hBefore : Spaces before) (h : Begins text) (more : List Char) :
    Begins (before ++ (text ++ more)) := by
  obtain ⟨gap, c, tail, rfl, hGap, hc⟩ := h
  refine ⟨before ++ gap, c, tail ++ more, by simp, ?_, hc⟩
  rw [Spaces, all_append, hBefore, hGap]
  rfl

theorem Begins.expect {text : List Char} (h : Begins text) (rest : List Char) :
    expect ']' (text ++ rest) = none ∧ expect '\x7d' (text ++ rest) = none := by
  obtain ⟨gap, c, tail, rfl, hGap, hSpace, hArray, hObject⟩ := h
  rw [append_assoc, cons_append, expect_gap hGap hSpace, expect_gap hGap hSpace, if_neg hArray,
    if_neg hObject]
  exact ⟨rfl, rfl⟩

/-- The first character of a number tells it from every other value. -/
theorem NumberText.head {n : Option Nat} (h : NumberText n text) :
    ∃ c tail, text = c :: tail ∧ (c = '-' ∨ c.isDigit = true) := by
  cases h with
  | @parts signed fractional scaled whole fraction exponent hWhole _ _ =>
    cases signed with
    | true => exact ⟨'-', _, rfl, .inl rfl⟩
    | false =>
      obtain ⟨d, tail, rfl, hd⟩ := hWhole.head
      exact ⟨d, _, rfl, .inr hd⟩

theorem ne_of_numberStart {c d : Char} (hc : c = '-' ∨ c.isDigit = true) (hSign : d ≠ '-')
    (hd : d.isDigit = false) : c ≠ d := by
  rintro rfl
  rcases hc with rfl | hDigit
  · exact hSign rfl
  · cases hd.symm.trans hDigit

theorem Written.begins {part : Part} (h : Written part text) : Begins text := by
  induction h with
  | null | string | emptyArray | array | emptyObject | object =>
    exact ⟨[], _, _, rfl, rfl, rfl, by decide, by decide⟩
  | flag b => cases b <;> exact ⟨[], _, _, rfl, rfl, rfl, by decide, by decide⟩
  | number h =>
    obtain ⟨c, tail, rfl, hc⟩ := h.head
    have hNot {d : Char} (hSign : d ≠ '-') (hd : d.isDigit = false) : c ≠ d := ne_of_numberStart hc hSign hd
    refine ⟨[], c, tail, rfl, rfl, ?_, hNot (by decide) rfl, hNot (by decide) rfl⟩
    simp [isSpace, hNot]
  | lastItem hBefore _ _ ih | item hBefore _ _ _ ih => exact ih.append hBefore _
  | lastMember hStart | member hStart => exact ⟨_, _, _, rfl, hStart, rfl, by decide, by decide⟩

/-- What it means that a part is read, whatever follows it. Every second step of the reading
consumes a character. -/
def Part.Reads : Part → List Char → Prop
  | value v, text => ∀ fuel rest, 2 * text.length ≤ fuel + 1 → Stops rest →
    Json.value (fuel + 1) (text ++ rest) = some (v, rest)
  | items vs, text => ∀ fuel rest, 2 * text.length ≤ fuel + 1 →
    Json.items (fuel + 2) (text ++ ']' :: rest) = some (vs, rest)
  | members ms, text => ∀ fuel rest, 2 * text.length ≤ fuel + 1 →
    Json.members (fuel + 2) (text ++ '\x7d' :: rest) = some (ms, rest)

/-- What is written by the grammar is read back, with the rest of the text left. -/
theorem Written.reads {part : Part} (h : Written part text) : part.Reads text := by
  induction h with
  | null =>
    intro fuel rest _ _
    rfl
  | flag b =>
    intro fuel rest _ _
    cases b <;> rfl
  | number h =>
    intro fuel rest _ hRest
    have hNumeral := numeral_append h hRest
    obtain ⟨c, tail, rfl, hc⟩ := h.head
    have hNot {d : Char} (hSign : d ≠ '-') (hd : d.isDigit = false) : c ≠ d := ne_of_numberStart hc hSign hd
    rw [cons_append] at hNumeral
    simp [value, skipSpaces, isSpace, hNot, hNumeral]
  | string h =>
    intro fuel rest _ _
    simp [value, skipSpaces, isSpace, stringBody_append h]
  | emptyArray hGap | emptyObject hGap =>
    intro fuel rest _ _
    simp [value, skipSpaces, isSpace, expect_gap hGap]
  | array h ih =>
    intro fuel rest hFuel _
    simp only [cons_append, length_cons, length_append] at hFuel
    obtain ⟨fuel, rfl⟩ : ∃ k, fuel = k + 2 := ⟨fuel - 2, by omega⟩
    simp [value, skipSpaces, isSpace, (h.begins.expect _).1, ih fuel rest (by omega)]
  | object h ih =>
    intro fuel rest hFuel _
    simp only [cons_append, length_cons, length_append] at hFuel
    obtain ⟨fuel, rfl⟩ : ∃ k, fuel = k + 2 := ⟨fuel - 2, by omega⟩
    simp [value, skipSpaces, isSpace, (h.begins.expect _).2, ih fuel rest (by omega)]
  | @lastItem v before text behind hBefore _ hBehind ih =>
    intro fuel rest hFuel
    simp only [length_append] at hFuel
    have hValue := ih fuel (behind ++ ']' :: rest) (by omega) (stops_append hBehind (stops_cons rfl))
    simp [items, value_gap hBefore, hValue, expect_gap hBehind, isSpace]
  | @item v vs before text behind others hBefore _ hBehind _ ih ihOthers =>
    intro fuel rest hFuel
    simp only [length_append, length_cons] at hFuel
    have hValue := ih fuel (behind ++ ',' :: (others ++ ']' :: rest)) (by omega)
      (stops_append hBehind (stops_cons rfl))
    obtain ⟨fuel, rfl⟩ : ∃ k, fuel = k + 1 := ⟨fuel - 1, by omega⟩
    rw [items]
    simp [value_gap hBefore, hValue, expect_gap hBehind, isSpace, ihOthers fuel rest (by omega)]
  | @lastMember codes v start key middle before text behind hStart hKey hMiddle hBefore _ hBehind ih =>
    intro fuel rest hFuel
    simp only [length_append, length_cons] at hFuel
    have hValue := ih fuel (behind ++ '\x7d' :: rest) (by omega) (stops_append hBehind (stops_cons rfl))
    simp [members, expect_gap hStart, stringBody_append hKey, expect_gap hMiddle, value_gap hBefore, hValue,
      expect_gap hBehind, isSpace]
  | @member codes v ms start key middle before text behind others hStart hKey hMiddle hBefore _ hBehind _ ih
      ihOthers =>
    intro fuel rest hFuel
    simp only [length_append, length_cons] at hFuel
    have hValue := ih fuel (behind ++ ',' :: (others ++ '\x7d' :: rest)) (by omega)
      (stops_append hBehind (stops_cons rfl))
    obtain ⟨fuel, rfl⟩ : ∃ k, fuel = k + 1 := ⟨fuel - 1, by omega⟩
    rw [members]
    simp [expect_gap hStart, stringBody_append hKey, expect_gap hMiddle, value_gap hBefore, hValue,
      expect_gap hBehind, isSpace, ihOthers fuel rest (by omega)]

/-- The text is the value written by the rules, with any spaces around it. -/
def Spells (v : Json) (text : String) : Prop :=
  ∃ before body behind, text.toList = before ++ (body ++ behind) ∧ Spaces before ∧ Written (.value v) body ∧
    Spaces behind

/-- A text that spells a value is read as that value. -/
theorem parse_of_spells {v : Json} {text : String} (h : Spells v text) : parse text = some v := by
  obtain ⟨before, body, behind, hText, hBefore, hBody, hBehind⟩ := h
  have hEnd : skipSpaces behind = [] := append_nil behind ▸ skipSpaces_append hBehind []
  have hStops : Stops behind := append_nil behind ▸ stops_append hBehind (by rintro _ ⟨⟩)
  have hValue := hBody.reads (2 * (before ++ (body ++ behind)).length + 1) behind (by simp; omega) hStops
  rw [parse, hText]
  simp only [value_gap hBefore, hValue, hEnd]
  rfl

end Mission.Json
