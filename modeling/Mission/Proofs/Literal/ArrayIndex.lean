import Mission.Proofs.Classify.Policy
import Mission.Proofs.Name.Mention

/-! The texts that are array references. The scan that cuts index texts counts parentheses; what it
takes are the texts with balanced parentheses and no comma outside them, and the reader of
references accepts a name, blanks, and one or two such texts in parentheses, and nothing else. The
index texts are shorter than the reference, so reading them in turn comes to an end. -/
namespace Mission.ArrayIndex

open Text List Name

variable {cs taken rest before after : List Char} {depth : Nat} {c : Char} {text : String}
  {index : ArrayIndex}

/-- Texts with balanced parentheses. Commas may stand outside them only if that is allowed. -/
inductive Balanced : (commas : Bool) → List Char → Prop
  | nil {commas : Bool} : Balanced commas []
  | char {commas : Bool} {c : Char} {rest : List Char} (hOpen : c ≠ '(') (hClose : c ≠ ')')
      (hComma : c = ',' → commas = true) (hRest : Balanced commas rest) : Balanced commas (c :: rest)
  | group {commas : Bool} {inside rest : List Char} (hInside : Balanced true inside)
      (hRest : Balanced commas rest) :
      Balanced commas ('(' :: (inside ++ ')' :: rest))

/-- The text of an index. -/
structure IsIndex (cs : List Char) : Prop where
  balanced : Balanced false cs
  filled : strip cs ≠ []

/-- The array references: a name, blanks, and one or two indices in parentheses. -/
inductive Reads : List Char → ArrayIndex → Prop
  | column {name gap index : List Char} (hFilled : name ≠ []) (hName : name.all Name.isNameChar = true)
      (hGap : Gap gap)
      (hIndex : IsIndex index) :
      Reads (name ++ gap ++ '(' :: (index ++ [')'])) ⟨String.ofList name, "1", String.ofList (strip index)⟩
  | rowColumn {name gap row column : List Char} (hFilled : name ≠ [])
      (hName : name.all Name.isNameChar = true)
      (hGap : Gap gap) (hRow : IsIndex row) (hColumn : IsIndex column) :
      Reads (name ++ gap ++ '(' :: (row ++ ',' :: (column ++ [')'])))
        ⟨String.ofList name, String.ofList (strip row), String.ofList (strip column)⟩

/-- The texts that do not have the form of an array reference. -/
def Foreign (cs : List Char) : Prop :=
  '(' ∉ cs ∨ cs.head? = some '(' ∨ cs.getLast? ≠ some ')' ∨
    ∃ c ∈ strip (cs.takeWhile (· ≠ '(')), Name.isNameChar c = false

/-! ### The scan of an index -/

/-- The scan passes over a balanced text at any depth at which it may have its commas. -/
theorem Balanced.cut_append {commas : Bool} (h : Balanced commas cs) (hDepth : commas = true → depth ≠ 0)
    (rest : List Char) : cut depth (cs ++ rest) = (cs ++ (cut depth rest).1, (cut depth rest).2) := by
  induction h generalizing depth rest with
  | nil => rfl
  | @char commas c cs hOpen hClose hComma hRest ih =>
    have hGoes : ¬ (decide (depth = 0) && (decide (c = ',') || decide (c = ')'))) = true := by
      simp only [Bool.and_eq_true, Bool.or_eq_true, decide_eq_true_eq]
      rintro ⟨hZero, hc | hc⟩
      · exact hDepth (hComma hc) hZero
      · exact hClose hc
    rw [cons_append, cut, if_neg hGoes, if_neg hOpen, if_neg hClose]
    dsimp only
    rw [ih hDepth]
    rfl
  | @group commas inside cs hInside hRest ihInside ihRest =>
    have hOpens : cut depth ('(' :: (inside ++ ')' :: (cs ++ rest))) =
        ('(' :: (cut (depth + 1) (inside ++ ')' :: (cs ++ rest))).1,
          (cut (depth + 1) (inside ++ ')' :: (cs ++ rest))).2) := by
      rw [cut]
      simp
    have hCloses : cut (depth + 1) (')' :: (cs ++ rest)) =
        (')' :: (cut depth (cs ++ rest)).1, (cut depth (cs ++ rest)).2) := by
      rw [cut]
      simp
    rw [cons_append, append_assoc, cons_append, hOpens, ihInside (fun _ => Nat.succ_ne_zero depth),
      hCloses, ihRest hDepth]
    simp

/-- The texts that close a number of open parentheses and go on as an index. -/
inductive Closes : Nat → List Char → Prop
  | zero {cs : List Char} (h : Balanced false cs) : Closes 0 cs
  | succ {depth : Nat} {inside cs : List Char} (hInside : Balanced true inside) (hRest : Closes depth cs) :
      Closes (depth + 1) (inside ++ ')' :: cs)

theorem Closes.char (hOpen : c ≠ '(') (hClose : c ≠ ')') (hComma : c = ',' → depth ≠ 0)
    (h : Closes depth cs) : Closes depth (c :: cs) := by
  cases h with
  | zero h => exact .zero (.char hOpen hClose (fun hc => absurd rfl (hComma hc)) h)
  | succ hInside hRest => exact .succ (.char hOpen hClose (fun _ => rfl) hInside) hRest

theorem Closes.group (h : Closes (depth + 1) cs) : Closes depth ('(' :: cs) := by
  cases h with
  | @succ _ inside cs hInside hRest =>
    cases hRest with
    | zero h => exact .zero (.group hInside h)
    | @succ _ more cs hMore hRest =>
      have hGroup := Closes.succ (.group hInside hMore) hRest
      rwa [cons_append, append_assoc, cons_append] at hGroup

/-- What the scan takes closes the parentheses that were open, if it stops before the end. -/
theorem closes_of_cut (h : cut depth cs = (taken, c :: rest)) : Closes depth taken ∧ (c = ',' ∨ c = ')') := by
  induction cs generalizing depth taken with
  | nil => cases h
  | cons d cs ih =>
    rw [cut] at h
    split at h
    · next hStops =>
        cases h
        simp only [Bool.and_eq_true, Bool.or_eq_true, decide_eq_true_eq] at hStops
        exact ⟨hStops.1 ▸ .zero .nil, hStops.2⟩
    · next hGoes =>
        simp only [Bool.and_eq_true, Bool.or_eq_true, decide_eq_true_eq, not_and, not_or] at hGoes
        obtain ⟨rfl, hRest⟩ := Prod.mk.inj h
        by_cases hOpen : d = '('
        · rw [if_pos hOpen] at hRest ⊢
          obtain ⟨hCloses, hStop⟩ := ih (Prod.ext rfl hRest)
          exact ⟨hOpen ▸ hCloses.group, hStop⟩
        · rw [if_neg hOpen] at hRest ⊢
          by_cases hClose : d = ')'
          · rw [if_pos hClose] at hRest ⊢
            obtain ⟨hCloses, hStop⟩ := ih (Prod.ext rfl hRest)
            cases depth with
            | zero => exact absurd hClose (hGoes rfl).2
            | succ depth => exact ⟨hClose ▸ .succ .nil hCloses, hStop⟩
          · rw [if_neg hClose] at hRest ⊢
            obtain ⟨hCloses, hStop⟩ := ih (Prod.ext rfl hRest)
            exact ⟨hCloses.char hOpen hClose fun hComma hZero => (hGoes hZero).1 hComma, hStop⟩

/-- An index text is what the scan takes up to a comma or a closing parenthesis. -/
theorem cut_eq_iff :
    cut 0 cs = (taken, c :: rest) ↔
      cs = taken ++ c :: rest ∧ Balanced false taken ∧ (c = ',' ∨ c = ')') := by
  constructor
  · intro h
    obtain ⟨hCloses, hStop⟩ := closes_of_cut h
    have hAppend := cut_append 0 cs
    rw [h] at hAppend
    cases hCloses with
    | zero hBalanced => exact ⟨hAppend.symm, hBalanced, hStop⟩
  · rintro ⟨rfl, hBalanced, hStop⟩
    have hStops : cut 0 (c :: rest) = ([], c :: rest) := by
      rw [cut]
      exact if_pos (by rcases hStop with rfl | rfl <;> rfl)
    rw [hBalanced.cut_append (fun h => by cases h), hStops, append_nil]

/-! ### The indices -/

section

variable {source : String} {cs index more rest : List Char} {texts others : List (List Char)}

theorem indices_of_cut {c : Char} (hFilled : strip index ≠ []) (hCut : cut 0 cs = (index, c :: more)) :
    indices source cs =
      if c = ',' then (indices source more).map fun found => (strip index :: found.1, found.2)
      else .ok ([strip index], c :: more) := by
  have hFirst : (cut 0 cs).1 = index := by rw [hCut]
  have hSecond : (cut 0 cs).2 = c :: more := by rw [hCut]
  rw [indices, hFirst, if_neg (by rwa [List.isEmpty_iff])]
  split
  · next hNone =>
      rw [hSecond] at hNone
      cases hNone
  · next d others hSome =>
      rw [hSecond] at hSome
      cases hSome
      split
      · rcases indices source more with _ | _ <;> rfl
      · rfl

theorem indices_of_index (h : IsIndex index) (rest : List Char) :
    indices source (index ++ ')' :: rest) = .ok ([strip index], ')' :: rest) :=
  indices_of_cut h.filled (cut_eq_iff.mpr ⟨rfl, h.balanced, .inr rfl⟩)

theorem indices_of_comma (h : IsIndex index) (hMore : indices source more = .ok (others, rest)) :
    indices source (index ++ ',' :: more) = .ok (strip index :: others, rest) := by
  rw [indices_of_cut h.filled (cut_eq_iff.mpr ⟨rfl, h.balanced, .inl rfl⟩), if_pos rfl, hMore]
  rfl

/-- Index texts that are followed by a closing parenthesis are index texts indeed. -/
theorem indices_eq_ok (h : indices source cs = .ok (texts, ')' :: rest)) :
    ∃ index, IsIndex index ∧ (texts = [strip index] ∧ cs = index ++ ')' :: rest ∨
      ∃ more others, texts = strip index :: others ∧ cs = index ++ ',' :: more ∧
        indices source more = .ok (others, ')' :: rest)) := by
  rw [indices] at h
  split at h
  · cases h
  · next hFilled =>
      rw [List.isEmpty_iff] at hFilled
      split at h
      · cases h
      · next c more hCut =>
          obtain ⟨hSplit, hBalanced, hStop⟩ := cut_eq_iff.mp (Prod.ext rfl hCut)
          refine ⟨_, ⟨hBalanced, hFilled⟩, ?_⟩
          split at h
          · next hComma =>
              subst hComma
              split at h
              · cases h
              · next others _ hMore =>
                  cases h
                  exact .inr ⟨more, others, rfl, hSplit, hMore⟩
          · next hOther =>
              obtain rfl := hStop.resolve_left hOther
              cases h
              exact .inl ⟨rfl, hSplit⟩

/-- The indices behind a name are one or two index texts up to the closing parenthesis at the end. -/
theorem parseIndices_eq_ok_iff {name : String} {found : ArrayIndex} :
    parseIndices name source cs = .ok found ↔
      (∃ index, IsIndex index ∧ cs = index ++ [')'] ∧ found = ⟨name, "1", String.ofList (strip index)⟩) ∨
      ∃ row column, IsIndex row ∧ IsIndex column ∧ cs = row ++ ',' :: (column ++ [')']) ∧
        found = ⟨name, String.ofList (strip row), String.ofList (strip column)⟩ := by
  constructor
  · intro h
    unfold parseIndices at h
    split at h
    · cases h
    · next texts rest hIndices =>
        split at h
        · cases h
        · next hHead =>
            split at h
            · cases h
            · next hTail =>
                obtain rfl : rest = [')'] := by
                  cases rest with
                  | nil => exact absurd (by simp) hHead
                  | cons c rest => simp_all
                obtain ⟨index, hIndex, ⟨rfl, rfl⟩ | ⟨more, others, rfl, rfl, hMore⟩⟩ := indices_eq_ok hIndices
                · cases h
                  exact .inl ⟨index, hIndex, rfl, rfl⟩
                · obtain ⟨second, hSecond, ⟨rfl, rfl⟩ | ⟨last, others, rfl, rfl, hLast⟩⟩ :=
                    indices_eq_ok hMore
                  · cases h
                    exact .inr ⟨index, second, hIndex, hSecond, rfl, rfl⟩
                  · obtain ⟨third, -, ⟨rfl, -⟩ | ⟨_, _, rfl, -⟩⟩ := indices_eq_ok hLast <;> cases h
  · rintro (⟨index, hIndex, rfl, rfl⟩ | ⟨row, column, hRow, hColumn, rfl, rfl⟩)
    · rw [parseIndices, indices_of_index hIndex]
      rfl
    · rw [parseIndices, indices_of_comma hRow (indices_of_index hColumn [])]
      rfl

end

/-! ### References -/

theorem takeWhile_open (h : '(' ∉ before) (after : List Char) :
    (before ++ '(' :: after).takeWhile (· ≠ '(') = before ∧
      (before ++ '(' :: after).dropWhile (· ≠ '(') = '(' :: after := by
  have hNot : ∀ c ∈ before, decide (c ≠ '(') = true := fun c hc => decide_eq_true fun hOpen => h (hOpen ▸ hc)
  rw [takeWhile_append_of_pos hNot, dropWhile_append_of_pos hNot]
  simp

/-- A text is read by its first opening parenthesis. -/
theorem parse_of_split (hSplit : strip text.toList = before ++ '(' :: after) (hBefore : '(' ∉ before) :
    parse text =
      if before.isEmpty || (strip text.toList).getLast? ≠ some ')' then .ok none
      else if !(strip before).all isNameChar then .ok none
      else (parseIndices (String.ofList (strip before)) (String.ofList (strip text.toList)) after).map some :=
      by
  obtain ⟨hTake, hDrop⟩ := takeWhile_open hBefore after
  rw [← hSplit] at hTake hDrop
  unfold parse
  dsimp only
  rw [hTake, hDrop]
  dsimp only
  split
  · rfl
  · split
    · rfl
    · rcases parseIndices _ _ after with _ | _ <;> rfl

/-- A trimmed text starts with no blank. -/
theorem stripStart_strip (cs : List Char) : stripStart (strip cs) = strip cs := by
  rw [strip, stripStart_stripEnd, stripStart_stripStart]

/-- In a trimmed text the part in front of a parenthesis has no blanks but at its end. -/
theorem exists_gap_of_split (hSplit : strip text.toList = before ++ '(' :: after) (hFilled : before ≠ []) :
    strip before ≠ [] ∧ ∃ gap, Gap gap ∧ before = strip before ++ gap := by
  obtain ⟨c, tail, rfl⟩ := exists_cons_of_ne_nil hFilled
  have hBlank : isBlank c = false := isBlank_of_stripStart ((stripStart_strip text.toList).trans hSplit)
  have hStart : strip (c :: tail) = stripEnd (c :: tail) := by rw [strip, stripStart_cons hBlank]
  rw [hStart]
  exact ⟨by rw [stripEnd_cons hBlank]; exact cons_ne_nil _ _, exists_gap_end (c :: tail)⟩

theorem strip_name {name gap : List Char} (hName : name.all isNameChar = true) (hGap : Gap gap) :
    strip (name ++ gap) = name ∧ '(' ∉ name ++ gap := by
  have hChars := all_eq_true.mp hName
  have hBlanks := all_eq_true.mp hGap
  have hPlain : ∀ c ∈ name, isBlank c = false := by
    intro c hc
    by_contra hBlank
    have hNot := not_isNameChar_of_isBlank (by simpa using hBlank)
    rw [hChars c hc] at hNot
    cases hNot
  constructor
  · rw [strip, ← stripStart_stripEnd, stripEnd_append fun c hc => hPlain c (mem_of_getLast? hc),
      stripEnd_eq_nil hGap, append_nil]
    cases name with
    | nil => rfl
    | cons c name => exact stripStart_cons (hPlain c mem_cons_self) name
  · rw [mem_append, not_or]
    exact ⟨fun h => absurd (hChars _ h) (by decide), fun h => absurd (hBlanks _ h) (by decide)⟩

theorem parse_eq_none_iff : parse text = .ok none ↔ Foreign (strip text.toList) := by
  by_cases hOpen : '(' ∈ strip text.toList
  · obtain ⟨before, after, hSplit, hBefore⟩ := eq_append_cons_of_mem hOpen
    have hTake := (takeWhile_open hBefore after).1
    have hHead : (strip text.toList).head? = some '(' ↔ before.isEmpty = true := by
      rw [hSplit]
      cases before with
      | nil => exact ⟨fun _ => rfl, fun _ => rfl⟩
      | cons c before =>
        refine ⟨fun h => absurd ?_ hBefore, fun h => by cases h⟩
        rw [Option.some.inj h]
        exact mem_cons_self
    have hName : (∃ c ∈ strip before, isNameChar c = false) ↔ (strip before).all isNameChar = false := by
      rw [all_eq_false]
      exact exists_congr fun c => and_congr_right fun _ => by rw [Bool.not_eq_true]
    rw [← hSplit] at hTake
    rw [parse_of_split hSplit hBefore, Foreign, hTake, hHead, hName]
    split
    · next hForm =>
        rw [Bool.or_eq_true, decide_eq_true_eq] at hForm
        exact ⟨fun _ => .inr (hForm.imp_right .inl), fun _ => rfl⟩
    · next hForm =>
        rw [Bool.or_eq_true, decide_eq_true_eq, not_or] at hForm
        split
        · next hChars => exact ⟨fun _ => .inr (.inr (.inr (by simpa using hChars))), fun _ => rfl⟩
        · next hChars =>
            constructor
            · rcases parseIndices _ _ after with _ | _ <;> rintro ⟨⟩
            · rintro (h | h | h | h)
              · exact absurd hOpen h
              · exact absurd h hForm.1
              · exact absurd h hForm.2
              · exact absurd (by simpa using h) hChars
  · have hText : '(' ∉ text.toList := fun h => hOpen (mem_strip h (by decide))
    exact ⟨fun _ => .inl hOpen, fun _ => parse_of_not_mem hText⟩

/-- The index texts of a reference are shorter than it. -/
theorem Reads.length_lt (h : Reads cs index) :
    index.row.length < cs.length ∧ index.column.length < cs.length := by
  cases h with
  | @column name gap index hFilled =>
    have hIndex := Literal.length_strip_le index
    have hName := length_pos_iff.mpr hFilled
    have hOne : "1".length = 1 := rfl
    simp only [String.length_ofList, length_append, length_cons]
    omega
  | @rowColumn name gap row column hFilled =>
    have hRow := Literal.length_strip_le row
    have hColumn := Literal.length_strip_le column
    simp only [String.length_ofList, length_append, length_cons]
    omega

theorem parse_eq_some_iff : parse text = .ok (some index) ↔ Reads (strip text.toList) index := by
  constructor
  · intro h
    have hOpen : '(' ∈ strip text.toList := by
      by_contra hNot
      rw [parse_eq_none_iff.mpr (.inl hNot)] at h
      cases h
    obtain ⟨before, after, hSplit, hBefore⟩ := List.eq_append_cons_of_mem hOpen
    rw [parse_of_split hSplit hBefore] at h
    split at h
    · cases h
    · next hForm =>
        split at h
        · cases h
        · next hName =>
            simp only [Bool.or_eq_true, not_or, List.isEmpty_iff] at hForm
            obtain ⟨hFilled, gap, hGap, hEnd⟩ := exists_gap_of_split hSplit hForm.1
            have hName : (strip before).all Name.isNameChar = true := by simpa using hName
            rw [hSplit, hEnd]
            rcases hIndices : parseIndices (String.ofList (strip before)) (String.ofList (strip text.toList))
              after
              with _ | found
            · rw [hIndices] at h
              cases h
            · rw [hIndices] at h
              cases h
              rcases parseIndices_eq_ok_iff.mp hIndices with ⟨index, hIndex, rfl, rfl⟩ |
                ⟨row, column, hRow, hColumn, rfl, rfl⟩
              · exact .column hFilled hName hGap hIndex
              · exact .rowColumn hFilled hName hGap hRow hColumn
  · generalize hText : strip text.toList = cs
    intro h
    -- The reference is read by its first parenthesis, and what follows this is known.
    have hParse : ∀ {name gap after : List Char}, strip text.toList = name ++ gap ++ '(' :: after →
      name ≠ [] →
        name.all Name.isNameChar = true → Gap gap → after.getLast? = some ')' →
        parse text = (parseIndices (String.ofList name) (String.ofList (strip text.toList)) after).map some :=
          by
      intro name gap after hSplit hFilled hName hGap hLast
      obtain ⟨hStrip, hBefore⟩ := strip_name hName hGap
      rw [parse_of_split hSplit hBefore, hStrip, if_neg, if_neg]
      · simpa using hName
      · simp [hSplit, List.getLast?_append, List.getLast?_cons, hLast, hFilled]
    cases h with
    | column hFilled hName hGap hIndex =>
      rw [hParse hText hFilled hName hGap (by simp), parseIndices_eq_ok_iff.mpr (.inl ⟨_, hIndex, rfl, rfl⟩)]
      rfl
    | rowColumn hFilled hName hGap hRow hColumn =>
      rw [hParse hText hFilled hName hGap (by simp [List.getLast?_cons]),
        parseIndices_eq_ok_iff.mpr (.inr ⟨_, _, hRow, hColumn, rfl, rfl⟩)]
      rfl

/-- The first text is an index of the array reference that the second is, without the parentheses
around it. -/
def IndexOf (index text : String) : Prop :=
  ∃ found, parse (Literal.unparenthesise text) = .ok (some found) ∧ (index = found.row ∨ index = found.column)

/-- Index texts of index texts come to an end. -/
theorem wellFounded_indexOf : WellFounded IndexOf := by
  refine Subrelation.wf ?_ (measure String.length).wf
  rintro index text ⟨found, hFound, hIndex⟩
  have hShorter := length_lt_of_parse hFound
  have hBare := Phrase.length_unparenthesise_le text
  change index.length < text.length
  rcases hIndex with rfl | rfl <;> omega

/-- A text is read as an element of an array exactly by way of its index texts. -/
theorem indexOf_of_element {description name : String} {row column : Phrase}
    (h : Phrase.parse text = .element description name row column) :
    ∃ found, parse (Literal.unparenthesise text) = .ok (some found) ∧ name = found.name ∧
      row = Phrase.parse found.row ∧ column = Phrase.parse found.column := by
  rw [Phrase.parse, Phrase.ofBare] at h
  split at h
  · cases h
  · split at h
    · cases h
    · next found hFound =>
        cases h
        exact ⟨found, hFound, rfl, rfl, rfl⟩
    · cases h

/-- Array references are read by their grammar. A text is a reference exactly if it is a name,
blanks, and one or two index texts in parentheses, it is foreign to references exactly if it lacks
their outer form, and all else is an error. The index texts are shorter than the trimmed text. An
element of an array is classified by way of its index texts, and these are at some point no more
elements. -/
theorem parse_accepts_references (text : String) :
    (∀ index, parse text = .ok (some index) ↔ Reads (strip text.toList) index) ∧
    (parse text = .ok none ↔ Foreign (strip text.toList)) ∧
    ((∃ e, parse text = .error e) ↔ (∀ index, ¬ Reads (strip text.toList) index) ∧
      ¬ Foreign (strip text.toList)) ∧
    (∀ index, parse text = .ok (some index) → index.row.length < (strip text.toList).length ∧
      index.column.length < (strip text.toList).length) ∧
    (∀ {description name row column}, Phrase.parse text = .element description name row column →
      ∃ found : ArrayIndex, IndexOf found.row text ∧ IndexOf found.column text ∧ name = found.name ∧
        row = Phrase.parse found.row ∧ column = Phrase.parse found.column) ∧
    WellFounded IndexOf := by
  refine ⟨fun _ => parse_eq_some_iff, parse_eq_none_iff, ?_, fun _ h => (parse_eq_some_iff.mp h).length_lt,
    fun h => ?_, wellFounded_indexOf⟩
  · simp only [← parse_eq_some_iff, ← parse_eq_none_iff]
    rcases parse text with e | _ | index <;> simp
  · obtain ⟨found, hFound, hParts⟩ := indexOf_of_element h
    exact ⟨found, ⟨found, hFound, .inl rfl⟩, ⟨found, hFound, .inr rfl⟩, hParts⟩

end Mission.ArrayIndex
