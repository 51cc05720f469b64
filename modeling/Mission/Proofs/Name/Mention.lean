import Mission.Proofs.Name.Reversal

/-! What a text mentions: the identifiers that stand in it. Two texts are alike for a name if they
are the same or the first one mentions the name; so a text that does not mention it is alike only to
itself. -/
namespace Mission

open List Name Property Text String

/-! ### Identifiers in pieces of a text -/

namespace Property

variable {separates : Char → Bool}

/-- A run stands between separators. -/
theorem exists_of_mem_runs {word cs run : List Char} (h : word ∈ runs separates cs run) :
    ∃ front back, run.reverse ++ cs = front ++ word ++ back ∧
      (∀ c ∈ front.getLast?, separates c = true) ∧ ∀ c ∈ back.head?, separates c = true := by
  induction cs generalizing run with
  | nil =>
    rw [runs] at h
    split at h
    · cases h
    · rw [mem_singleton.mp h]
      exact ⟨[], [], by simp, by simp, by simp⟩
  | cons c cs ih =>
    rw [runs] at h
    by_cases hc : separates c = true
    · -- The run so far ends here, and the word is that run or one of those behind it.
      rw [if_pos hc] at h
      have hCases : word = run.reverse ∨ word ∈ runs separates cs [] := by
        split at h
        · exact .inr h
        · exact mem_cons.mp h
      rcases hCases with rfl | hWord
      · refine ⟨[], c :: cs, by simp, by simp, ?_⟩
        rintro d ⟨⟩
        exact hc
      · obtain ⟨front, back, hSplit, hFront, hBack⟩ := ih hWord
        refine ⟨run.reverse ++ c :: front, back, ?_, ?_, hBack⟩
        · rw [reverse_nil, nil_append] at hSplit
          simp [hSplit]
        · intro d hd
          rw [List.getLast?_append, List.getLast?_cons] at hd
          cases hLast : front.getLast? with
          | none =>
            simp [hLast] at hd
            rw [← hd, hc]
          | some e =>
            simp [hLast] at hd
            exact hd ▸ hFront e hLast
    · rw [if_neg hc] at h
      simpa using ih h

end Property

namespace Name

variable {name xs ys cs : List Char} {text old new : String} {c : Char} {p : Char → Bool}

theorem standsIn_of_mem_identifiers {name : String} (h : name ∈ identifiers text) :
    StandsIn name.toList [] text.toList := by
  obtain ⟨word, hWord, rfl⟩ := mem_map.mp h
  obtain ⟨front, back, hSplit, hFront, hBack⟩ := exists_of_mem_runs hWord
  rw [toList_ofList]
  refine ⟨front, back, by simpa using hSplit, ?_, ?_⟩
  · rw [nil_append]
    cases hLast : front.getLast? with
    | none => rfl
    | some c => simpa using hFront c hLast
  · cases hHead : back.head? with
    | none => rfl
    | some c => simpa using hBack c hHead

/-- An identifier that stands in two texts behind one another, between which it cannot be, stands in
one of them. -/
theorem standsIn_append (hName : IsIdentifier name) (hc : isNameChar c = false)
    (h : StandsIn name [] (xs ++ c :: ys)) : StandsIn name [] xs ∨ StandsIn name [] ys := by
  obtain ⟨front, back, hSplit, hFront, hBack⟩ := h
  rw [List.nil_append] at hFront
  have hNot : c ∉ name := by
    intro hMem
    rw [hName.isNameChar c hMem] at hc
    cases hc
  rw [List.append_assoc, List.append_eq_append_iff] at hSplit
  rcases hSplit with ⟨more, hFront', hRest⟩ | ⟨more, hXs, hRest⟩
  · -- The name begins behind the first text.
    cases more with
    | nil =>
      rw [List.nil_append] at hRest
      cases name with
      | nil => exact absurd rfl hName.ne_nil
      | cons d name =>
        cases hRest
        exact absurd List.mem_cons_self hNot
    | cons d more =>
      cases hRest
      refine .inr ⟨more, back, by simp, ?_, hBack⟩
      rw [List.nil_append]
      rw [hFront', List.getLast?_append] at hFront
      cases more with
      | nil => rfl
      | cons e more =>
        rw [List.getLast?_cons_cons] at hFront
        cases hLast : (e :: more).getLast? with
        | none => simp at hLast
        | some f =>
          rw [hLast] at hFront
          exact hFront
  · rw [List.append_eq_append_iff] at hRest
    rcases hRest with ⟨after, rfl, rfl⟩ | ⟨after, hEnd, hRest⟩
    · refine .inl ⟨front, after, by simp [hXs], hFront, ?_⟩
      cases after with
      | nil => rfl
      | cons d after => exact hBack
    · cases after with
      | nil =>
        rw [List.append_nil] at hEnd
        exact .inl ⟨front, [], by simp [hXs, hEnd], hFront, rfl⟩
      | cons d after =>
        cases hRest
        exact absurd (by simp [hEnd]) hNot

theorem StandsIn.in_front (h : StandsIn name [] xs) (hc : isNameChar c = false) (ys : List Char) :
    StandsIn name [] (xs ++ c :: ys) := by
  obtain ⟨front, back, rfl, hFront, hBack⟩ := h
  refine ⟨front, back ++ c :: ys, by simp, hFront, ?_⟩
  cases back with
  | nil => simpa using hc
  | cons d back => exact hBack

theorem StandsIn.behind (h : StandsIn name [] ys) (hc : isNameChar c = false) (xs : List Char) :
    StandsIn name [] (xs ++ c :: ys) := by
  obtain ⟨front, back, rfl, hFront, hBack⟩ := h
  refine ⟨xs ++ c :: front, back, by simp, ?_, hBack⟩
  rw [nil_append] at hFront ⊢
  rw [List.getLast?_append, List.getLast?_cons]
  cases hLast : front.getLast? with
  | none => simpa using hc
  | some d =>
    rw [hLast] at hFront
    exact hFront

/-- Where a text is cut at characters that no identifier has, each identifier stands in one of the
pieces. -/
theorem exists_run_of_standsIn {separates : Char → Bool} (hName : IsIdentifier name)
    (hSeparates : ∀ c, separates c = true → isNameChar c = false) {run : List Char}
    (h : StandsIn name [] (run.reverse ++ cs)) : ∃ word ∈ runs separates cs run, StandsIn name [] word := by
  have hEmpty : ∀ {cs : List Char}, StandsIn name [] cs → ¬ cs.isEmpty = true := by
    rintro cs ⟨front, back, rfl, -, -⟩ hNil
    simp [hName.ne_nil] at hNil
  induction cs generalizing run with
  | nil =>
    rw [append_nil] at h
    have hFull := hEmpty h
    rw [runs, if_neg (by simpa using hFull)]
    exact ⟨run.reverse, by simp, h⟩
  | cons c cs ih =>
    rw [runs]
    by_cases hc : separates c = true
    · rw [if_pos hc]
      rcases standsIn_append hName (hSeparates c hc) h with hRun | hRest
      · have hFull := hEmpty hRun
        rw [if_neg (by simpa using hFull)]
        exact ⟨run.reverse, mem_cons_self, hRun⟩
      · rw [← nil_append cs, ← reverse_nil] at hRest
        obtain ⟨word, hWord, hStands⟩ := ih hRest
        refine ⟨word, ?_, hStands⟩
        split
        · exact hWord
        · exact mem_cons_of_mem _ hWord
    · rw [if_neg hc]
      exact ih (by simpa using h)

/-- Characters that no identifier has can be dropped at both ends. -/
theorem standsIn_dropWhile (hName : IsIdentifier name) (hp : ∀ c, p c = true → isNameChar c = false)
    (h : StandsIn name [] cs) : StandsIn name [] (cs.dropWhile p) := by
  induction cs with
  | nil => exact h
  | cons c cs ih =>
    rw [dropWhile_cons]
    split
    · next hc =>
        rw [← nil_append (c :: cs)] at h
        rcases standsIn_append hName (hp c hc) h with ⟨front, back, hNil, -⟩ | hRest
        · simp [hName.ne_nil] at hNil
        · exact ih hRest
    · exact h

theorem standsIn_dropWhile_reverse (hName : IsIdentifier name) (hp : ∀ c, p c = true → isNameChar c = false)
    (h : StandsIn name [] cs) : StandsIn name [] (cs.reverse.dropWhile p).reverse := by
  induction cs using List.reverseRecOn with
  | nil => exact h
  | append_singleton cs c ih =>
    rw [reverse_append, reverse_singleton, singleton_append, dropWhile_cons]
    split
    · next hc =>
        rcases standsIn_append hName (hp c hc) h with hRest | ⟨front, back, hNil, -⟩
        · exact ih hRest
        · simp [hName.ne_nil] at hNil
    · simpa using h

theorem not_isNameChar_of_isBlank (h : isBlank c = true) : isNameChar c = false := by
  have hDotted := (Expr.ends_of_isBlank h).1
  simp only [Expr.isDottedChar, Bool.or_eq_false_iff] at hDotted
  exact hDotted.1

/-- A list of names mentions what the text mentions that it was read from. -/
theorem exists_mem_nameList {name : String} (hName : IsIdentifier name.toList) (h : name ∈ identifiers text) :
    ∃ item ∈ nameList text, name ∈ identifiers item := by
  have hBlank : ∀ c, isBlank c = true → isNameChar c = false := fun _ => not_isNameChar_of_isBlank
  have hStrip : StandsIn name.toList [] (strip text.toList) :=
    standsIn_dropWhile_reverse hName hBlank
      (standsIn_dropWhile hName hBlank (standsIn_of_mem_identifiers h))
  have hInner : StandsIn name.toList []
      (((strip text.toList).dropWhile (· = '\x7b')).reverse.dropWhile (· = '\x7d')).reverse := by
    refine standsIn_dropWhile_reverse hName ?_ (standsIn_dropWhile hName ?_ hStrip)
    · intro c hc
      rw [of_decide_eq_true hc]
      rfl
    · intro c hc
      rw [of_decide_eq_true hc]
      rfl
  have hSeparates : ∀ c, (decide (c = ',') || isBlank c) = true → isNameChar c = false := by
    intro c hc
    rcases Bool.or_eq_true_iff.mp hc with hComma | hBlankChar
    · rw [of_decide_eq_true hComma]
      rfl
    · exact hBlank c hBlankChar
  rw [← nil_append (List.reverse _), ← reverse_nil] at hInner
  obtain ⟨word, hWord, hStands⟩ := exists_run_of_standsIn hName hSeparates hInner
  refine ⟨String.ofList word, mem_map_of_mem hWord, StandsIn.mem_identifiers hName ?_⟩
  rwa [toList_ofList]

/-- The texts are the same, or the first one mentions the name. -/
def Alike (name text text' : String) : Prop :=
  text' = text ∨ name ∈ identifiers text

theorem Alike.refl (name text : String) : Alike name text text :=
  .inl rfl

theorem replace_of_not_mem (hOld : IsIdentifier old.toList) (h : old ∉ identifiers text) :
    replace text old new = text := by
  have hNone : ¬ RefersIn old.toList [] text.toList [] := by
    rintro ⟨passed, ahead, hSplit, hAhead, hRef⟩
    rw [append_nil] at hRef
    obtain ⟨rest, rfl⟩ := exists_of_isReference hRef
    refine h (StandsIn.mem_identifiers hOld ⟨passed, rest, by rw [hSplit, List.append_assoc], ?_, ?_⟩)
    · exact not_isNameChar_of_isReference hRef
    · exact head_of_isReference hRef
  have hCopy : renamedFrom old.toList new.toList [] (text.toList ++ []) = text.toList ++ _ :=
    renamedFrom_of_not_refersIn hOld hNone
  rw [append_nil] at hCopy
  rw [replace_eq_renamedFrom hOld, hCopy]
  simp [renamedFrom, replaceFrom]

theorem alike_replace (hOld : IsIdentifier old.toList) (text : String) :
    Alike old text (replace text old new) := by
  by_cases h : old ∈ identifiers text
  · exact .inr h
  · exact .inl (replace_of_not_mem hOld h)

/-- The text mentions neither of two names. -/
def Neither (old new text : String) : Prop :=
  old ∉ identifiers text ∧ new ∉ identifiers text

instance (old new text : String) : Decidable (Neither old new text) :=
  inferInstanceAs (Decidable (_ ∧ _))

theorem neither_empty (old new : String) : Neither old new "" :=
  ⟨not_mem_nil, not_mem_nil⟩

/-- The text of a list mentions what its items mention. -/
theorem mem_identifiers_toText {name : String} (hName : IsIdentifier name.toList) {items : List String}
    (h : ∃ item ∈ items, name ∈ identifiers item) : name ∈ identifiers (Value.stringArray items).toText := by
  have hItems : StandsIn name.toList [] (", ".toList.intercalate (items.map String.toList)) := by
    obtain ⟨item, hItem, hMentions⟩ := h
    have hStands := standsIn_of_mem_identifiers hMentions
    induction items with
    | nil => cases hItem
    | cons first rest ih =>
      cases rest with
      | nil =>
        rw [mem_singleton.mp hItem] at hStands
        simpa using hStands
      | cons second rest =>
        rw [List.map_cons, List.map_cons, List.intercalate_cons_cons, List.append_assoc]
        rcases mem_cons.mp hItem with rfl | hLater
        · exact hStands.in_front rfl _
        · change StandsIn _ _ (first.toList ++ ',' :: (' ' :: _))
          rw [append_cons]
          exact (ih hLater).behind rfl _
  refine StandsIn.mem_identifiers hName ?_
  rw [Value.toText, toList_append, toList_append, toList_intercalate]
  exact (hItems.behind rfl []).in_front rfl []

/-- A word of name characters mentions nothing but itself. -/
theorem eq_of_mem_identifiers {name : String} (hText : text.toList.all isNameChar = true)
    (h : name ∈ identifiers text) : name = text := by
  have hRuns : ∀ (cs run : List Char), (∀ c ∈ cs, isNameChar c = true) →
      ∀ word ∈ runs (fun c => !isNameChar c) cs run, word = run.reverse ++ cs := by
    intro cs
    induction cs with
    | nil =>
      intro run _ word hWord
      rw [runs] at hWord
      split at hWord
      · cases hWord
      · rw [mem_singleton.mp hWord, append_nil]
    | cons c cs ih =>
      intro run hAll word hWord
      rw [forall_mem_cons] at hAll
      rw [runs, if_neg (by simp [hAll.1])] at hWord
      simpa using ih (c :: run) hAll.2 word hWord
  obtain ⟨word, hWord, rfl⟩ := mem_map.mp h
  rw [hRuns text.toList [] (all_eq_true.mp hText) word hWord, reverse_nil, nil_append,
    ofList_toList]

end Name

/-! ### Words -/

namespace Value

theorem isNameChar_of_toLower {c : Char} (h : c.toLower.isAlpha = true) : isNameChar c = true := by
  by_cases hUpper : c.isUpper = true
  · exact isNameChar_of_isAlpha (Bool.or_eq_true_iff.mpr (.inl hUpper))
  · have hSame : c.toLower = c := dif_neg fun hRange => hUpper (decide_eq_true hRange)
    rw [hSame] at h
    exact isNameChar_of_isAlpha h

/-- Spelled in other cases, a word of letters is one still. -/
theorem all_isNameChar_of_equals {text word : String} (h : equalsIgnoringCase text word = true)
    (hWord : (word.toList.map Char.toLower).all Char.isAlpha = true) : text.toList.all isNameChar = true := by
  rw [equalsIgnoringCase, beq_iff_eq] at h
  rw [← h, all_map] at hWord
  refine all_eq_true.mpr fun c hc => isNameChar_of_toLower ?_
  exact all_eq_true.mp hWord c hc

theorem eq_of_truthWord? {old text : String} {flag : Bool} (h : truthWord? text = some flag)
    (hText : old ∈ identifiers text) : old = text := by
  refine eq_of_mem_identifiers ?_ hText
  unfold truthWord? at h
  split at h
  · next hWord => exact all_isNameChar_of_equals hWord (by decide)
  · split at h
    · next hWord => exact all_isNameChar_of_equals hWord (by decide)
    · cases h

theorem eq_of_flagWord? {old text : String} {flag : Bool} (h : flagWord? text = some flag)
    (hText : old ∈ identifiers text) : old = text := by
  refine eq_of_mem_identifiers ?_ hText
  unfold flagWord? at h
  split at h
  · next hWord => exact all_isNameChar_of_equals hWord (by decide)
  · split at h
    · next hWord => exact all_isNameChar_of_equals hWord (by decide)
    · cases h

end Value

end Mission
