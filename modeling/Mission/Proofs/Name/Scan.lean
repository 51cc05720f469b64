import Mission.Proofs.Expr.Literal

/-! The renaming scan, seen from the text it has passed. Whether it is inside quotes and which
character it saw last are functions of that text alone, so the scan is a relation between the text
passed, the text to come and what becomes of it: `Scanned`. It works on any piece of a text as it works
on the whole, as long as the piece is not continued by what follows it. -/
namespace Mission.Name

open Mission.Expr Mission.Text List

variable {text old new : String} {cs : List Char}

/-- A letter followed by name characters. -/
def IsIdentifier (cs : List Char) : Prop :=
  ∃ c rest, cs = c :: rest ∧ c.isAlpha = true ∧ rest.all isNameChar = true

theorem isIdentifier_of_isValid (h : isValid text = true) : IsIdentifier text.toList := by
  unfold isValid at h
  split at h
  · cases h
  · next c rest hChars =>
      have hBoth : c.isAlpha = true ∧ rest.all isNameChar = true := by simpa using h
      exact ⟨c, rest, hChars, hBoth.1, hBoth.2⟩

theorem isNameChar_of_isAlpha {c : Char} (h : c.isAlpha = true) : isNameChar c = true := by
  simp [isNameChar, Char.isAlphanum, h]

theorem IsIdentifier.isNameChar {cs : List Char} (h : IsIdentifier cs) :
    ∀ c ∈ cs, isNameChar c = true := by
  obtain ⟨c, rest, rfl, hAlpha, hRest⟩ := h
  intro d hd
  rcases mem_cons.mp hd with rfl | hd
  · exact isNameChar_of_isAlpha hAlpha
  · exact all_eq_true.mp hRest d hd

theorem IsIdentifier.ne_nil (h : IsIdentifier cs) : cs ≠ [] := by
  obtain ⟨c, rest, rfl, -⟩ := h
  exact cons_ne_nil c rest

theorem IsIdentifier.quote_not_mem (h : IsIdentifier cs) : quote ∉ cs := by
  intro hMem
  have hQuote := h.isNameChar quote hMem
  cases hQuote

/-- Whether a text has an odd number of quotes, so that the scan takes what follows for quoted. -/
def oddQuotes (cs : List Char) : Bool :=
  cs.count quote % 2 = 1

@[simp] theorem oddQuotes_nil : oddQuotes [] = false :=
  rfl

theorem oddQuotes_append (xs ys : List Char) :
    oddQuotes (xs ++ ys) = (oddQuotes xs ^^ oddQuotes ys) := by
  simp only [oddQuotes, count_append]
  rcases Nat.mod_two_eq_zero_or_one (xs.count quote) with hx | hx <;>
    rcases Nat.mod_two_eq_zero_or_one (ys.count quote) with hy | hy <;>
    simp [Nat.add_mod, hx, hy]

theorem oddQuotes_eq_false (h : quote ∉ cs) : oddQuotes cs = false := by
  simp [oddQuotes, count_eq_zero.mpr h]

theorem oddQuotes_singleton (c : Char) : oddQuotes [c] = decide (c = quote) := by
  by_cases hc : c = quote
  · subst hc
    rfl
  · simp [oddQuotes, hc]

/-- The renaming of `cs` where the text `before` has been passed already. -/
def renamedFrom (old new before cs : List Char) : List Char :=
  replaceFrom old new cs 0 (oddQuotes before) before.getLast?

section

variable {old new : List Char}
variable {c d : Char} {prev : Option Char} {rest before cs before' name gap : List Char}

theorem replaceFrom_skip (passed rest : List Char) (quoted : Bool) (prev : Option Char) :
    replaceFrom old new (passed ++ rest) passed.length quoted prev =
      replaceFrom old new rest 0 quoted prev := by
  induction passed with
  | nil => rfl
  | cons c passed ih =>
    simp only [cons_append, length_cons, replaceFrom]
    exact ih

theorem isReference_head (hOld : IsIdentifier old) (h : isReference old prev (c :: rest) = true) :
    c.isAlpha = true := by
  obtain ⟨d, tail, rfl, hAlpha, -⟩ := hOld
  have hFront : d = c := by
    simp only [isReference, Bool.and_eq_true, List.isPrefixOf] at h
    simpa using h.1.1.1.1
  rwa [← hFront]

/-- What does not refer to the old name, and what the scan takes for quoted, is copied. -/
theorem renamedFrom_copy (hOld : IsIdentifier old)
    (h : isReference old before.getLast? (c :: rest) = true → oddQuotes before = true) :
    renamedFrom old new before (c :: rest) = c :: renamedFrom old new (before ++ [c]) rest := by
  have hOdd : oddQuotes (before ++ [c]) = if c = quote then !oddQuotes before else oddQuotes before := by
    rw [oddQuotes_append, oddQuotes_singleton]
    by_cases hc : c = quote <;> simp [hc]
  have hKept : ¬ (!(if c = quote then !oddQuotes before else oddQuotes before) &&
      isReference old before.getLast? (c :: rest)) = true := by
    intro hBoth
    obtain ⟨hPlain, hRef⟩ := Bool.and_eq_true_iff.mp hBoth
    have hc : c ≠ quote := by
      rintro rfl
      exact absurd (isReference_head hOld hRef) (by decide)
    simp [hc, h hRef] at hPlain
  simp only [renamedFrom, replaceFrom, if_neg hKept, hOdd, List.getLast?_concat]

/-- A reference that the scan does not take for quoted is replaced. -/
theorem renamedFrom_replace (hOld : IsIdentifier old)
    (hRef : isReference old before.getLast? (old ++ rest) = true) (hPlain : oddQuotes before = false) :
    renamedFrom old new before (old ++ rest) = new ++ renamedFrom old new (before ++ old) rest := by
  have hQuote := hOld.quote_not_mem
  obtain ⟨c, tail, rfl, hAlpha, -⟩ := hOld
  have hc : c ≠ quote := by
    rintro rfl
    exact absurd hAlpha (by decide)
  have hOdd : oddQuotes (before ++ c :: tail) = oddQuotes before := by
    rw [oddQuotes_append, oddQuotes_eq_false hQuote, Bool.xor_false]
  have hLast : (before ++ c :: tail).getLast? = (c :: tail).getLast? := by
    rw [List.getLast?_append, List.getLast?_eq_some_getLast (cons_ne_nil c tail), Option.some_or]
  rw [cons_append] at hRef ⊢
  simp only [renamedFrom, replaceFrom, hc, if_false, hPlain, hRef, Bool.not_false, Bool.and_true,
    if_true, length_cons, Nat.add_sub_cancel, replaceFrom_skip, hOdd, hLast]

/-- The scan of a text behind the text `before`. -/
inductive Scanned (old new : List Char) : List Char → List Char → List Char → Prop
  | nil {before : List Char} : Scanned old new before [] []
  | copy {before rest out : List Char} {c : Char}
      (hKept : isReference old before.getLast? (c :: rest) = true → oddQuotes before = true)
      (hRest : Scanned old new (before ++ [c]) rest out) :
      Scanned old new before (c :: rest) (c :: out)
  | replace {before rest out : List Char}
      (hRef : isReference old before.getLast? (old ++ rest) = true)
      (hPlain : oddQuotes before = false) (hRest : Scanned old new (before ++ old) rest out) :
      Scanned old new before (old ++ rest) (new ++ out)

theorem Scanned.eq_renamedFrom {out : List Char} (hOld : IsIdentifier old)
    (h : Scanned old new before cs out) : out = renamedFrom old new before cs := by
  induction h with
  | nil => rfl
  | copy hKept _ ih => rw [renamedFrom_copy hOld hKept, ih]
  | replace hRef hPlain _ ih => rw [renamedFrom_replace hOld hRef hPlain, ih]

theorem exists_of_isReference (h : isReference old prev cs = true) : ∃ rest, cs = old ++ rest := by
  simp only [isReference, Bool.and_eq_true, isPrefixOf_iff_prefix] at h
  obtain ⟨rest, hRest⟩ := h.1.1.1
  exact ⟨rest, hRest.symm⟩

theorem scanned_renamedFrom (hOld : IsIdentifier old) (before cs : List Char) :
    Scanned old new before cs (renamedFrom old new before cs) := by
  induction hLength : cs.length using Nat.strongRecOn generalizing before cs with
  | ind n ih =>
    by_cases hReplaced : isReference old before.getLast? cs = true ∧ oddQuotes before = false
    · obtain ⟨hRef, hPlain⟩ := hReplaced
      obtain ⟨rest, rfl⟩ := exists_of_isReference hRef
      have hPos := length_pos_iff.mpr hOld.ne_nil
      have hRest := ih rest.length (by simp at hLength; omega) (before ++ old) rest rfl
      rw [renamedFrom_replace hOld hRef hPlain]
      exact .replace hRef hPlain hRest
    · cases cs with
      | nil => exact .nil
      | cons c rest =>
        have hKept : isReference old before.getLast? (c :: rest) = true →
            oddQuotes before = true := by
          intro hRef
          by_contra hPlain
          exact hReplaced ⟨hRef, by simpa using hPlain⟩
        have hRest := ih rest.length (by simp at hLength; omega) (before ++ [c]) rest rfl
        rw [renamedFrom_copy hOld hKept]
        exact .copy hKept hRest

/-! ### Pieces of a text -/

/-- A name at the front of a text lies within the first piece of it, unless the piece is continued. -/
theorem prefix_of_prefix_append (hOld : IsIdentifier old) (hRest : Detached rest) (h : old <+: cs ++ rest) :
    old <+: cs := by
  obtain ⟨behind, hBehind⟩ := h
  rcases append_eq_append_iff.mp hBehind with ⟨more, hMore, -⟩ | ⟨more, hMore, hRestEq⟩
  · exact ⟨more, hMore.symm⟩
  · cases more with
    | nil => exact ⟨[], hMore ▸ (append_nil _).trans (append_nil _)⟩
    | cons c more =>
      have hChar : isNameChar c = true := hOld.isNameChar c (by simp [hMore])
      have hPlain := hRest c (by simp [hRestEq])
      simp [isDottedChar, hChar] at hPlain

/-- Whether a name refers to an object does not depend on what follows a piece that is not
continued. -/
theorem isReference_append (hOld : IsIdentifier old) (hRest : Detached rest) :
    isReference old prev (cs ++ rest) = isReference old prev cs := by
  by_cases hPrefix : old <+: cs
  · obtain ⟨behind, rfl⟩ := hPrefix
    have hFront : old.isPrefixOf (old ++ behind ++ rest) = true :=
      isPrefixOf_iff_prefix.mpr ⟨behind ++ rest, (append_assoc ..).symm⟩
    have hAlone : old.isPrefixOf (old ++ behind) = true :=
      isPrefixOf_iff_prefix.mpr ⟨behind, rfl⟩
    simp only [isReference, hFront, hAlone]
    rw [append_assoc, drop_left, drop_left]
    cases behind with
    | nil =>
      have hPoint := hRest.head_ne_point
      simp [hRest.head_not_isNameChar, hPoint]
    | cons c behind => rfl
  · have hLonger : ¬ old <+: cs ++ rest := fun h => hPrefix (prefix_of_prefix_append hOld hRest h)
    have hFalse : ∀ text, ¬ old <+: text → isReference old prev text = false := by
      intro text hText
      have hNot : old.isPrefixOf text = false := by
        simpa [← isPrefixOf_iff_prefix] using hText
      simp [isReference, hNot]
    rw [hFalse _ hLonger, hFalse _ hPrefix]

/-- The scan of a text is the scan of a piece followed by that of the rest. -/
theorem renamedFrom_append (hOld : IsIdentifier old) (hRest : Detached rest) (cs : List Char) :
    renamedFrom old new before (cs ++ rest) =
      renamedFrom old new before cs ++ renamedFrom old new (before ++ cs) rest := by
  have hScan : Scanned old new before cs _ := scanned_renamedFrom hOld before cs
  generalize renamedFrom old new before cs = out at hScan ⊢
  induction hScan with
  | nil =>
    rw [append_nil]
    rfl
  | @copy before piece out c hKept _ ih =>
    rw [cons_append, renamedFrom_copy hOld ?_, ih, append_assoc]
    · rfl
    · intro hRef
      rw [← cons_append, isReference_append hOld hRest] at hRef
      exact hKept hRef
  | @replace before piece out hRef hPlain _ ih =>
    rw [append_assoc, renamedFrom_replace hOld ?_ hPlain, ih, append_assoc,
      append_assoc]
    rw [← append_assoc, isReference_append hOld hRest, hRef]

/-- A reference in the piece `cs`, which stands between `before` and `rest`. -/
def RefersIn (old before cs rest : List Char) : Prop :=
  ∃ passed ahead, cs = passed ++ ahead ∧ ahead ≠ [] ∧
    isReference old (before ++ passed).getLast? (ahead ++ rest) = true

theorem refersIn_cons :
    RefersIn old before (c :: cs) rest ↔
      isReference old before.getLast? (c :: cs ++ rest) = true ∨
        RefersIn old (before ++ [c]) cs rest := by
  constructor
  · rintro ⟨passed, ahead, hSplit, hAhead, hRef⟩
    cases passed with
    | nil =>
      cases hSplit
      rw [append_nil] at hRef
      exact .inl hRef
    | cons d passed =>
      cases hSplit
      refine .inr ⟨passed, ahead, rfl, hAhead, ?_⟩
      rwa [append_assoc]
  · rintro (hRef | ⟨passed, ahead, rfl, hAhead, hRef⟩)
    · exact ⟨[], c :: cs, rfl, cons_ne_nil c cs, by rwa [append_nil]⟩
    · refine ⟨c :: passed, ahead, rfl, hAhead, ?_⟩
      rwa [append_assoc] at hRef

theorem refersIn_append {more : List Char} :
    RefersIn old before (cs ++ more) rest ↔
      RefersIn old before cs (more ++ rest) ∨ RefersIn old (before ++ cs) more rest := by
  induction cs generalizing before with
  | nil =>
    rw [append_nil]
    refine ⟨.inr, fun h => h.resolve_left ?_⟩
    rintro ⟨passed, ahead, hSplit, hAhead, -⟩
    exact hAhead (append_eq_nil_iff.mp hSplit.symm).2
  | cons c cs ih =>
    rw [cons_append, refersIn_cons, refersIn_cons, ih, or_assoc, append_assoc,
      cons_append, cons_append, append_assoc]
    rfl

/-- A piece that refers to nothing is copied. -/
theorem renamedFrom_of_not_refersIn (hOld : IsIdentifier old) (h : ¬ RefersIn old before cs rest) :
    renamedFrom old new before (cs ++ rest) = cs ++ renamedFrom old new (before ++ cs) rest := by
  induction cs generalizing before with
  | nil =>
    rw [append_nil]
    rfl
  | cons c cs ih =>
    rw [refersIn_cons, not_or] at h
    have hKept : isReference old before.getLast? (c :: (cs ++ rest)) = true →
        oddQuotes before = true := fun hRef => absurd hRef h.1
    rw [cons_append, renamedFrom_copy hOld hKept, ih h.2, append_assoc]
    rfl

theorem not_refersIn_of_not_isAlpha (hOld : IsIdentifier old) (h : ∀ c ∈ cs, c.isAlpha = false) :
    ¬ RefersIn old before cs rest := by
  rintro ⟨passed, ahead, rfl, hAhead, hRef⟩
  cases ahead with
  | nil => exact hAhead rfl
  | cons c ahead =>
    have hAlpha := isReference_head hOld hRef
    rw [h c (by simp)] at hAlpha
    cases hAlpha

theorem refersIn_of_detached (hOld : IsIdentifier old) (hRest : Detached rest) :
    RefersIn old before cs rest ↔ RefersIn old before cs [] := by
  simp only [RefersIn, isReference_append hOld hRest, append_nil]

/-- What the scan takes for quoted, up to the next quote, is copied. -/
theorem renamedFrom_quoted (hOld : IsIdentifier old) (hOdd : oddQuotes before = true) (hQuote : quote ∉ cs)
    (rest : List Char) :
    renamedFrom old new before (cs ++ rest) = cs ++ renamedFrom old new (before ++ cs) rest := by
  induction cs generalizing before with
  | nil =>
    rw [append_nil]
    rfl
  | cons c cs ih =>
    have hc : c ≠ quote := fun h => hQuote (by simp [h])
    have hStill : oddQuotes (before ++ [c]) = true := by
      rw [oddQuotes_append, oddQuotes_singleton, hOdd, decide_eq_false hc, Bool.xor_false]
    rw [cons_append, renamedFrom_copy hOld fun _ => hOdd,
      ih hStill fun h => hQuote (mem_cons_of_mem c h), append_assoc]
    rfl

/-- The first character stays unless it is a letter. -/
theorem head?_renamedFrom (hOld : IsIdentifier old) (h : ∀ c ∈ cs.head?, c.isAlpha = false) :
    (renamedFrom old new before cs).head? = cs.head? := by
  cases cs with
  | nil => rfl
  | cons c cs =>
    have hKept : isReference old before.getLast? (c :: cs) = true → oddQuotes before = true := by
      intro hRef
      have hAlpha := isReference_head hOld hRef
      rw [h c rfl] at hAlpha
      cases hAlpha
    rw [renamedFrom_copy hOld hKept]
    rfl

/-- The text passed does not reach into what follows it. -/
def Clean (before : List Char) : Prop :=
  ∀ c ∈ before.getLast?, isDottedChar c = false

theorem isReference_of_clean (h : Clean before) :
    isReference old before.getLast? cs = isReference old none cs := by
  cases hLast : before.getLast? with
  | none => rfl
  | some c =>
    have hPlain := h c hLast
    simp only [isDottedChar, Bool.or_eq_false_iff, decide_eq_false_iff_not] at hPlain
    simp [isReference, hPlain]

/-- Behind a clean text the scan depends on the number of quotes only. -/
theorem renamedFrom_of_clean (h : Clean before) (h' : Clean before')
    (hOdd : oddQuotes before = oddQuotes before') (cs : List Char) :
    renamedFrom old new before cs = renamedFrom old new before' cs := by
  cases cs with
  | nil => rfl
  | cons c cs =>
    simp only [renamedFrom, replaceFrom, hOdd, isReference_of_clean h, isReference_of_clean h']

/-- A name refers to the old name only if it is the old name. -/
theorem eq_of_refersIn (hName : name.all isNameChar = true) (h : RefersIn old before name []) :
    name = old := by
  obtain ⟨passed, ahead, rfl, -, hRef⟩ := h
  rw [append_nil] at hRef
  have hChars := all_eq_true.mp hName
  cases hLast : passed.getLast? with
  | none =>
    obtain rfl := List.getLast?_eq_none_iff.mp hLast
    obtain ⟨behind, rfl⟩ := exists_of_isReference hRef
    cases behind with
    | nil => rw [append_nil, nil_append]
    | cons c behind =>
      have hChar : isNameChar c = true := hChars c (by simp)
      simp [isReference, hChar] at hRef
  | some c =>
    have hChar : isNameChar c = true := hChars c (by simp [mem_of_getLast? hLast])
    simp [isReference, hLast, hChar] at hRef

/-- A name without points is replaced as a whole or not at all. -/
theorem renamedFrom_name (hOld : IsIdentifier old) (hClean : Clean before)
    (hName : name.all isNameChar = true) :
    renamedFrom old new before name = name ∨ renamedFrom old new before name = new := by
  rw [← append_nil name]
  by_cases hRefers : RefersIn old before name []
  · obtain rfl := eq_of_refersIn hName hRefers
    cases hOdd : oddQuotes before with
    | true =>
      left
      rw [renamedFrom_quoted hOld hOdd hOld.quote_not_mem]
      rfl
    | false =>
      right
      have hRef : isReference name before.getLast? (name ++ []) = true := by
        rw [isReference_of_clean hClean]
        simp [isReference]
      rw [renamedFrom_replace hOld hRef hOdd]
      exact append_nil new
  · left
    rw [renamedFrom_of_not_refersIn hOld hRefers]
    rfl

/-- A reference is treated differently inside and outside quotes. -/
theorem renamedFrom_ne_of_isReference (hOld : IsIdentifier old) (hNew : IsIdentifier new) (hNe : old ≠ new)
    (hRef : isReference old before.getLast? (old ++ rest) = true) (hPlain : oddQuotes before = false)
    (hOdd : oddQuotes before' = true) :
    renamedFrom old new before (old ++ rest) ≠ renamedFrom old new before' (old ++ rest) := by
  rw [renamedFrom_replace hOld hRef hPlain, renamedFrom_quoted hOld hOdd hOld.quote_not_mem]
  intro hEq
  have hNext : rest.head?.any isNameChar = false := by
    simp only [isReference, Bool.and_eq_true, drop_left] at hRef
    simpa using hRef.1.2
  have hHead : ∀ c ∈ rest.head?, isNameChar c = false := by
    intro c hc
    rw [hc] at hNext
    exact hNext
  have hAlpha : ∀ c ∈ rest.head?, c.isAlpha = false := by
    intro c hc
    by_contra hLetter
    have hChar := hHead c hc
    rw [isNameChar_of_isAlpha (by simpa using hLetter)] at hChar
    cases hChar
  -- Both results start with a whole identifier, so the identifiers are the same.
  have hStop : ∀ text, ∀ c ∈ (renamedFrom old new text rest).head?, isNameChar c = false := by
    intro text c hc
    rw [head?_renamedFrom hOld hAlpha] at hc
    exact hHead c hc
  have hTakeNew := (takeWhile_of_split (p := isNameChar) rfl (all_eq_true.mpr hNew.isNameChar)
    (hStop (before ++ old))).1
  have hTakeOld := (takeWhile_of_split (p := isNameChar) rfl (all_eq_true.mpr hOld.isNameChar)
    (hStop (before' ++ old))).1
  rw [hEq, hTakeOld] at hTakeNew
  exact hNe hTakeNew

/-- The scan of a piece with a reference tells whether it started inside quotes. -/
theorem renamedFrom_ne_of_refersIn (hOld : IsIdentifier old) (hNew : IsIdentifier new) (hNe : old ≠ new)
    (hPrev : ∀ text, isReference old before.getLast? text = isReference old before'.getLast? text)
    (hOdd : oddQuotes before = !oddQuotes before') (h : RefersIn old before cs []) :
    renamedFrom old new before cs ≠ renamedFrom old new before' cs := by
  induction cs generalizing before before' with
  | nil =>
    obtain ⟨passed, ahead, hSplit, hAhead, -⟩ := h
    exact absurd (append_eq_nil_iff.mp hSplit.symm).2 hAhead
  | cons c cs ih =>
    by_cases hRef : isReference old before.getLast? (c :: cs) = true
    · have hRef' := hPrev (c :: cs) ▸ hRef
      obtain ⟨rest, hRest⟩ := exists_of_isReference hRef
      rw [hRest] at hRef hRef' ⊢
      cases hQuoted : oddQuotes before' with
      | true =>
        rw [hQuoted] at hOdd
        exact renamedFrom_ne_of_isReference hOld hNew hNe hRef hOdd hQuoted
      | false =>
        rw [hQuoted] at hOdd
        exact (renamedFrom_ne_of_isReference hOld hNew hNe hRef' hQuoted hOdd).symm
    · rw [refersIn_cons, append_nil] at h
      have hLater := h.resolve_left hRef
      have hRef' : ¬ isReference old before'.getLast? (c :: cs) = true := hPrev (c :: cs) ▸ hRef
      rw [renamedFrom_copy hOld fun h => absurd h hRef, renamedFrom_copy hOld fun h => absurd h hRef']
      intro hEq
      refine ih ?_ ?_ hLater (cons_inj_right c |>.mp hEq)
      · intro text
        rw [List.getLast?_concat, List.getLast?_concat]
      · rw [oddQuotes_append, oddQuotes_append, hOdd, Bool.not_xor]

theorem refersIn_of_clean (h : Clean before) : RefersIn old before cs [] ↔ RefersIn old [] cs [] := by
  have hSame : ∀ passed text, isReference old (before ++ passed).getLast? text =
      isReference old ([] ++ passed).getLast? text := by
    intro passed text
    cases passed with
    | nil =>
      rw [append_nil]
      exact isReference_of_clean h
    | cons c passed =>
      rw [List.getLast?_append, List.getLast?_eq_some_getLast (cons_ne_nil c passed),
        Option.some_or, nil_append, List.getLast?_eq_some_getLast (cons_ne_nil c passed)]
  simp only [RefersIn, hSame]

/-- A piece is renamed as it is on its own, unless the scan takes it for quoted and it has a
reference. -/
theorem renamedFrom_eq_alone_iff (hOld : IsIdentifier old) (hNew : IsIdentifier new) (hNe : old ≠ new)
    (hClean : Clean before) :
    renamedFrom old new before cs = renamedFrom old new [] cs ↔
      (RefersIn old before cs [] → oddQuotes before = false) := by
  have hStart : Clean [] := by simp [Clean]
  constructor
  · intro hEq hRefers
    by_contra hOdd
    refine renamedFrom_ne_of_refersIn hOld hNew hNe (fun text => isReference_of_clean hClean) ?_
      hRefers hEq
    simpa using hOdd
  · intro h
    by_cases hRefers : RefersIn old before cs []
    · exact renamedFrom_of_clean hClean hStart (h hRefers) cs
    · have hAlone : ¬ RefersIn old [] cs [] := fun h => hRefers ((refersIn_of_clean hClean).mpr h)
      rw [← append_nil cs, renamedFrom_of_not_refersIn hOld hRefers,
        renamedFrom_of_not_refersIn hOld hAlone]
      rfl

theorem clean_quote (before : List Char) : Clean (before ++ [quote]) := by
  intro c hc
  rw [List.getLast?_concat] at hc
  cases hc
  rfl

/-- A piece without quotes is copied, unless the scan takes it for unquoted and it has a reference. -/
theorem renamedFrom_eq_self_iff (hOld : IsIdentifier old) (hNew : IsIdentifier new) (hNe : old ≠ new)
    (hClean : Clean before) (hQuote : quote ∉ cs) :
    renamedFrom old new before cs = cs ↔ (RefersIn old before cs [] → oddQuotes before = true) := by
  have hCopied : ∀ {text}, oddQuotes text = true → renamedFrom old new text cs = cs := by
    intro text hOdd
    rw [← append_nil cs, renamedFrom_quoted hOld hOdd hQuote]
    rfl
  constructor
  · intro hEq hRefers
    by_contra hOdd
    have hPlain : oddQuotes before = false := by simpa using hOdd
    have hFlip : oddQuotes (before ++ [quote]) = true := by
      rw [oddQuotes_append, hPlain, oddQuotes_singleton]
      rfl
    refine renamedFrom_ne_of_refersIn hOld hNew hNe (fun text => ?_) ?_ hRefers
      (hEq.trans (hCopied hFlip).symm)
    · rw [isReference_of_clean hClean, isReference_of_clean (clean_quote before)]
    · rw [hFlip, hPlain]
      rfl
  · intro h
    by_cases hRefers : RefersIn old before cs []
    · exact hCopied (h hRefers)
    · rw [← append_nil cs, renamedFrom_of_not_refersIn hOld hRefers]
      rfl

/-! ### What the scan keeps -/

/-- A class of characters that holds of the new name is kept. -/
theorem all_renamedFrom {p : Char → Prop} (hOld : IsIdentifier old) (hNew : ∀ c ∈ new, p c)
    (h : ∀ c ∈ cs, p c) : ∀ c ∈ renamedFrom old new before cs, p c := by
  have hScan : Scanned old new before cs _ := scanned_renamedFrom hOld before cs
  generalize renamedFrom old new before cs = out at hScan
  induction hScan with
  | nil => exact h
  | copy _ _ ih =>
    rw [forall_mem_cons] at h ⊢
    exact ⟨h.1, ih h.2⟩
  | replace _ _ _ ih =>
    rw [forall_mem_append] at h ⊢
    exact ⟨hNew, ih h.2⟩

theorem mem_renamedFrom (hOld : IsIdentifier old) (hd : isNameChar d = false) (h : d ∈ cs) :
    d ∈ renamedFrom old new before cs := by
  have hScan : Scanned old new before cs _ := scanned_renamedFrom hOld before cs
  generalize renamedFrom old new before cs = out at hScan
  induction hScan with
  | nil => exact h
  | copy _ _ ih =>
    rcases mem_cons.mp h with rfl | h
    · exact mem_cons_self
    · exact mem_cons_of_mem _ (ih h)
  | replace _ _ _ ih =>
    rcases mem_append.mp h with h | h
    · rw [hOld.isNameChar d h] at hd
      cases hd
    · exact mem_append_right _ (ih h)

theorem Scanned.eq_nil (hNew : IsIdentifier new) (h : Scanned old new before cs []) : cs = [] := by
  generalize hOut : ([] : List Char) = out at h
  cases h with
  | nil => rfl
  | copy => cases hOut
  | replace => exact absurd (append_eq_nil_iff.mp hOut.symm).1 hNew.ne_nil

/-- A character at the end that belongs to no name was there before. -/
theorem getLast?_renamedFrom (hOld : IsIdentifier old) (hNew : IsIdentifier new) (hd : isNameChar d = false)
    (h : (renamedFrom old new before cs).getLast? = some d) : cs.getLast? = some d := by
  have hScan : Scanned old new before cs _ := scanned_renamedFrom hOld before cs
  generalize renamedFrom old new before cs = out at hScan h
  induction hScan with
  | nil => exact h
  | @copy before rest out c _ hRest ih =>
    rw [← singleton_append, List.getLast?_append] at h ⊢
    cases hLast : out.getLast? with
    | none =>
      rw [List.getLast?_eq_none_iff.mp hLast] at hRest
      rw [hLast] at h
      rw [hRest.eq_nil hNew]
      exact h
    | some x =>
      rw [hLast] at h ih
      rw [ih h]
      rfl
  | @replace before rest out _ _ hRest ih =>
    rw [List.getLast?_append] at h ⊢
    cases hLast : out.getLast? with
    | none =>
      rw [hLast] at h
      rw [hNew.isNameChar d (mem_of_getLast? h)] at hd
      cases hd
    | some x =>
      rw [hLast] at h ih
      rw [ih h]
      rfl

theorem head_renamedFrom (hOld : IsIdentifier old) (hNew : IsIdentifier new)
    (h : cs.head?.any Char.isAlpha = true) :
    (renamedFrom old new before cs).head?.any Char.isAlpha = true := by
  have hScan : Scanned old new before cs _ := scanned_renamedFrom hOld before cs
  generalize renamedFrom old new before cs = out at hScan
  cases hScan with
  | nil => exact h
  | copy => exact h
  | replace =>
    obtain ⟨c, tail, rfl, hAlpha, -⟩ := hNew
    exact hAlpha

theorem renamedFrom_self (hOld : IsIdentifier old) : renamedFrom old old before cs = cs := by
  have hScan : Scanned old old before cs _ := scanned_renamedFrom hOld before cs
  generalize renamedFrom old old before cs = out at hScan
  induction hScan with
  | nil => rfl
  | copy _ _ ih => rw [ih]
  | replace _ _ _ ih => rw [ih]

/-! ### Blanks around a text -/

theorem not_isAlpha_of_gap (h : Gap gap) : ∀ c ∈ gap, c.isAlpha = false := by
  intro c hc
  have hBlank : isBlank c = true := all_eq_true.mp h c hc
  exact not_isAlpha_of_isDottedChar (ends_of_isBlank hBlank).1

theorem renamedFrom_gap (hOld : IsIdentifier old) (hGap : Gap gap) (before rest : List Char) :
    renamedFrom old new before (gap ++ rest) = gap ++ renamedFrom old new (before ++ gap) rest :=
  renamedFrom_of_not_refersIn hOld (not_refersIn_of_not_isAlpha hOld (not_isAlpha_of_gap hGap))

theorem renamedFrom_eq_of_gap (hOld : IsIdentifier old) (hGap : Gap gap) (before : List Char) :
    renamedFrom old new before gap = gap := by
  have hAll : renamedFrom old new before (gap ++ []) = gap ++ renamedFrom old new (before ++ gap) [] :=
    renamedFrom_gap hOld hGap before []
  rwa [append_nil, show renamedFrom old new (before ++ gap) [] = [] from rfl,
    append_nil] at hAll

theorem head?_renamedFrom_ne (hOld : IsIdentifier old) (hNew : IsIdentifier new) (hd : d.isAlpha = false)
    (hHead : cs.head? ≠ some d) : (renamedFrom old new before cs).head? ≠ some d := by
  cases hAlpha : cs.head?.any Char.isAlpha with
  | true =>
    have hLetter : (renamedFrom old new before cs).head?.any Char.isAlpha = true :=
      head_renamedFrom hOld hNew hAlpha
    intro hEq
    rw [hEq] at hLetter
    rw [Option.any_some, hd] at hLetter
    cases hLetter
  | false =>
    rw [head?_renamedFrom hOld]
    · exact hHead
    · intro c hc
      rw [hc] at hAlpha
      exact hAlpha

theorem head_stripStart_not_isBlank (cs : List Char) :
    ∀ c ∈ (stripStart cs).head?, isBlank c = false := by
  intro c hc
  obtain ⟨after, hFront⟩ := List.head?_eq_some_iff.mp hc
  exact isBlank_of_stripStart hFront

/-- Blanks in front stay, and what stands behind them starts with no blank. -/
theorem stripStart_renamedFrom {body : List Char} (hOld : IsIdentifier old) (hNew : IsIdentifier new)
    (hGap : Gap gap) (hBody : ∀ c ∈ body.head?, isBlank c = false) (before : List Char) :
    stripStart (renamedFrom old new before (gap ++ body)) =
      renamedFrom old new (before ++ gap) body := by
  rw [renamedFrom_gap hOld hGap, stripStart_gap hGap]
  cases hOut : renamedFrom old new (before ++ gap) body with
  | nil => rfl
  | cons d out =>
    refine stripStart_cons ?_ out
    by_contra hBlank
    have hAlpha : d.isAlpha = false := not_isAlpha_of_isDottedChar (ends_of_isBlank (by simpa using hBlank)).1
    have hHead : body.head? ≠ some d := fun hHead => hBlank (by simpa using hBody d hHead)
    have hStart : (renamedFrom old new (before ++ gap) body).head? = some d := by rw [hOut]; rfl
    exact head?_renamedFrom_ne hOld hNew hAlpha hHead hStart

theorem detached_of_gap (h : Gap gap) : Detached gap := by
  cases gap with
  | nil => exact fun _ hc => nomatch hc
  | cons c gap => exact detached_cons (ends_of_isBlank (gap_cons.mp h).1).1

/-- Blanks at the end stay, and what stands in front of them ends in no blank. -/
theorem stripEnd_renamedFrom (hOld : IsIdentifier old) (hNew : IsIdentifier new) (before cs : List Char) :
    stripEnd (renamedFrom old new before cs) = renamedFrom old new before (stripEnd cs) := by
  obtain ⟨gap, hGap, hSplit⟩ := exists_gap_end cs
  have hLast : ∀ c ∈ (renamedFrom old new before (stripEnd cs)).getLast?, isBlank c = false := by
    intro c hc
    by_contra hBlank
    have hPlain : isNameChar c = false := by
      have hDotted := (ends_of_isBlank (by simpa using hBlank)).1
      simp only [isDottedChar, Bool.or_eq_false_iff] at hDotted
      exact hDotted.1
    exact hBlank (getLast?_stripEnd cs c (getLast?_renamedFrom hOld hNew hPlain hc))
  calc stripEnd (renamedFrom old new before cs)
      = stripEnd (renamedFrom old new before (stripEnd cs) ++ gap) := by
        conv_lhs => rw [hSplit]
        rw [renamedFrom_append hOld (detached_of_gap hGap), renamedFrom_eq_of_gap hOld hGap]
    _ = renamedFrom old new before (stripEnd cs) := by
        rw [stripEnd_append hLast, stripEnd_eq_nil hGap, append_nil]

theorem clean_of_gap (h : Gap gap) : Clean gap := fun c hc =>
  (ends_of_isBlank (all_eq_true.mp h c (mem_of_getLast? hc))).1

theorem oddQuotes_gap (h : Gap gap) : oddQuotes gap = false :=
  oddQuotes_eq_false fun hQuote => nomatch all_eq_true.mp h quote hQuote

end

theorem replace_eq_renamedFrom (hOld : IsIdentifier old.toList) :
    replace text old new =
      String.ofList (renamedFrom old.toList new.toList [] text.toList) := by
  have hEmpty : ¬ old.toList.isEmpty = true := by simpa using hOld.ne_nil
  rw [replace, replaceChars, if_neg hEmpty]
  rfl

theorem replace_self (hOld : IsIdentifier old.toList) (text : String) : replace text old old = text := by
  rw [replace_eq_renamedFrom hOld, renamedFrom_self hOld, String.ofList_toList]

theorem trim_replace (hOld : IsIdentifier old.toList) (hNew : IsIdentifier new.toList) (text : String) :
    trim (replace text old new) = replace (trim text) old new := by
  obtain ⟨gap, hGap, hSplit⟩ := exists_gap (stripEnd text.toList)
  refine String.toList_inj.mp ?_
  rw [toList_trim, replace_eq_renamedFrom hOld, replace_eq_renamedFrom hOld, String.toList_ofList,
    String.toList_ofList, toList_trim, stripEnd_renamedFrom hOld hNew]
  conv_lhs => rw [hSplit]
  rw [stripStart_renamedFrom hOld hNew hGap (head_stripStart_not_isBlank _)]
  exact renamedFrom_of_clean (clean_of_gap hGap) (clean_of_gap gap_nil) (oddQuotes_gap hGap) _

end Mission.Name
