import Mission.Equation
import Mission.Proofs.Expr.Blanks
import Mission.Proofs.Expr.Context
import Mission.Proofs.Real.Negation

/-! Renaming in the text of an expression and renaming in its leaves. The renamed text always reads as
an expression of the same build. It is the renamed expression exactly if the renaming scan and the
readers agree about the quotes at each reference to the old name, because a transpose mark opens no
string for the readers but does for the scan.

The proof follows a derivation of the grammar. At each place of the text the scan has passed, what is
left of the text is scanned as it would be on its own, so every derivation has a renamed counterpart,
and the two yield corresponding expressions if and only if what was taken is aligned. -/
namespace Mission.Expr

open Text Name List MathFunction ChainLevel

/-- Two different names, of which none is a function. -/
structure Renaming (old new : List Char) : Prop where
  oldName : IsIdentifier old
  newName : IsIdentifier new
  distinct : old ≠ new
  oldPlain : MathFunction.ofName? (String.ofList old) = none
  newPlain : MathFunction.ofName? (String.ofList new) = none

/-- The expression with its leaves renamed. -/
def renamed (old new : List Char) (e : Expr) : Expr :=
  e.rename (String.ofList old) (String.ofList new)

/-- The expression without its names and strings. -/
def skeleton : Expr → Expr
  | number x => number x
  | string _ => string ""
  | element _ => element ""
  | negate e => negate e.skeleton
  | binary op left right => binary op left.skeleton right.skeleton
  | call f e => call f e.skeleton
  | atan2 y x => atan2 y.skeleton x.skeleton

/-- An expression of the same build, which is the renamed one exactly if `aligned` holds. -/
structure Matches (old new : List Char) (e' e : Expr) (aligned : Prop) : Prop where
  build : e'.skeleton = e.skeleton
  iff : e' = renamed old new e ↔ aligned

/-- The reading `form` of `cs` has a counterpart in the renamed text. It yields the renamed expression
exactly if what was taken is aligned. -/
def Corresponds (old new : List Char) (form : List Char → Expr → List Char → Reading)
    (cs : List Char) (e : Expr) (rest : List Char) : Prop :=
  ∀ before, Open before → ∃ taken e', cs = taken ++ rest ∧
    Reads (form (renamedFrom old new before cs) e' (renamedFrom old new (before ++ taken) rest)) ∧
    Closed (before ++ taken) ∧ Matches old new e' e (AlignedIn old before taken rest)

def Reading.Follows (old new : List Char) : Reading → Prop
  | chain level cs e rest => Corresponds old new (.chain level) cs e rest
  | tail level left cs e rest => ∀ before, Closed before → ∀ left', ∃ taken e', cs = taken ++ rest ∧
      Reads (.tail level left' (renamedFrom old new before cs) e'
        (renamedFrom old new (before ++ taken) rest)) ∧
      Closed (before ++ taken) ∧ (left'.skeleton = left.skeleton → e'.skeleton = e.skeleton) ∧
      (e' = renamed old new e ↔ left' = renamed old new left ∧ AlignedIn old before taken rest)
  | signed cs e rest => Corresponds old new .signed cs e rest
  | power cs e rest => Corresponds old new .power cs e rest
  | operand cs e rest => Corresponds old new .operand cs e rest
  | named cs e rest => cs.head?.any Char.isAlpha = true → Corresponds old new .named cs e rest
  | arguments cs es rest => ∀ before, Open before → ∃ taken es', cs = taken ++ rest ∧
      Reads (.arguments (renamedFrom old new before cs) es'
        (renamedFrom old new (before ++ taken) rest)) ∧
      Closed (before ++ taken) ∧ es'.map skeleton = es.map skeleton ∧
      (es' = es.map (renamed old new) ↔ AlignedIn old before taken rest)

theorem ChainLevel.follows_operand {old new : List Char} {level : ChainLevel} {cs rest : List Char}
    {e : Expr} : (level.operand cs e rest).Follows old new ↔
      Corresponds old new level.operand cs e rest := by
  cases level <;> rfl

/-! ### The scan at the places the readers look at -/

section

variable {old new : List Char}
variable {before cs rest after mid inner name : List Char} {c : Char} {left e e' base : Expr}
  {f : MathFunction}
  {args : List Expr}

theorem alignedIn_of_not_isAlpha (hOld : IsIdentifier old) (h : ∀ c ∈ cs, c.isAlpha = false)
    (rest : List Char) : AlignedIn old before cs rest :=
  alignedIn_of_not_refersIn (not_refersIn_of_not_isAlpha hOld h)

/-- Behind a piece without letters the alignment is that of the rest. -/
theorem alignedIn_append_of_not_isAlpha {more : List Char} (hOld : IsIdentifier old)
    (h : ∀ c ∈ cs, c.isAlpha = false) :
    AlignedIn old before (cs ++ more) rest ↔ AlignedIn old (before ++ cs) more rest := by
  rw [alignedIn_append]
  exact and_iff_right (alignedIn_of_not_isAlpha hOld h _)

/-- A character that is no letter is copied. -/
theorem renamedFrom_of_not_isAlpha (h : Renaming old new) (hc : c.isAlpha = false) :
    renamedFrom old new before (c :: rest) = c :: renamedFrom old new (before ++ [c]) rest := by
  refine renamedFrom_copy h.oldName fun hRef => ?_
  rw [isReference_head h.oldName hRef] at hc
  cases hc

/-- The blanks in front of the text. -/
theorem scan_gap (h : Renaming old new) (cs before : List Char) :
    ∃ gap, Gap gap ∧ cs = gap ++ stripStart cs ∧
      stripStart (renamedFrom old new before cs) = renamedFrom old new (before ++ gap) (stripStart cs) ∧
      (∀ c ∈ gap, c.isAlpha = false) := by
  obtain ⟨gap, hGap, hSplit⟩ := exists_gap cs
  have hStrip := stripStart_renamedFrom h.oldName h.newName hGap (head_stripStart_not_isBlank cs) before
  rw [← hSplit] at hStrip
  exact ⟨gap, hGap, hSplit, hStrip, not_isAlpha_of_gap hGap⟩

/-- The place behind a character that is looked at, with the blanks in front of it. -/
theorem scan_front (h : Renaming old new) (hFront : stripStart cs = c :: after) (hc : c.isAlpha = false)
    (before : List Char) :
    ∃ gap, Gap gap ∧ cs = (gap ++ [c]) ++ after ∧
      stripStart (renamedFrom old new before cs) =
        c :: renamedFrom old new (before ++ (gap ++ [c])) after ∧
      (∀ more rest, AlignedIn old before ((gap ++ [c]) ++ more) rest ↔
        AlignedIn old (before ++ (gap ++ [c])) more rest) := by
  obtain ⟨gap, hGap, hSplit, hStrip, hPlain⟩ := scan_gap h cs before
  rw [hFront] at hSplit hStrip
  refine ⟨gap, hGap, by rw [hSplit, append_assoc]; rfl, ?_, ?_⟩
  · rw [hStrip, ← append_assoc]
    exact renamedFrom_of_not_isAlpha h hc
  · intro more rest
    refine alignedIn_append_of_not_isAlpha h.oldName ?_
    rw [forall_mem_append]
    exact ⟨hPlain, by simpa using hc⟩

theorem detached_renamedFrom (h : Renaming old new) (hRest : Detached rest) :
    Detached (renamedFrom old new before rest) := by
  intro c hc
  rw [head?_renamedFrom h.oldName fun c hc => not_isAlpha_of_isDottedChar (hRest c hc)] at hc
  exact hRest c hc

/-! ### One lemma for each rule of the grammar -/

theorem follows_chain {level : ChainLevel} (hFirst : Corresponds old new level.operand cs left mid)
    (hTail : (Reading.tail level left mid e rest).Follows old new) :
    Corresponds old new (.chain level) cs e rest := by
  intro before hOpen
  obtain ⟨taken₁, left', rfl, hReads₁, hClosed₁, hMatch₁⟩ := hFirst before hOpen
  obtain ⟨taken₂, e', rfl, hReads₂, hClosed₂, hBuild₂, hIff₂⟩ :=
    hTail (before ++ taken₁) hClosed₁ left'
  rw [append_assoc] at hReads₂ hClosed₂
  refine ⟨taken₁ ++ taken₂, e', (append_assoc ..).symm, .chain hReads₁ hReads₂, hClosed₂,
    hBuild₂ hMatch₁.build, ?_⟩
  rw [hIff₂, hMatch₁.iff, alignedIn_append]

theorem follows_tailEnd {level : ChainLevel} (h : Renaming old new)
    (hStop : (stripStart cs).head?.bind level.operator? = none) (hEnds : Ends (stripStart cs)) :
    (Reading.tail level left cs left (stripStart cs)).Follows old new := by
  intro before hClosed left'
  obtain ⟨gap, hGap, hSplit, hStrip, hPlain⟩ := scan_gap h cs before
  refine ⟨gap, left', hSplit, ?_, hClosed.gap hGap, id, ?_⟩
  · rw [← hStrip]
    refine .tailEnd ?_
    rw [hStrip, head?_renamedFrom h.oldName fun c hc => not_isAlpha_of_isDottedChar (hEnds.detached c hc)]
    exact hStop
  · rw [and_iff_left (alignedIn_of_not_isAlpha h.oldName hPlain _)]

theorem binary_eq_renamed_binary {op : BinaryOp} {left' right right' : Expr} :
    binary op left' right' = renamed old new (binary op left right) ↔
      left' = renamed old new left ∧ right' = renamed old new right := by
  simp [renamed, rename]

theorem follows_tailStep {level : ChainLevel} {op : BinaryOp} {right : Expr} (h : Renaming old new)
    (hFront : stripStart cs = c :: after) (hOp : level.operator? c = some op)
    (hRight : Corresponds old new level.operand after right mid)
    (hTail : (Reading.tail level (binary op left right) mid e rest).Follows old new) :
    (Reading.tail level left cs e rest).Follows old new := by
  intro before hClosed left'
  obtain ⟨hEnds, hLeaves⟩ := operator_ends hOp
  have hAlpha := not_isAlpha_of_isDottedChar hEnds.1
  obtain ⟨gap, hGap, hSplit, hStrip, hAligned⟩ := scan_front h hFront hAlpha before
  have hOpen : Open (before ++ (gap ++ [c])) := by
    rw [← append_assoc]
    exact (hClosed.gap hGap).open_concat hEnds hLeaves
  obtain ⟨taken₁, right', rfl, hReads₁, hClosed₁, hMatch₁⟩ := hRight _ hOpen
  obtain ⟨taken₂, e', rfl, hReads₂, hClosed₂, hBuild₂, hIff₂⟩ :=
    hTail _ hClosed₁ (binary op left' right')
  refine ⟨(gap ++ [c]) ++ (taken₁ ++ taken₂), e', ?_, .tailStep hStrip hOp hReads₁ ?_, ?_, ?_, ?_⟩
  · simp only [hSplit, append_assoc]
  · simpa only [append_assoc] using hReads₂
  · simpa only [append_assoc] using hClosed₂
  · intro hLeft
    refine hBuild₂ ?_
    rw [skeleton, skeleton, hLeft, hMatch₁.build]
  · rw [hIff₂, binary_eq_renamed_binary, hMatch₁.iff, hAligned, alignedIn_append, and_assoc]

theorem skeleton_negated (e : Expr) : (negated e).skeleton = negated e.skeleton := by
  cases e <;> rfl

/-- `negated` forgets nothing, not even of a number. -/
theorem negated_eq_renamed_negated : negated e' = renamed old new (negated e) ↔ e' = renamed old new e := by
  have hCommutes : renamed old new (negated e) = negated (renamed old new e) := by
    cases e <;> rfl
  have hInjective : ∀ a b : Expr, negated a = negated b → a = b := by
    intro a b hEq
    cases a with
    | number x =>
      cases b with
      | number y =>
        have hValue : -x = -y := number.inj hEq
        rw [← Real.neg_neg x, hValue, Real.neg_neg]
      | _ => cases hEq
    | _ =>
      cases b with
      | number y => cases hEq
      | _ => exact negate.inj hEq
  rw [hCommutes]
  exact ⟨hInjective e' _, fun hEq => by rw [hEq]⟩

/-- An operand behind a character that asks for one. -/
theorem Corresponds.behind {form : List Char → Expr → List Char → Reading}
    (hInner : Corresponds old new form after e rest) (h : Renaming old new)
    (hFront : stripStart cs = c :: after) (hc : c ≠ quote ∧ isDottedChar c = false) (hOpen : Open before) :
    ∃ taken e' after', cs = taken ++ rest ∧
      stripStart (renamedFrom old new before cs) = c :: after' ∧
      Reads (form after' e' (renamedFrom old new (before ++ taken) rest)) ∧
      Closed (before ++ taken) ∧ Matches old new e' e (AlignedIn old before taken rest) := by
  obtain ⟨gap, hGap, hSplit, hStrip, hAligned⟩ := scan_front h hFront (not_isAlpha_of_isDottedChar hc.2)
    before
  have hBehind : Open (before ++ (gap ++ [c])) := by
    rw [← append_assoc]
    exact (hOpen.gap hGap).concat hc
  obtain ⟨taken, e', rfl, hReads, hClosed, hMatch⟩ := hInner _ hBehind
  rw [append_assoc] at hReads hClosed
  refine ⟨(gap ++ [c]) ++ taken, e', _, ?_, hStrip, hReads, hClosed, hMatch.build, ?_⟩
  · simp only [hSplit, append_assoc]
  · rw [hMatch.iff, hAligned]

theorem follows_minus (h : Renaming old new) (hFront : stripStart cs = '-' :: after)
    (hInner : Corresponds old new .signed after e rest) :
    Corresponds old new .signed cs (negated e) rest := by
  intro before hOpen
  obtain ⟨taken, e', after', hSplit, hStrip, hReads, hClosed, hMatch⟩ :=
    hInner.behind h hFront (by decide) hOpen
  refine ⟨taken, negated e', hSplit, .minus hStrip hReads, hClosed, ?_, ?_⟩
  · rw [skeleton_negated, skeleton_negated, hMatch.build]
  · rw [negated_eq_renamed_negated, hMatch.iff]

theorem follows_plus (h : Renaming old new) (hFront : stripStart cs = '+' :: after)
    (hInner : Corresponds old new .signed after e rest) : Corresponds old new .signed cs e rest := by
  intro before hOpen
  obtain ⟨taken, e', after', hSplit, hStrip, hReads, hClosed, hMatch⟩ :=
    hInner.behind h hFront (by decide) hOpen
  exact ⟨taken, e', hSplit, .plus hStrip hReads, hClosed, hMatch⟩

theorem follows_unsigned (h : Renaming old new) (hMinus : (stripStart cs).head? ≠ some '-')
    (hPlus : (stripStart cs).head? ≠ some '+') (hInner : Corresponds old new .power (stripStart cs) e rest) :
    Corresponds old new .signed cs e rest := by
  intro before hOpen
  obtain ⟨gap, hGap, hSplit, hStrip, hPlain⟩ := scan_gap h cs before
  obtain ⟨taken, e', hTaken, hReads, hClosed, hMatch⟩ := hInner _ (hOpen.gap hGap)
  rw [append_assoc, ← hStrip] at hReads
  rw [append_assoc] at hClosed
  refine ⟨gap ++ taken, e', ?_, .unsigned ?_ ?_ hReads, hClosed, hMatch.build, ?_⟩
  · rw [hSplit, hTaken, append_assoc]
  · rw [hStrip]
    exact head?_renamedFrom_ne h.oldName h.newName (by decide) hMinus
  · rw [hStrip]
    exact head?_renamedFrom_ne h.oldName h.newName (by decide) hPlus
  · rw [hMatch.iff, alignedIn_append_of_not_isAlpha h.oldName hPlain]

theorem skeleton_marked (e : Expr) (marks : List Char) :
    (marked e marks).skeleton = marked e.skeleton marks := by
  induction marks generalizing e with
  | nil => rfl
  | cons c marks ih =>
    by_cases hQuote : c = quote
    · simp only [marked, foldl_cons, hQuote, if_true] at ih ⊢
      exact ih (call .transpose e)
    · simp only [marked, foldl_cons, hQuote, if_false] at ih ⊢
      exact ih e

theorem marked_eq_renamed_marked {marks : List Char} :
    marked e' marks = renamed old new (marked e marks) ↔ e' = renamed old new e := by
  induction marks generalizing e e' with
  | nil => rfl
  | cons c marks ih =>
    by_cases hQuote : c = quote
    · have hStep : ∀ a : Expr, marked a (c :: marks) = marked (call .transpose a) marks := by
        intro a
        simp [marked, hQuote]
      rw [hStep, hStep, ih]
      simp [renamed, rename]
    · have hStep : ∀ a : Expr, marked a (c :: marks) = marked a marks := by
        intro a
        simp [marked, hQuote]
      rw [hStep, hStep, ih]

theorem not_isAlpha_of_marks {marks : List Char} (h : ∀ c ∈ marks, isBlank c = true ∨ c = quote) :
    ∀ c ∈ marks, c.isAlpha = false := by
  intro c hc
  rcases h c hc with hBlank | rfl
  · exact not_isAlpha_of_gap (gap_cons.mpr ⟨hBlank, gap_nil⟩) c (by simp)
  · rfl

theorem Closed.marks {before marks : List Char} (hClosed : Closed before)
    (h : ∀ c ∈ marks, isBlank c = true ∨ c = quote) : Closed (before ++ marks) := by
  induction marks generalizing before with
  | nil => rwa [append_nil]
  | cons c marks ih =>
    rw [forall_mem_cons] at h
    rw [← singleton_append, ← append_assoc]
    refine ih (hClosed.concat ?_ ?_) h.2
    · rcases h.1 with hBlank | rfl
      · exact ends_of_isBlank hBlank
      · decide
    · rcases h.1 with hBlank | rfl
      · simp [hBlank]
      · rfl

/-- An operand and the marks behind it, in front of a text that starts with none. -/
theorem Corresponds.withMarks (hInner : Corresponds old new .operand cs e mid) (h : Renaming old new)
    (hMarks : transposes e mid = (base, rest)) (hRest : Ends rest) (hOpen : Open before) :
    ∃ taken e' base' mid', cs = taken ++ rest ∧
      Reads (.operand (renamedFrom old new before cs) e' mid') ∧
      transposes e' mid' = (base', renamedFrom old new (before ++ taken) rest) ∧
      Closed (before ++ taken) ∧ Matches old new base' base (AlignedIn old before taken rest) := by
  obtain ⟨taken, e', rfl, hReads, hClosed, hMatch⟩ := hInner before hOpen
  obtain ⟨marks, hSplit, hAll, hStop, hMarked⟩ := transposes_split e mid
  rw [hMarks] at hSplit hStop hMarked
  obtain rfl : base = marked e marks := hMarked
  have hMid : mid = marks ++ rest := hSplit
  have hPlain := not_isAlpha_of_marks hAll
  have hScan : renamedFrom old new (before ++ taken) mid =
      marks ++ renamedFrom old new (before ++ (taken ++ marks)) rest := by
    rw [hMid, ← append_assoc]
    exact renamedFrom_of_not_refersIn h.oldName (not_refersIn_of_not_isAlpha h.oldName hPlain)
  have hUnmarked : Unmarked (renamedFrom old new (before ++ (taken ++ marks)) rest) := by
    intro c hc
    rw [head?_renamedFrom h.oldName fun c hc => not_isAlpha_of_isDottedChar (hRest.detached c hc)] at hc
    exact hStop c hc
  refine ⟨taken ++ marks, e', marked e' marks, _, ?_, hReads, ?_, ?_, ?_, ?_⟩
  · rw [hMid, append_assoc]
  · rw [hScan, transposes_marks hAll hUnmarked]
  · rw [← append_assoc]
    exact hClosed.marks hAll
  · rw [skeleton_marked, skeleton_marked, hMatch.build]
  · rw [marked_eq_renamed_marked, hMatch.iff, hMid, alignedIn_append,
      and_iff_left (alignedIn_of_not_isAlpha h.oldName hPlain _)]

section

variable (h : Renaming old new)
include h

theorem follows_base (hInner : Corresponds old new .operand cs e mid)
    (hMarks : transposes e mid = (base, rest)) (hStop : rest.head? ≠ some '^') (hRest : Ends rest) :
    Corresponds old new .power cs base rest := by
  intro before hOpen
  obtain ⟨taken, e', base', mid', hSplit, hReads, hMarks', hClosed, hMatch⟩ :=
    hInner.withMarks h hMarks hRest hOpen
  have hStop' : (renamedFrom old new (before ++ taken) rest).head? ≠ some '^' :=
    head?_renamedFrom_ne h.oldName h.newName (by decide) hStop
  exact ⟨taken, base', hSplit, .base hReads hMarks' hStop', hClosed, hMatch⟩

theorem follows_raised {exponent : Expr} (hInner : Corresponds old new .operand cs e mid)
    (hMarks : transposes e mid = (base, '^' :: after))
    (hExponent : Corresponds old new .signed after exponent rest) :
    Corresponds old new .power cs (binary .power base exponent) rest := by
  intro before hOpen
  obtain ⟨taken₁, e', base', mid', rfl, hReads₁, hMarks', hClosed₁, hMatch₁⟩ :=
    hInner.withMarks h hMarks (.cons (by decide)) hOpen
  have hCaret : Open (before ++ taken₁ ++ ['^']) := hClosed₁.open_concat (by decide) (by decide)
  obtain ⟨taken₂, exponent', rfl, hReads₂, hClosed₂, hMatch₂⟩ := hExponent _ hCaret
  rw [renamedFrom_of_not_isAlpha h rfl] at hMarks'
  refine ⟨taken₁ ++ (['^'] ++ taken₂), binary .power base' exponent', ?_,
    .raised hReads₁ hMarks' ?_, ?_, ?_, ?_⟩
  · simp
  · simpa only [append_assoc] using hReads₂
  · simpa only [append_assoc] using hClosed₂
  · rw [skeleton, skeleton, hMatch₁.build, hMatch₂.build]
  · rw [binary_eq_renamed_binary, hMatch₁.iff, hMatch₂.iff, alignedIn_append,
      alignedIn_append_of_not_isAlpha h.oldName (forall_mem_singleton.mpr rfl)]
    rfl

/-- A closing parenthesis behind a complete operand. -/
theorem scan_close (hClose : stripStart mid = ')' :: rest) (hClosed : Closed before) :
    ∃ tail, mid = tail ++ rest ∧
      stripStart (renamedFrom old new before mid) =
        ')' :: renamedFrom old new (before ++ tail) rest ∧
      Closed (before ++ tail) ∧ ∀ more, AlignedIn old before tail more := by
  obtain ⟨gap, hGap, hSplit, hStrip, hAligned⟩ := scan_front h hClose (by decide) before
  refine ⟨gap ++ [')'], hSplit, hStrip, ?_, ?_⟩
  · rw [← append_assoc]
    exact (hClosed.gap hGap).concat (by decide) (by decide)
  · intro more
    refine alignedIn_of_not_isAlpha h.oldName ?_ more
    rw [forall_mem_append]
    exact ⟨not_isAlpha_of_gap hGap, forall_mem_singleton.mpr rfl⟩

theorem follows_parenthesised (hFront : stripStart cs = '(' :: inner)
    (hInner : Corresponds old new (.chain .sum) inner e mid) (hClose : stripStart mid = ')' :: rest) :
    Corresponds old new .operand cs e rest := by
  intro before hOpen
  obtain ⟨taken, e', inner', rfl, hStrip, hReads, hClosed, hMatch⟩ :=
    hInner.behind h hFront (by decide) hOpen
  obtain ⟨tail, rfl, hClose', hDone, hAligned⟩ := scan_close h hClose hClosed
  rw [append_assoc] at hClose' hDone
  refine ⟨taken ++ tail, e', (append_assoc ..).symm, .parenthesised hStrip hReads hClose',
    hDone, hMatch.build, ?_⟩
  rw [hMatch.iff, alignedIn_append, and_iff_left (hAligned rest)]

theorem follows_string {text : List Char}
    (hFront : stripStart cs = quote :: (text ++ quote :: rest)) (hText : quote ∉ text) :
    Corresponds old new .operand cs (string (String.ofList text)) rest := by
  intro before hOpen
  obtain ⟨gap, hGap, hSplit, hStrip, hAligned⟩ := scan_front h hFront (by decide) before
  have hStart := hOpen.gap hGap
  -- The text between the quotes is scanned with one quote more in front of it.
  have hScan : renamedFrom old new (before ++ (gap ++ [quote])) (text ++ quote :: rest) =
      renamedFrom old new (before ++ (gap ++ [quote])) text ++
        quote :: renamedFrom old new (before ++ (gap ++ [quote]) ++ text ++ [quote]) rest := by
    rw [renamedFrom_append h.oldName (detached_cons rfl), renamedFrom_of_not_isAlpha h rfl]
  have hInside : quote ∉ renamedFrom old new (before ++ (gap ++ [quote])) text := by
    intro hMem
    refine all_renamedFrom h.oldName (p := (· ≠ quote)) ?_ ?_ quote hMem rfl
    · rintro c hc rfl
      exact h.newName.quote_not_mem hc
    · rintro c hc rfl
      exact hText hc
  rw [hScan] at hStrip
  have hString : ∀ passed ahead, text = passed ++ ahead →
      context (before ++ (gap ++ [quote]) ++ passed) = .string := by
    rintro passed ahead rfl
    rw [← append_assoc before]
    exact context_string hStart fun hMem => hText (mem_append_left ahead hMem)
  have hEqual : string (String.ofList (renamedFrom old new (before ++ (gap ++ [quote])) text)) =
      renamed old new (string (String.ofList text)) ↔
        renamedFrom old new (before ++ (gap ++ [quote])) text = text := by
    simp only [renamed, rename, string.injEq, String.ofList_inj]
  have hClean : Clean (before ++ (gap ++ [quote])) := by
    rw [← append_assoc]
    exact clean_quote (before ++ gap)
  refine ⟨(gap ++ [quote]) ++ (text ++ [quote]), _, by simp [hSplit], .string ?_ hInside, ?_, rfl, ?_⟩
  · simpa only [append_assoc] using hStrip
  · rw [← append_assoc, ← append_assoc, Closed, context_concat, hString text [] (by simp)]
    trivial
  · rw [hEqual, hAligned, alignedIn_append,
      and_iff_left (alignedIn_of_not_isAlpha h.oldName (forall_mem_singleton.mpr rfl) rest),
      renamedFrom_eq_self_iff h.oldName h.newName h.distinct hClean hText]
    have hStop : Detached ([quote] ++ rest) := (detached_cons rfl)
    exact (alignedIn_iff_of_string h.oldName hStop hText hString).symm

theorem follows_number {exponent : List Char} {x : Float} (hFront : stripStart cs = c :: after)
    (hNumber : isNumberChar c = true)
    (hExponent : exponentChars ((c :: after).dropWhile isNumberChar) = (exponent, rest))
    (hValue : Real.ofChars? ((c :: after).takeWhile isNumberChar ++ exponent) = some x) (hRest : Ends rest) :
    Corresponds old new .operand cs (number x) rest := by
  intro before hOpen
  obtain ⟨gap, hGap, hSplit, hStrip, hPlain⟩ := scan_gap h cs before
  have hWhole : c :: after = ((c :: after).takeWhile isNumberChar ++ exponent) ++ rest := by
    have hAppend := exponentChars_append ((c :: after).dropWhile isNumberChar)
    rw [hExponent] at hAppend
    rw [append_assoc, hAppend, takeWhile_append_dropWhile]
  have hRefers : ∀ {text}, ¬ RefersIn old text ((c :: after).takeWhile isNumberChar ++ exponent) rest :=
    not_refersIn_number h.oldName hNumber hExponent hRest.detached
  rw [hFront] at hSplit hStrip
  rw [hWhole, renamedFrom_of_not_refersIn h.oldName hRefers] at hStrip
  refine ⟨gap ++ ((c :: after).takeWhile isNumberChar ++ exponent), number x, ?_, ?_, ?_, rfl, ?_⟩
  · rw [append_assoc, ← hWhole, hSplit]
  · rw [← append_assoc before]
    exact .number_extend hNumber hExponent hValue (detached_renamedFrom h hRest.detached) hStrip
  · rw [← append_assoc, Closed, context_number (hOpen.gap hGap) hNumber hExponent hValue]
    rfl
  · rw [alignedIn_append_of_not_isAlpha h.oldName hPlain]
    exact iff_of_true rfl (alignedIn_of_not_refersIn hRefers)

/-- A leaf, which is scanned as it would be on its own. -/
theorem element_eq_renamed_iff {leaf : List Char} (hOpen : Open before) (hRest : Detached rest)
    (hQuoted : ∀ passed ahead, leaf = passed ++ ahead → ahead ≠ [] → (context (before ++ passed)).quoted =
      oddQuotes passed) :
    element (String.ofList (renamedFrom old new before leaf)) =
      renamed old new (element (String.ofList leaf)) ↔ AlignedIn old before leaf rest := by
  have hOld : IsIdentifier (String.ofList old).toList := by
    rw [String.toList_ofList]
    exact h.oldName
  rw [alignedIn_iff_of_quoted h.oldName hRest hQuoted,
    ← renamedFrom_eq_alone_iff h.oldName h.newName h.distinct hOpen.clean]
  simp only [renamed, rename, element.injEq, replace_eq_renamedFrom hOld, String.toList_ofList,
    String.ofList_inj]

/-- A name that is renamed is a name of the same kind. -/
theorem name_renamedFrom (hName : name.all isDottedChar = true)
    (hLast : name.getLast? ≠ some '.') :
    (renamedFrom old new before name).all isDottedChar = true ∧
      (renamedFrom old new before name).getLast? ≠ some '.' := by
  refine ⟨all_eq_true.mpr (all_renamedFrom h.oldName ?_ (all_eq_true.mp hName)), ?_⟩
  · intro c hc
    simp [isDottedChar, h.newName.isNameChar c hc]
  · intro hPoint
    exact hLast (getLast?_renamedFrom h.oldName h.newName (by decide) hPoint)

theorem follows_element (hSplit : cs = name ++ rest) (hName : name.all isDottedChar = true)
    (hRest : Detached rest) (hLast : name.getLast? ≠ some '.') (hOpen : rest.head? ≠ some '(') :
    (Reading.named cs (element (String.ofList name)) rest).Follows old new := by
  intro hAlpha before hBefore
  obtain ⟨c, first, rfl, hLetter⟩ := exists_letter hSplit
    (hRest.head_not fun _ => isDottedChar_of_isAlpha) hAlpha
  subst hSplit
  obtain ⟨hName', hLast'⟩ : (renamedFrom old new before (c :: first)).all isDottedChar = true ∧
    (renamedFrom old new before (c :: first)).getLast? ≠ some '.' := name_renamedFrom h hName hLast
  have hFirst : first.all isDottedChar = true := by
    rw [all_cons, Bool.and_eq_true] at hName
    exact hName.2
  refine ⟨c :: first, element (String.ofList (renamedFrom old new before (c :: first))), rfl, ?_, ?_, rfl, ?_⟩
  · exact .element (renamedFrom_append h.oldName hRest _) hName' (detached_renamedFrom h hRest) hLast'
      (head?_renamedFrom_ne h.oldName h.newName (by decide) hOpen)
  · rw [Closed, context_name hBefore hLetter hFirst]
    trivial
  · exact element_eq_renamed_iff h hBefore hRest fun passed ahead hSplit _ =>
      quoted_name hBefore hLetter hName hSplit

/-- Renaming touches no parenthesis, so the indices of an array element end where they did. -/
theorem enclosed_renamedFrom {taken : List Char} {depth : Nat}
    (hTaken : enclosed depth taken = some (taken, [])) (k : List Char) :
    enclosed depth (renamedFrom old new before taken ++ k) =
      some (renamedFrom old new before taken, k) := by
  have hPlain : ∀ {cs : List Char}, IsIdentifier cs → ∀ c ∈ cs, c ≠ '(' ∧ c ≠ ')' := by
    intro cs hIdentifier c hc
    have hChar := hIdentifier.isNameChar c hc
    constructor
    · rintro rfl
      cases hChar
    · rintro rfl
      cases hChar
  have hScan : Scanned old new before taken _ := scanned_renamedFrom h.oldName before taken
  generalize renamedFrom old new before taken = out at hScan ⊢
  induction hScan generalizing depth with
  | nil => cases hTaken
  | @copy before rest out c _ hRest ih =>
    rw [cons_append]
    simp only [enclosed] at hTaken ⊢
    split
    · next hClose =>
        rw [if_pos hClose] at hTaken
        obtain rfl : rest = [] := by simpa using hTaken
        obtain rfl : out = [] := hRest.eq_renamedFrom h.oldName
        rfl
    · next hClose =>
        rw [if_neg hClose] at hTaken
        obtain ⟨⟨inner, left⟩, hInner, hPair⟩ := Option.map_eq_some_iff.mp hTaken
        cases hPair
        rw [ih hInner, Option.map_some]
  | @replace before rest out _ _ _ ih =>
    rw [enclosed_plain (hPlain h.oldName)] at hTaken
    obtain ⟨⟨inner, left⟩, hInner, hPair⟩ := Option.map_eq_some_iff.mp hTaken
    obtain ⟨hSame, rfl⟩ : old ++ inner = old ++ rest ∧ left = [] := by simpa using hPair
    obtain rfl := append_cancel_left hSame
    rw [append_assoc, enclosed_plain (hPlain h.newName), ih hInner, Option.map_some]

/-- A name that is no function does not become one. -/
theorem ofName?_renamedFrom (hClean : Clean before)
    (hFunction : ofName? (String.ofList name) = none) :
    ofName? (String.ofList (renamedFrom old new before name)) = none := by
  cases hCalled : ofName? (String.ofList (renamedFrom old new before name)) with
  | none => rfl
  | some f =>
    obtain ⟨c, first, hChars, -, hAll⟩ := functionName_chars hCalled
    rw [String.toList_ofList] at hChars
    rw [← hChars] at hAll
    -- The name has no point either, so it is the old name or it stays.
    have hPlain : name.all isNameChar = true := by
      refine all_eq_true.mpr fun d hd => ?_
      by_contra hd'
      have hPoint : isNameChar d = false := by simpa using hd'
      rw [all_eq_true.mp hAll d (mem_renamedFrom h.oldName hPoint hd)] at hPoint
      cases hPoint
    rcases renamedFrom_name h.oldName hClean hPlain with hKept | hReplaced
    · rw [hKept, hFunction] at hCalled
      cases hCalled
    · rw [hReplaced, h.newPlain] at hCalled
      cases hCalled

theorem follows_arrayElement {opened indices : List Char} (hSplit : cs = name ++ opened)
    (hName : name.all isDottedChar = true) (hLast : name.getLast? ≠ some '.')
    (hOpen : opened.head? = some '(') (hFunction : ofName? (String.ofList name) = none)
    (hEnclosed : enclosed 0 opened = some (indices, rest)) (hRest : Detached rest) :
    (Reading.named cs (element (String.ofList (name ++ indices))) rest).Follows old new := by
  intro hAlpha before hBefore
  obtain ⟨c, first, rfl, hLetter⟩ := exists_letter hSplit (by simp [hOpen]) hAlpha
  obtain ⟨hTaken, hNonempty⟩ := enclosed_append hEnclosed
  have hAlone := enclosed_extend hEnclosed []
  rw [append_nil] at hAlone
  obtain ⟨inside, rfl⟩ : ∃ inside, indices = '(' :: inside := by
    rw [hTaken, List.head?_append, List.head?_eq_some_head hNonempty, Option.some_or,
      ← List.head?_eq_some_head hNonempty] at hOpen
    exact List.head?_eq_some_iff.mp hOpen
  subst hTaken hSplit
  have hFirst : first.all isDottedChar = true := by
    rw [all_cons, Bool.and_eq_true] at hName
    exact hName.2
  obtain ⟨hName', hLast'⟩ : (renamedFrom old new before (c :: first)).all isDottedChar = true ∧
    (renamedFrom old new before (c :: first)).getLast? ≠ some '.' := name_renamedFrom h hName hLast
  -- The leaf is the name and the indices together, and both are scanned as parts of it.
  have hLeaf : renamedFrom old new before (c :: first ++ '(' :: inside) =
      renamedFrom old new before (c :: first) ++
        renamedFrom old new (before ++ c :: first) ('(' :: inside) :=
    renamedFrom_append h.oldName (detached_cons rfl) _
  have hScan : renamedFrom old new before (c :: first ++ ('(' :: inside ++ rest)) =
      renamedFrom old new before (c :: first) ++
        (renamedFrom old new (before ++ c :: first) ('(' :: inside) ++
          renamedFrom old new (before ++ (c :: first ++ '(' :: inside)) rest) := by
    rw [← append_assoc, renamedFrom_append h.oldName hRest, hLeaf, append_assoc]
  obtain ⟨hEnd, hQuoted⟩ := context_leaf hBefore hLetter hName hFunction hAlone
  refine ⟨c :: first ++ '(' :: inside,
    element (String.ofList (renamedFrom old new before (c :: first ++ '(' :: inside))), ?_, ?_, ?_, rfl,
    ?_⟩
  · rw [append_assoc]
  · rw [hLeaf]
    refine .arrayElement hScan hName' hLast' ?_ (ofName?_renamedFrom h hBefore.clean hFunction)
      (enclosed_renamedFrom h hAlone _)
    rw [List.head?_append, head?_renamedFrom h.oldName (by simp)]
    rfl
  · rw [Closed, hEnd]
    trivial
  · exact element_eq_renamed_iff h hBefore hRest hQuoted

end

/-- The call of a function on other arguments, as many as there were. -/
theorem application_renamed {args' : List Expr} (hApply : application f args = .ok e)
    (hBuild : args'.map skeleton = args.map skeleton) :
    ∃ e', application f args' = .ok e' ∧
      Matches old new e' e (args' = args.map (renamed old new)) := by
  have hLength : args'.length = args.length := by
    rw [← length_map skeleton, hBuild, length_map]
  unfold application at hApply
  split at hApply
  · next f argument =>
      cases hApply
      obtain ⟨argument', rfl⟩ := length_eq_one_iff.mp hLength
      have hSame : argument'.skeleton = argument.skeleton := by simpa using hBuild
      exact ⟨call f argument', rfl, by rw [skeleton, skeleton, hSame], by simp [renamed, rename]⟩
  · next y x =>
      cases hApply
      obtain ⟨y', x', rfl⟩ : ∃ y' x', args' = [y', x'] := by
        rcases args' with _ | ⟨y', _ | ⟨x', _ | ⟨z', rest⟩⟩⟩
        · cases hLength
        · cases hLength
        · exact ⟨y', x', rfl⟩
        · cases hLength
      have hSame : y'.skeleton = y.skeleton ∧ x'.skeleton = x.skeleton := by simpa using hBuild
      exact ⟨atan2 y' x', rfl, by rw [skeleton, skeleton, hSame.1, hSame.2], by simp [renamed, rename]⟩
  · cases hApply

theorem follows_call (h : Renaming old new) (hSplit : cs = name ++ '(' :: inner)
    (hFunction : ofName? (String.ofList name) = some f)
    (hArgs : (Reading.arguments inner args mid).Follows old new) (hClose : stripStart mid = ')' :: rest)
    (hApply : application f args = .ok e) : (Reading.named cs e rest).Follows old new := by
  intro _ before hBefore
  obtain ⟨c, first, hChars, hLetter, hPlain⟩ := functionName_chars hFunction
  rw [String.toList_ofList] at hChars
  subst hChars hSplit
  have hDotted := all_isDottedChar_of_isNameChar hPlain
  have hFirst : first.all isDottedChar = true := by
    rw [all_cons, Bool.and_eq_true] at hDotted
    exact hDotted.2
  -- The name of a function is not the old name, so it stays.
  have hRefers : ∀ more, ¬ RefersIn old before (c :: first) ('(' :: more) := by
    intro more hRef
    rw [refersIn_of_detached h.oldName (detached_cons rfl)] at hRef
    rw [eq_of_refersIn hPlain hRef, h.oldPlain] at hFunction
    cases hFunction
  have hScan : renamedFrom old new before (c :: first ++ '(' :: inner) =
      c :: first ++ '(' :: renamedFrom old new (before ++ c :: first ++ ['(']) inner := by
    rw [renamedFrom_of_not_refersIn h.oldName (hRefers inner), renamedFrom_of_not_isAlpha h rfl]
  have hOpened : Open (before ++ c :: first ++ ['(']) := by
    refine ⟨?_, ?_⟩
    · intro d hd
      rw [List.getLast?_concat] at hd
      cases hd
      rfl
    · rw [context_concat, context_name hBefore hLetter hFirst, Context.step, if_neg (by decide),
        if_pos rfl, hFunction]
      rfl
  obtain ⟨taken, args', rfl, hReads, hClosed, hBuild, hIff⟩ := hArgs _ hOpened
  obtain ⟨tail, rfl, hClose', hDone, hAligned⟩ := scan_close h hClose hClosed
  obtain ⟨e', hApply', hMatch⟩ : ∃ e', application _ args' = .ok e' ∧ Matches old new e' _ _ :=
    application_renamed hApply hBuild
  refine ⟨c :: first ++ (['('] ++ (taken ++ tail)), e', by simp, ?_, ?_, hMatch.build, ?_⟩
  · refine .call hScan hDotted (getLast?_ne_point hPlain) hFunction hReads ?_ hApply'
    simpa only [append_assoc] using hClose'
  · simpa only [append_assoc] using hDone
  · rw [hMatch.iff, hIff, alignedIn_append,
      alignedIn_append_of_not_isAlpha h.oldName (forall_mem_singleton.mpr rfl), alignedIn_append,
      and_iff_left (hAligned rest), and_iff_right]
    exact alignedIn_of_not_refersIn (hRefers _)

theorem follows_named (h : Renaming old new) (hFront : stripStart cs = c :: after)
    (hAlpha : c.isAlpha = true) (hInner : (Reading.named (c :: after) e rest).Follows old new) :
    Corresponds old new .operand cs e rest := by
  intro before hOpen
  obtain ⟨gap, hGap, hSplit, hStrip, hPlain⟩ := scan_gap h cs before
  rw [hFront] at hSplit hStrip
  obtain ⟨taken, e', hTaken, hReads, hClosed, hMatch⟩ := hInner hAlpha _ (hOpen.gap hGap)
  obtain ⟨d, after', hCons, hLetter⟩ : ∃ d after',
      renamedFrom old new (before ++ gap) (c :: after) = d :: after' ∧ d.isAlpha = true := by
    have hHead : (renamedFrom old new (before ++ gap) (c :: after)).head?.any Char.isAlpha = true :=
      head_renamedFrom h.oldName h.newName hAlpha
    cases hOut : renamedFrom old new (before ++ gap) (c :: after) with
    | nil =>
      rw [hOut] at hHead
      cases hHead
    | cons d after' =>
      rw [hOut] at hHead
      exact ⟨d, after', rfl, hHead⟩
  rw [hCons] at hStrip hReads
  rw [append_assoc] at hReads hClosed
  refine ⟨gap ++ taken, e', ?_, .named hStrip hLetter hReads, hClosed, hMatch.build, ?_⟩
  · rw [hSplit, hTaken, append_assoc]
  · rw [hMatch.iff, alignedIn_append_of_not_isAlpha h.oldName hPlain]

theorem follows_lastArgument (h : Renaming old new) (hInner : Corresponds old new (.chain .sum) cs e mid)
    (hStop : (stripStart mid).head? ≠ some ',') :
    (Reading.arguments cs [e] (stripStart mid)).Follows old new := by
  intro before hOpen
  obtain ⟨taken, e', rfl, hReads, hClosed, hMatch⟩ := hInner before hOpen
  obtain ⟨gap, hGap, hSplit, hStrip, hPlain⟩ := scan_gap h mid (before ++ taken)
  rw [append_assoc] at hStrip
  refine ⟨taken ++ gap, [e'], ?_, ?_, ?_, by simp [hMatch.build], ?_⟩
  · rw [append_assoc, ← hSplit]
  · rw [← hStrip]
    refine .lastArgument hReads ?_
    rw [hStrip]
    exact head?_renamedFrom_ne h.oldName h.newName (by decide) hStop
  · rw [← append_assoc]
    exact hClosed.gap hGap
  · rw [alignedIn_append, and_iff_left (alignedIn_of_not_isAlpha h.oldName hPlain _), ← hSplit, ← hMatch.iff]
    simp

theorem follows_moreArguments {es : List Expr} (h : Renaming old new)
    (hInner : Corresponds old new (.chain .sum) cs e mid) (hComma : stripStart mid = ',' :: after)
    (hOthers : (Reading.arguments after es rest).Follows old new) :
    (Reading.arguments cs (e :: es) rest).Follows old new := by
  intro before hOpen
  obtain ⟨taken₁, e', rfl, hReads₁, hClosed₁, hMatch₁⟩ := hInner before hOpen
  obtain ⟨gap, hGap, rfl, hStrip, hAligned⟩ := scan_front h hComma (by decide) (before ++ taken₁)
  have hBehind : Open (before ++ taken₁ ++ (gap ++ [','])) := by
    rw [← append_assoc]
    exact (hClosed₁.gap hGap).open_concat (by decide) (by decide)
  obtain ⟨taken₂, es', rfl, hReads₂, hClosed₂, hBuild₂, hIff₂⟩ := hOthers _ hBehind
  refine ⟨taken₁ ++ ((gap ++ [',']) ++ taken₂), e' :: es', ?_, .moreArguments hReads₁ hStrip ?_, ?_,
    by simp [hMatch₁.build, hBuild₂], ?_⟩
  · simp only [append_assoc]
  · simpa only [append_assoc] using hReads₂
  · simpa only [append_assoc] using hClosed₂
  · rw [alignedIn_append, hAligned, ← hIff₂, append_assoc (gap ++ [',']), ← hMatch₁.iff]
    simp

/-- Every derivation has its counterpart in the renamed text. -/
theorem Reads.follows {g : Reading} (hReads : Reads g) (h : Renaming old new) (hEnds : Ends g.left) :
    g.Follows old new := by
  induction hReads with
  | chain hFirst hTail ihFirst ihTail =>
    rw [left_operand] at ihFirst
    exact follows_chain (follows_operand.mp (ihFirst (hTail.tail_ends hEnds)))
      (ihTail hEnds)
  | tailEnd hStop => exact follows_tailEnd h hStop hEnds
  | tailStep hFront hOp hRight hTail ihRight ihTail =>
    rw [left_operand] at ihRight
    exact follows_tailStep h hFront hOp
      (follows_operand.mp (ihRight (hTail.tail_ends hEnds))) (ihTail hEnds)
  | minus hFront _ ih => exact follows_minus h hFront (ih hEnds)
  | plus hFront _ ih => exact follows_plus h hFront (ih hEnds)
  | unsigned hMinus hPlus _ ih => exact follows_unsigned h hMinus hPlus (ih hEnds)
  | base _ hMarks hStop ih =>
    exact follows_base h (ih (ends_of_transposes hMarks hEnds)) hMarks hStop hEnds
  | raised _ hMarks _ ihInner ihExponent =>
    exact follows_raised h (ihInner (ends_of_transposes hMarks (.cons (by decide)))) hMarks
      (ihExponent hEnds)
  | parenthesised hFront _ hClose ih =>
    exact follows_parenthesised h hFront (ih (ends_of_stripStart hClose (by decide))) hClose
  | string hFront hText => exact follows_string h hFront hText
  | number hFront hNumber hExponent hValue =>
    exact follows_number h hFront hNumber hExponent hValue hEnds
  | named hFront hAlpha _ ih => exact follows_named h hFront hAlpha (ih hEnds)
  | element hSplit hName hRest hLast hOpen => exact follows_element h hSplit hName hRest hLast hOpen
  | arrayElement hSplit hName hLast hOpen hFunction hEnclosed =>
    exact follows_arrayElement h hSplit hName hLast hOpen hFunction hEnclosed hEnds.detached
  | call hSplit _ _ hFunction _ hClose hApply ihArgs =>
    exact follows_call h hSplit hFunction (ihArgs (ends_of_stripStart hClose (by decide))) hClose
      hApply
  | lastArgument _ hStop ih =>
    exact follows_lastArgument h (ih (ends_of_stripStart_ends hEnds)) hStop
  | moreArguments _ hComma _ ihInner ihOthers =>
    exact follows_moreArguments h (ihInner (ends_of_stripStart hComma (by decide))) hComma
      (ihOthers hEnds)

end

end Mission.Expr
