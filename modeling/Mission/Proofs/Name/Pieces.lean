import Mathlib.Data.List.SplitBy
import Mission.Proofs.Name.Reversal

/-! The renaming of a text piece by piece. A text falls into its longest runs of name characters and
the single characters between them, and a rename is a map over these pieces that looks at nothing
but the quotes in front of a piece and the characters beside it. A name becomes a name, so the
pieces of a renamed text are the renamed pieces, and renames in a row compose as the maps do. -/
namespace Mission.Name

open List Option

variable {before p : List Char} {ps : List (List Char)} {a : String}

/-- The longest runs of name characters in a text and the single characters between them. -/
def pieces (cs : List Char) : List (List Char) :=
  cs.splitBy fun c d => isNameChar c && isNameChar d

/-- Whether a name between two texts refers to an object: an even number of quotes stands before it,
and it is no field, which follows a dot and is followed by none. -/
def refersBetween (before after : List Char) : Bool :=
  !oddQuotes before && !(before.getLast? = some '.' && after.head? ≠ some '.')

/-- Applies a map to the pieces that stand where a name refers to an object. -/
def mapReferences (f : List Char → List Char) : (before : List Char) → List (List Char) → List (List Char)
  | _, [] => []
  | before, p :: ps => (if refersBetween before ps.flatten then f p else p) :: mapReferences f
    (before ++ p) ps

/-- One name in place of another. -/
def substitute (old new p : List Char) : List Char :=
  if p = old then new else p

/-! ### Texts in pieces -/

/-- Pieces behind a text, each as long as it can be. -/
inductive Cut : List Char → List (List Char) → Prop
  | nil {before : List Char} : Cut before []
  | cons {before p : List Char} {ps : List (List Char)} (hFilled : p ≠ [])
      (hJoined : p.IsChain fun c d => (isNameChar c && isNameChar d) = true)
      (hFront : (before.getLast?.any isNameChar && p.head?.any isNameChar) = false)
      (hRest : Cut (before ++ p) ps) :
      Cut before (p :: ps)

theorem Cut.head? (h : Cut before ps) :
    (before.getLast?.any isNameChar && ps.flatten.head?.any isNameChar) = false := by
  cases h with
  | nil => simp
  | @cons _ p ps hFilled _ hFront _ =>
    obtain ⟨c, p, rfl⟩ := exists_cons_of_ne_nil hFilled
    exact hFront

theorem getLast?_append_of_ne_nil (before : List Char) (h : p ≠ []) :
    (before ++ p).getLast? = p.getLast? := by
  rw [List.getLast?_append, List.getLast?_eq_some_getLast h, some_or]

theorem cut_of_isChain (hFilled : [] ∉ ps)
    (hJoined : ∀ p ∈ ps, p.IsChain fun c d => (isNameChar c && isNameChar d) = true)
    (hApart : ps.IsChain fun p q => ∃ hp hq, (isNameChar (p.getLast hp) && isNameChar (q.head hq)) = false)
    (hFront : ∀ p ∈ ps.head?, (before.getLast?.any isNameChar && p.head?.any isNameChar) = false) :
    Cut before ps := by
  induction ps generalizing before with
  | nil => exact .nil
  | cons p ps ih =>
    rw [mem_cons, not_or] at hFilled
    rw [isChain_cons] at hApart
    rw [forall_mem_cons] at hJoined
    refine .cons (Ne.symm hFilled.1) hJoined.1 (hFront p rfl) (ih hFilled.2 hJoined.2 hApart.2 fun q hq => ?_)
    obtain ⟨hp, hq', hNot⟩ := hApart.1 q hq
    rw [getLast?_append_of_ne_nil before hp, List.getLast?_eq_some_getLast hp, List.head?_eq_some_head hq']
    exact hNot

theorem cut_pieces (cs : List Char) : Cut [] (pieces cs) :=
  cut_of_isChain (nil_notMem_splitBy _ cs) (fun _ => isChain_of_mem_splitBy)
    (isChain_getLast_head_splitBy (fun c d => isNameChar c && isNameChar d) cs) fun _ _ => rfl

theorem Cut.pieces {before : List Char} {ps : List (List Char)} (h : Cut before ps) :
    pieces ps.flatten = ps := by
  induction h with
  | nil => rfl
  | @cons before p ps hFilled hJoined hFront hRest ih =>
    have hApart := hRest.head?
    rw [getLast?_append_of_ne_nil before hFilled] at hApart
    rw [flatten_cons, Name.pieces, splitBy_append, splitBy_of_isChain hFilled hJoined,
      ← Name.pieces, ih]
    · rfl
    · intro c hc d hd
      rw [hc, hd] at hApart
      exact hApart

/-- A piece is a run of name characters or a single other character. -/
theorem word_or_single (hFilled : p ≠ [])
    (hJoined : p.IsChain fun c d => (isNameChar c && isNameChar d) = true) :
    (∀ c ∈ p, isNameChar c = true) ∨ ∃ c, p = [c] ∧ isNameChar c = false := by
  induction p with
  | nil => exact absurd rfl hFilled
  | cons c p ih =>
    cases p with
    | nil =>
      cases hc : isNameChar c with
      | true => exact .inl (by simpa using hc)
      | false => exact .inr ⟨c, rfl, hc⟩
    | cons d p =>
      rw [isChain_cons_cons, Bool.and_eq_true] at hJoined
      obtain ⟨⟨hc, hd⟩, hRest⟩ := hJoined
      rcases ih (cons_ne_nil d p) hRest with hWord | ⟨e, he, hOther⟩
      · exact .inl (forall_mem_cons.mpr ⟨hc, hWord⟩)
      · cases he
        rw [hd] at hOther
        cases hOther

/-! ### The scan of a piece -/

section

variable {old new : List Char}

/-- Within a word the scan finds the old name only if it is the whole word. -/
theorem eq_of_refersIn_word {before p rest : List Char} (hOld : IsIdentifier old)
    (hWord : ∀ c ∈ p, isNameChar c = true) (hRest : rest.head?.any isNameChar = false)
    (h : RefersIn old before p rest) : p = old ∧ isReference old before.getLast? (p ++ rest) = true := by
  obtain ⟨passed, ahead, rfl, hAhead, hRef⟩ := h
  have hStart : passed = [] := by
    by_contra hPassed
    have hLast := not_isNameChar_of_isReference hRef
    rw [getLast?_append_of_ne_nil before hPassed, List.getLast?_eq_some_getLast hPassed, any_some,
      hWord _ (mem_append_left ahead (getLast_mem hPassed))] at hLast
    cases hLast
  subst hStart
  rw [append_nil] at hRef
  refine ⟨?_, hRef⟩
  obtain ⟨behind, hBehind⟩ := exists_of_isReference hRef
  rcases append_eq_append_iff.mp hBehind with ⟨more, rfl, hMore⟩ | ⟨more, hMore, rfl⟩
  · cases more with
    | nil => exact (append_nil ahead).symm
    | cons c more =>
      rw [hMore, cons_append, List.head?_cons, any_some, hOld.isNameChar c (by simp)] at hRest
      cases hRest
  · cases more with
    | nil => rw [nil_append, hMore, append_nil]
    | cons c more =>
      rw [hBehind] at hRef
      have hNext := head_of_isReference hRef
      rw [cons_append, List.head?_cons, any_some, hWord c (by simp [hMore])] at hNext
      cases hNext

/-- The scan of a text is the renaming of its first piece and the scan of the rest. -/
theorem renamedFrom_piece {before p rest : List Char} (hOld : IsIdentifier old) (hFilled : p ≠ [])
    (hJoined : p.IsChain fun c d => (isNameChar c && isNameChar d) = true)
    (hFront : (before.getLast?.any isNameChar && p.head?.any isNameChar) = false)
    (hBack : ((before ++ p).getLast?.any isNameChar && rest.head?.any isNameChar) = false) :
    renamedFrom old new before (p ++ rest) =
      (if refersBetween before rest then substitute old new p else p) ++ renamedFrom old new
      (before ++ p) rest := by
  rcases word_or_single hFilled hJoined with hWord | ⟨c, rfl, hOther⟩
  · obtain ⟨d, tail, hp⟩ := exists_cons_of_ne_nil hFilled
    have hBefore : before.getLast?.any isNameChar = false := by
      rw [hp, List.head?_cons, any_some, hWord d (by simp [hp]), Bool.and_true] at hFront
      exact hFront
    have hAfter : rest.head?.any isNameChar = false := by
      rw [getLast?_append_of_ne_nil before hFilled, List.getLast?_eq_some_getLast hFilled, any_some,
        hWord _ (getLast_mem hFilled), Bool.true_and] at hBack
      exact hBack
    by_cases hRefers : RefersIn old before p rest
    · obtain ⟨rfl, hRef⟩ := eq_of_refersIn_word hOld hWord hAfter hRefers
      have hField : refersBetween before rest = !oddQuotes before := by
        simp only [isReference, drop_left, Bool.and_eq_true] at hRef
        rw [refersBetween, hRef.2, Bool.and_true]
      cases hOdd : oddQuotes before with
      | true => simp [hField, hOdd, renamedFrom_quoted hOld hOdd hOld.quote_not_mem]
      | false => simp [hField, hOdd, renamedFrom_replace hOld hRef hOdd, substitute]
    · rw [renamedFrom_of_not_refersIn hOld hRefers]
      congr 1
      split
      · next hBetween =>
          have hNot : p ≠ old := by
            rintro rfl
            obtain ⟨-, hField⟩ := Bool.and_eq_true_iff.mp hBetween
            refine hRefers ⟨[], p, rfl, hFilled, ?_⟩
            rw [append_nil, isReference, drop_left, isPrefixOf_iff_prefix.mpr (prefix_append p rest),
              hBefore, hAfter, hField]
            rfl
          rw [substitute, if_neg hNot]
      · rfl
  · have hNot : [c] ≠ old := by
      rintro rfl
      rw [hOld.isNameChar c mem_cons_self] at hOther
      cases hOther
    have hKept : isReference old before.getLast? (c :: rest) = true → oddQuotes before = true := by
      intro hRef
      rw [isNameChar_of_isAlpha (isReference_head hOld hRef)] at hOther
      cases hOther
    simp [substitute, hNot, renamedFrom_copy hOld hKept]

theorem renamedFrom_pieces {before : List Char} {ps : List (List Char)} (hOld : IsIdentifier old)
    (h : Cut before ps) :
    renamedFrom old new before ps.flatten = (mapReferences (substitute old new) before ps).flatten := by
  induction h with
  | nil => rfl
  | cons hFilled hJoined hFront hRest ih =>
    rw [flatten_cons, renamedFrom_piece hOld hFilled hJoined hFront hRest.head?, ih]
    rfl

end

/-! ### Renames in a row -/

/-- The map gives one name for another and leaves the rest alone. -/
def Renames (f : List Char → List Char) : Prop :=
  ∀ p, f p = p ∨ IsIdentifier p ∧ IsIdentifier (f p)

theorem renames_substitute {old new : List Char} (hOld : IsIdentifier old) (hNew : IsIdentifier new) :
    Renames (substitute old new) := by
  intro p
  unfold substitute
  split
  · next hp => exact .inr ⟨hp ▸ hOld, hNew⟩
  · exact .inl rfl

theorem SameEnd.extend {before' : List Char} (h : SameEnd before before') (p : List Char) :
    SameEnd (before ++ p) (before' ++ p) := by
  induction p generalizing before before' with
  | nil => simpa using h
  | cons c p ih => simpa using ih (h.concat c)

section

variable {f g : List Char → List Char} {before before' p : List Char} {ps : List (List Char)}

/-- The second piece can stand where the first stands. -/
structure TakesPlace (p q : List Char) : Prop where
  filled : q ≠ []
  joined : q.IsChain fun c d => (isNameChar c && isNameChar d) = true
  nameChar : q.head?.any isNameChar = p.head?.any isNameChar
  point : q.head? = some '.' ↔ p.head? = some '.'
  ends : ∀ {before before' : List Char}, SameEnd before before' → SameEnd (before ++ p) (before' ++ q)

theorem Renames.takesPlace (hf : Renames f) (hFilled : p ≠ [])
    (hJoined : p.IsChain fun c d => (isNameChar c && isNameChar d) = true) (flag : Bool) :
    TakesPlace p (if flag then f p else p) := by
  have hSelf : TakesPlace p p := ⟨hFilled, hJoined, rfl, .rfl, fun h => h.extend p⟩
  cases flag with
  | false => exact hSelf
  | true =>
    rw [if_pos rfl]
    rcases hf p with hSame | ⟨hOld, hNew⟩
    · rwa [hSame]
    · have hEnds := fun {before before' : List Char} (h : SameEnd before before') => h.append hOld hNew
      have hChars := hNew.isNameChar
      obtain ⟨c, tail, rfl, hAlpha, -⟩ := hOld
      obtain ⟨d, tail', hNew, hAlpha', -⟩ := hNew
      rw [hNew] at hEnds hChars ⊢
      have hPoint : ∀ {c : Char}, c.isAlpha = true → some c ≠ some '.' := by
        rintro c hc ⟨⟩
        cases hc
      refine ⟨cons_ne_nil d tail', ?_, ?_, ?_, hEnds⟩
      · refine (pairwise_of_forall_mem_list fun a ha b hb => ?_).isChain
        rw [hChars a ha, hChars b hb]
        rfl
      · simp [isNameChar_of_isAlpha, hAlpha, hAlpha']
      · exact ⟨fun h => absurd h (hPoint hAlpha'), fun h => absurd h (hPoint hAlpha)⟩

theorem Cut.mapReferences (h : Cut before ps) (hf : Renames f) (hEnd : SameEnd before before') :
    Cut before' (mapReferences f before ps) := by
  induction h generalizing before' with
  | nil => exact .nil
  | @cons before p ps hFilled hJoined hFront hRest ih =>
    have hPlace := hf.takesPlace hFilled hJoined (refersBetween before ps.flatten)
    refine .cons hPlace.filled hPlace.joined ?_ (ih (hPlace.ends hEnd))
    rw [hEnd.nameChar, hPlace.nameChar, hFront]

theorem Cut.point_mapReferences (h : Cut before ps) (hf : Renames f) :
    (Name.mapReferences f before ps).flatten.head? = some '.' ↔ ps.flatten.head? = some '.' := by
  cases h with
  | nil => exact .rfl
  | @cons _ p ps hFilled hJoined _ _ =>
    have hPlace := hf.takesPlace hFilled hJoined (refersBetween before ps.flatten)
    rw [Name.mapReferences, flatten_cons, flatten_cons, List.head?_append_of_ne_nil _ hPlace.filled,
      List.head?_append_of_ne_nil _ hFilled, hPlace.point]

/-- Renames in a row are one map over the pieces. -/
theorem Cut.mapReferences_comp (h : Cut before ps) (hf : Renames f) (hEnd : SameEnd before before') :
    Name.mapReferences g before' (Name.mapReferences f before ps) = Name.mapReferences (g ∘ f) before ps := by
  induction h generalizing before' with
  | nil => rfl
  | @cons before p ps hFilled hJoined hFront hRest ih =>
    have hPlace := hf.takesPlace hFilled hJoined (refersBetween before ps.flatten)
    have hBetween : refersBetween before' (Name.mapReferences f (before ++ p) ps).flatten =
        refersBetween before ps.flatten := by
      simp only [refersBetween, hEnd.quotes, hEnd.point, ne_eq, hRest.point_mapReferences hf]
    rw [Name.mapReferences, Name.mapReferences, Name.mapReferences, hBetween, ih (hPlace.ends hEnd)]
    cases refersBetween before ps.flatten <;> rfl

theorem mapReferences_congr (h : ∀ p ∈ ps, f p = g p) :
    mapReferences f before ps = mapReferences g before ps := by
  induction ps generalizing before with
  | nil => rfl
  | cons p ps ih =>
    rw [forall_mem_cons] at h
    rw [mapReferences, mapReferences, h.1, ih h.2]

end

theorem toList_replace (ha : IsIdentifier a.toList) (text b : String) :
    (replace text a b).toList =
      (mapReferences (substitute a.toList b.toList) [] (pieces text.toList)).flatten := by
  rw [replace_eq_renamedFrom ha, String.toList_ofList, ← renamedFrom_pieces ha (cut_pieces _)]
  exact congrArg _ (flatten_splitBy _ text.toList).symm

theorem toList_replace_replace {b c : String} (ha : IsIdentifier a.toList) (hb : IsIdentifier b.toList)
    (hc : IsIdentifier c.toList) (text d : String) :
    (replace (replace text a b) c d).toList =
      (mapReferences (substitute c.toList d.toList ∘ substitute a.toList b.toList) []
      (pieces text.toList)).flatten := by
  have hCut := cut_pieces text.toList
  have hf := renames_substitute ha hb
  rw [toList_replace hc, toList_replace ha, (hCut.mapReferences hf ⟨rfl, .rfl, rfl⟩).pieces,
    hCut.mapReferences_comp hf ⟨rfl, .rfl, rfl⟩]

/-- A rename replaces the pieces of a text that are the name, where a name refers to an object, and
nothing else. So a rename to a name that the text does not have can be followed by another or
undone, and two renames between different names can be exchanged. -/
theorem replace_rewrites_references (text : String) {a : String} (ha : isValid a = true) :
    (∀ b, (replace text a b).toList =
      (mapReferences (substitute a.toList b.toList) [] (pieces text.toList)).flatten) ∧
    (∀ b, isValid b = true → b.toList ∉ pieces text.toList →
      (∀ c, replace (replace text a b) b c = replace text a c) ∧ replace (replace text a b) b a = text) ∧
    (∀ b c d, isValid b = true → isValid c = true → isValid d = true → a ≠ c → a ≠ d → b ≠ c →
      replace (replace text a b) c d = replace (replace text c d) a b) := by
  have ha := isIdentifier_of_isValid ha
  refine ⟨toList_replace ha text, fun b hb hLacks => ?_, fun b c d hb hc hd hac had hbc => ?_⟩
  · have hb := isIdentifier_of_isValid hb
    have hTwice : ∀ c, replace (replace text a b) b c = replace text a c := by
      intro c
      rw [← String.toList_inj, toList_replace_replace ha hb hb, toList_replace ha]
      refine congrArg _ (mapReferences_congr fun p hp => ?_)
      have hNot : p ≠ b.toList := fun h => hLacks (h ▸ hp)
      by_cases hSame : p = a.toList <;> simp [substitute, hSame, hNot]
    exact ⟨hTwice, (hTwice a).trans (replace_self ha text)⟩
  · have hb := isIdentifier_of_isValid hb
    have hc := isIdentifier_of_isValid hc
    have hd := isIdentifier_of_isValid hd
    rw [← String.toList_inj, toList_replace_replace ha hb hc, toList_replace_replace hc hd ha]
    refine congrArg _ (mapReferences_congr fun p _ => ?_)
    by_cases hA : p = a.toList
    · simp [substitute, hA, String.toList_inj, hac, hbc]
    · by_cases hC : p = c.toList <;> simp [substitute, hA, hC, String.toList_inj, Ne.symm hac, Ne.symm had]

/-- A name, a field of it, a longer name and a string. -/
theorem replace_rewrites_references_fields :
    replace "sat1.X + sat1.X.Y - 'X' + X2" "X" "cs" = "sat1.X + sat1.cs.Y - 'X' + X2" ∧
    replace (replace "sat1.X + sat1.X.Y - 'X' + X2" "X" "cs") "cs" "Z" = "sat1.X + sat1.Z.Y - 'X' + X2" ∧
    replace (replace "sat1.X + sat1.X.Y - 'X' + X2" "X" "cs") "sat1" "s" =
      replace (replace "sat1.X + sat1.X.Y - 'X' + X2" "sat1" "s") "X" "cs" := by
  obtain ⟨hPieces, hTwice, hSwap⟩ :=
    replace_rewrites_references "sat1.X + sat1.X.Y - 'X' + X2" (a := "X") (by decide +kernel)
  have hLacks : "cs".toList ∉ pieces "sat1.X + sat1.X.Y - 'X' + X2".toList := by decide +kernel
  refine ⟨?_, ?_, ?_⟩
  · rw [← String.toList_inj, hPieces]
    decide +kernel
  · rw [(hTwice "cs" (by decide +kernel) hLacks).1 "Z", ← String.toList_inj, hPieces]
    decide +kernel
  · exact hSwap "cs" "sat1" "s" (by decide +kernel) (by decide +kernel) (by decide +kernel) (by decide)
      (by decide)
      (by decide)

end Mission.Name
