import Mission.Object.Property
import Mission.Proofs.Name.Scan

/-! Renaming there and back. A text in which the new name does not stand as an identifier of its own is
restored by the reverse rename, so no two such texts become one. -/
namespace Mission

open List Option

namespace Property

variable {separates : Char → Bool} {name back : List Char}

theorem mem_runs_append (run : List Char) (hName : ∀ c ∈ name, separates c = false)
    (hBack : ∀ c ∈ back.head?, separates c = true) (hRun : run.reverse ++ name ≠ []) :
    run.reverse ++ name ∈ runs separates (name ++ back) run := by
  induction name generalizing run with
  | nil =>
    rw [append_nil] at hRun ⊢
    have hFull : ¬ run.isEmpty = true := by simpa using hRun
    cases back with
    | nil => simp [runs, hFull]
    | cons c back => simp [runs, hBack c rfl, hFull]
  | cons c name ih =>
    rw [forall_mem_cons] at hName
    have hRest := ih (c :: run) hName.2 (by simp)
    simpa [runs, hName.1] using hRest

/-- A piece between separators is one of the runs. -/
theorem mem_runs {front run : List Char} (hName : ∀ c ∈ name, separates c = false) (hEmpty : name ≠ [])
    (hFront : ∀ c ∈ front.getLast?, separates c = true) (hRun : front = [] → run = [])
    (hBack : ∀ c ∈ back.head?, separates c = true) :
    name ∈ runs separates (front ++ name ++ back) run := by
  induction front generalizing run with
  | nil =>
    have hAll := mem_runs_append run hName hBack (by simp [hEmpty])
    rw [hRun rfl] at hAll ⊢
    exact hAll
  | cons c front ih =>
    have hLater : ∀ {run}, (front = [] → run = []) → name ∈ runs separates (front ++ name ++ back) run := by
      intro run hRun
      refine ih (fun d hd => hFront d ?_) hRun
      rw [← singleton_append, List.getLast?_append, hd]
      rfl
    rw [cons_append, cons_append, runs]
    split
    · split
      · exact hLater fun _ => rfl
      · exact mem_cons_of_mem _ (hLater fun _ => rfl)
    · next hChar =>
        refine hLater fun hFront' => absurd (hFront c ?_) hChar
        rw [hFront']
        rfl

/-- A separator at the end starts no run. -/
theorem runs_concat {c : Char} (hc : separates c = true) (cs run : List Char) :
    runs separates (cs ++ [c]) run = runs separates cs run := by
  induction cs generalizing run with
  | nil => simp [runs, hc]
  | cons d cs ih => simp only [cons_append, runs, ih]

end Property

namespace Name

/-- The identifiers of a text, wherever they stand: its longest runs of name characters. -/
def identifiers (text : String) : List String :=
  (Property.runs (fun c => !isNameChar c) text.toList []).map String.ofList

section

variable {old new : List Char}
variable {name before cs out : List Char}

/-- The name stands in the text `cs` behind `before` as an identifier of its own. -/
def StandsIn (name before cs : List Char) : Prop :=
  ∃ front back, cs = front ++ name ++ back ∧ (before ++ front).getLast?.any isNameChar = false ∧
    back.head?.any isNameChar = false

theorem StandsIn.append {passed : List Char} (h : StandsIn name (before ++ passed) cs) :
    StandsIn name before (passed ++ cs) := by
  obtain ⟨front, back, rfl, hFront, hBack⟩ := h
  refine ⟨passed ++ front, back, by simp only [append_assoc], ?_, hBack⟩
  rwa [← append_assoc]

theorem StandsIn.mem_identifiers {name text : String} (hName : IsIdentifier name.toList)
    (h : StandsIn name.toList [] text.toList) : name ∈ identifiers text := by
  obtain ⟨front, back, hText, hFront, hBack⟩ := h
  refine mem_map.mpr ⟨name.toList, ?_, String.ofList_toList⟩
  rw [hText]
  refine Property.mem_runs (fun c hc => ?_) hName.ne_nil (fun c hc => ?_) (fun _ => rfl) fun c hc => ?_
  · rw [hName.isNameChar c hc]
    rfl
  · rw [nil_append, hc] at hFront
    rw [show isNameChar c = false from hFront]
    rfl
  · rw [hc] at hBack
    rw [show isNameChar c = false from hBack]
    rfl

/-- What a name behind the two texts can tell of them is the same. -/
structure SameEnd (before before' : List Char) : Prop where
  nameChar : before'.getLast?.any isNameChar = before.getLast?.any isNameChar
  point : before'.getLast? = some '.' ↔ before.getLast? = some '.'
  quotes : oddQuotes before' = oddQuotes before

namespace SameEnd

variable {before before' : List Char}

theorem isReference (h : SameEnd before before') (name cs : List Char) :
    isReference name before'.getLast? cs = isReference name before.getLast? cs := by
  simp only [Name.isReference, h.nameChar, h.point]

theorem concat (h : SameEnd before before') (c : Char) : SameEnd (before ++ [c]) (before' ++ [c]) := by
  refine ⟨?_, ?_, ?_⟩
  · rw [List.getLast?_concat, List.getLast?_concat]
  · rw [List.getLast?_concat, List.getLast?_concat]
  · rw [oddQuotes_append, oddQuotes_append, h.quotes]

/-- Behind a name the next name is continued, whatever the names are. -/
theorem append (h : SameEnd before before') (hOld : IsIdentifier old) (hNew : IsIdentifier new) :
    SameEnd (before ++ old) (before' ++ new) := by
  have hLast : ∀ (front : List Char) {name : List Char}, IsIdentifier name →
      ∃ c, (front ++ name).getLast? = some c ∧ isNameChar c = true := by
    intro front name hName
    refine ⟨name.getLast hName.ne_nil, ?_, hName.isNameChar _ (getLast_mem hName.ne_nil)⟩
    rw [List.getLast?_append, List.getLast?_eq_some_getLast hName.ne_nil, some_or]
  obtain ⟨c, hc, hChar⟩ := hLast before hOld
  obtain ⟨d, hd, hChar'⟩ := hLast before' hNew
  have hPoint : ∀ {e : Char}, isNameChar e = true → e ≠ '.' := by
    rintro e he rfl
    cases he
  refine ⟨?_, ?_, ?_⟩
  · rw [hc, hd, any_some, any_some, hChar, hChar']
  · rw [hc, hd, Option.some.injEq, Option.some.injEq]
    exact ⟨fun h => absurd h (hPoint hChar'), fun h => absurd h (hPoint hChar)⟩
  · rw [oddQuotes_append, oddQuotes_append, h.quotes, oddQuotes_eq_false hOld.quote_not_mem,
      oddQuotes_eq_false hNew.quote_not_mem]

end SameEnd

theorem not_isNameChar_of_isReference (h : isReference name before.getLast? cs = true) :
    before.getLast?.any isNameChar = false := by
  simp only [isReference, Bool.and_eq_true] at h
  simpa using h.1.1.2

theorem head_of_isReference {rest : List Char} (h : isReference name before.getLast? (name ++ rest) = true) :
    rest.head?.any isNameChar = false := by
  simp only [isReference, Bool.and_eq_true, drop_left] at h
  simpa using h.1.2

/-- In the middle of a name nothing is replaced: what comes out up to the end of the name was there. -/
theorem Scanned.of_name {more : List Char} (hInside : before.getLast?.any isNameChar = true)
    (h : Scanned old new before cs out) (hOut : out = name ++ more)
    (hName : ∀ c ∈ name, isNameChar c = true) (hMore : more.head?.any isNameChar = false) :
    ∃ back, cs = name ++ back ∧ back.head?.any isNameChar = false := by
  induction name generalizing before cs out with
  | nil =>
    refine ⟨cs, rfl, ?_⟩
    cases h with
    | nil => rfl
    | copy hKept hRest =>
      rw [nil_append] at hOut
      rwa [← hOut] at hMore
    | replace hRef hPlain hRest =>
      rw [not_isNameChar_of_isReference hRef] at hInside
      cases hInside
  | cons c name ih =>
    rw [forall_mem_cons] at hName
    cases h with
    | nil => cases hOut
    | copy hKept hRest =>
      cases hOut
      have hLast : (before ++ [c]).getLast?.any isNameChar = true := by
        rw [List.getLast?_concat]
        exact hName.1
      obtain ⟨back, rfl, hBack⟩ := ih hLast hRest rfl hName.2
      exact ⟨back, rfl, hBack⟩
    | replace hRef hPlain hRest =>
      rw [not_isNameChar_of_isReference hRef] at hInside
      cases hInside

/-- The scan in the other direction. It finds the places where the new name has been written and no
others. -/
theorem Scanned.reverse {before' : List Char} (hOld : IsIdentifier old) (hNew : IsIdentifier new)
    (h : Scanned old new before cs out) (hEnd : SameEnd before before') (hLacks : ¬ StandsIn new before cs) :
    Scanned new old before' out cs := by
  induction h generalizing before' with
  | nil => exact .nil
  | @copy before rest out c hKept hRest ih =>
    refine .copy (fun hRef => absurd ?_ hLacks) (ih (hEnd.concat c) fun h => hLacks h.append)
    -- A reference that the scan has not written would have been there before.
    obtain ⟨more, hMore⟩ := exists_of_isReference hRef
    have hFront := not_isNameChar_of_isReference hRef
    rw [hMore] at hRef
    have hBack := head_of_isReference hRef
    rw [hEnd.nameChar] at hFront
    have hChars := hNew.isNameChar
    obtain ⟨d, tail, rfl, -⟩ := hNew
    cases hMore
    rw [forall_mem_cons] at hChars
    have hInside : (before ++ [c]).getLast?.any isNameChar = true := by
      rw [List.getLast?_concat]
      exact hChars.1
    obtain ⟨back, rfl, hBack⟩ := hRest.of_name hInside rfl hChars.2 hBack
    exact ⟨[], back, rfl, by rwa [append_nil], hBack⟩
  | @replace before rest out hRef hPlain hRest ih =>
    have hBack := head_of_isReference hRef
    have hHead : out.head? = rest.head? := by
      rw [hRest.eq_renamedFrom hOld]
      refine head?_renamedFrom hOld fun c hc => ?_
      rw [hc] at hBack
      by_contra hAlpha
      rw [any_some, isNameChar_of_isAlpha (by simpa using hAlpha)] at hBack
      cases hBack
    refine .replace ?_ (hEnd.quotes.trans hPlain) (ih (hEnd.append hOld hNew) fun h => hLacks h.append)
    rw [hEnd.isReference]
    simp only [isReference, drop_left, isPrefixOf_iff_prefix.mpr (prefix_append _ _),
      hHead] at hRef ⊢
    exact hRef

/-- A character at the end that belongs to no name stays there. -/
theorem Scanned.getLast? {d : Char} (hOld : IsIdentifier old) (hd : isNameChar d = false)
    (h : Scanned old new before cs out) (hLast : cs.getLast? = some d) : out.getLast? = some d := by
  induction h with
  | nil => cases hLast
  | @copy before rest out c hKept hRest ih =>
    rw [← singleton_append, List.getLast?_append] at hLast ⊢
    cases hRestLast : rest.getLast? with
    | none =>
      rw [List.getLast?_eq_none_iff.mp hRestLast] at hRest hLast
      have hOut : out = [] := hRest.eq_renamedFrom hOld
      rw [hOut]
      exact hLast
    | some e =>
      rw [hRestLast] at hLast ih
      rw [ih hLast, some_or]
  | @replace before rest out hRef hPlain hRest ih =>
    rw [List.getLast?_append] at hLast ⊢
    cases hRestLast : rest.getLast? with
    | none =>
      rw [hRestLast, none_or] at hLast
      rw [hOld.isNameChar d (mem_of_getLast? hLast)] at hd
      cases hd
    | some e =>
      rw [hRestLast] at hLast ih
      rw [ih hLast, some_or]

end

variable {old new text : String}

/-- A text that lacks the new name is restored by the reverse rename. -/
theorem replace_replace (hOld : IsIdentifier old.toList) (hNew : IsIdentifier new.toList)
    (h : new ∉ identifiers text) : replace (replace text old new) new old = text := by
  have hScan : Scanned old.toList new.toList [] text.toList _ := scanned_renamedFrom hOld [] text.toList
  have hBack := hScan.reverse hOld hNew ⟨rfl, .rfl, rfl⟩ fun hStands => h (hStands.mem_identifiers hNew)
  rw [replace_eq_renamedFrom hNew, replace_eq_renamedFrom hOld, String.toList_ofList,
    ← hBack.eq_renamedFrom hNew, String.ofList_toList]

theorem mem_identifiers_self (h : IsIdentifier new.toList) : new ∈ identifiers new :=
  StandsIn.mem_identifiers h ⟨[], [], by simp, rfl, rfl⟩

theorem ne_of_not_mem_identifiers (hNew : IsIdentifier new.toList) (h : new ∉ identifiers text) :
    text ≠ new := by
  rintro rfl
  exact h (mem_identifiers_self hNew)

/-- A point behind a text adds no identifier. -/
theorem identifiers_append_point (text : String) : identifiers (text ++ ".") = identifiers text := by
  rw [identifiers, identifiers, String.toList_append, show ".".toList = ['.'] from rfl,
    Property.runs_concat (by rfl)]

/-- A name that stands alone and is replaced as a whole comes back too. -/
theorem replaced_back (hNew : IsIdentifier new.toList) (h : new ∉ identifiers text) :
    (if (if text = old then new else text) = new then old else if text = old then new else text) =
      text := by
  have hNe := ne_of_not_mem_identifiers hNew h
  by_cases hText : text = old
  · simp [hText]
  · simp [hText, hNe]

end Name

end Mission
