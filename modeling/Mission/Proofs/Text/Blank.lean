import Mathlib.Data.List.DropRight
import Mission.Text.Blank

/-! Skipping blanks. What stands behind the blanks in front of a text depends neither on how many of
them there are nor on how often they are skipped, and dropping those at the end does not change it. -/
namespace Mission.Text

open List

variable {c : Char} {cs : List Char}

/-- Nothing but blanks, possibly none. -/
def Gap (cs : List Char) : Prop :=
  cs.all isBlank = true

@[simp] theorem gap_nil : Gap [] :=
  rfl

theorem gap_cons : Gap (c :: cs) ↔ isBlank c = true ∧ Gap cs := by
  simp [Gap]

theorem stripStart_cons_of_blank (h : isBlank c = true) (cs : List Char) :
    stripStart (c :: cs) = stripStart cs := by
  simp [stripStart, h]

theorem stripStart_cons (h : isBlank c = false) (cs : List Char) : stripStart (c :: cs) = c :: cs := by
  simp [stripStart, h]

theorem stripStart_gap {gap : List Char} (h : Gap gap) (cs : List Char) :
    stripStart (gap ++ cs) = stripStart cs := by
  induction gap with
  | nil => rfl
  | cons c gap ih =>
    obtain ⟨hBlank, hGap⟩ := gap_cons.mp h
    rw [cons_append, stripStart_cons_of_blank hBlank, ih hGap]

theorem stripStart_eq_nil (h : Gap cs) : stripStart cs = [] := by
  have hStrip := stripStart_gap h []
  rwa [append_nil] at hStrip

theorem isBlank_of_stripStart {after : List Char} (h : stripStart cs = c :: after) : isBlank c = false := by
  have hHead := List.head?_dropWhile_not isBlank cs
  rw [show cs.dropWhile isBlank = c :: after from h] at hHead
  exact hHead

@[simp] theorem stripStart_stripStart (cs : List Char) : stripStart (stripStart cs) = stripStart cs := by
  cases hFront : stripStart cs with
  | nil => rfl
  | cons c after => exact stripStart_cons (isBlank_of_stripStart hFront) after

/-- The blanks that are skipped are a part of the text of their own. -/
theorem exists_gap (cs : List Char) : ∃ gap, Gap gap ∧ cs = gap ++ stripStart cs := by
  induction cs with
  | nil => exact ⟨[], rfl, rfl⟩
  | cons c cs ih =>
    cases hBlank : isBlank c with
    | false => exact ⟨[], rfl, (stripStart_cons hBlank cs).symm⟩
    | true =>
      obtain ⟨gap, hGap, hSplit⟩ := ih
      refine ⟨c :: gap, gap_cons.mpr ⟨hBlank, hGap⟩, ?_⟩
      rw [stripStart_cons_of_blank hBlank, cons_append, ← hSplit]

/-! ### At the end -/

theorem stripEnd_isPrefix (cs : List Char) : stripEnd cs <+: cs :=
  rdropWhile_prefix isBlank cs

@[simp] theorem stripEnd_nil : stripEnd [] = [] :=
  rfl

theorem stripEnd_eq_nil (h : Gap cs) : stripEnd cs = [] :=
  rdropWhile_eq_nil_iff.mpr (all_eq_true.mp h)

theorem stripEnd_concat_of_blank (h : isBlank c = true) (cs : List Char) :
    stripEnd (cs ++ [c]) = stripEnd cs :=
  rdropWhile_concat_pos isBlank cs c h

theorem stripEnd_concat (h : ¬ isBlank c = true) (cs : List Char) : stripEnd (cs ++ [c]) = cs ++ [c] :=
  rdropWhile_concat_neg isBlank cs c h

theorem exists_gap_end (cs : List Char) : ∃ gap, Gap gap ∧ cs = stripEnd cs ++ gap := by
  induction cs using List.reverseRecOn with
  | nil => exact ⟨[], rfl, rfl⟩
  | append_singleton cs c ih =>
    by_cases hBlank : isBlank c = true
    · obtain ⟨gap, hGap, hSplit⟩ := ih
      refine ⟨gap ++ [c], ?_, ?_⟩
      · rw [Gap, all_append, hGap]
        simpa using hBlank
      · rw [stripEnd_concat_of_blank hBlank, ← append_assoc, ← hSplit]
    · exact ⟨[], rfl, by rw [stripEnd_concat hBlank, append_nil]⟩

theorem getLast?_stripEnd (cs : List Char) : ∀ c ∈ (stripEnd cs).getLast?, isBlank c = false := by
  intro c hc
  obtain ⟨hNonempty, rfl⟩ := mem_getLast?_eq_getLast hc
  exact Bool.eq_false_iff.mpr (rdropWhile_last_not isBlank cs hNonempty)

/-- What ends in no blank stays, whatever follows it. -/
theorem stripEnd_append (h : ∀ c ∈ cs.getLast?, isBlank c = false) (rest : List Char) :
    stripEnd (cs ++ rest) = cs ++ stripEnd rest := by
  induction rest using List.reverseRecOn with
  | nil =>
    rw [stripEnd_nil, append_nil]
    refine rdropWhile_eq_self_iff.mpr fun hNonempty => ?_
    simp [h _ (getLast_mem_getLast? hNonempty)]
  | append_singleton rest c ih =>
    rw [← append_assoc]
    by_cases hBlank : isBlank c = true
    · rw [stripEnd_concat_of_blank hBlank, stripEnd_concat_of_blank hBlank, ih]
    · rw [stripEnd_concat hBlank, stripEnd_concat hBlank, append_assoc]

/-- A character is dropped only together with all that follows it. -/
theorem stripEnd_cons_or (c : Char) (cs : List Char) :
    stripEnd (c :: cs) = c :: stripEnd cs ∨ stripEnd (c :: cs) = [] ∧ stripEnd cs = [] := by
  induction cs using List.reverseRecOn with
  | nil =>
    by_cases hBlank : isBlank c = true
    · exact .inr ⟨stripEnd_concat_of_blank hBlank [], rfl⟩
    · exact .inl (stripEnd_concat hBlank [])
  | append_singleton cs d ih =>
    rw [← cons_append]
    by_cases hBlank : isBlank d = true
    · rwa [stripEnd_concat_of_blank hBlank, stripEnd_concat_of_blank hBlank]
    · rw [stripEnd_concat hBlank, stripEnd_concat hBlank]
      exact .inl rfl

theorem stripEnd_cons (h : isBlank c = false) (cs : List Char) : stripEnd (c :: cs) = c :: stripEnd cs := by
  have hOne : ∀ d ∈ [c].getLast?, isBlank d = false := by
    rintro d ⟨⟩
    exact h
  exact stripEnd_append hOne cs

theorem stripStart_stripEnd (cs : List Char) :
    stripStart (stripEnd cs) = stripEnd (stripStart cs) := by
  obtain ⟨gap, hGap, hSplit⟩ := exists_gap cs
  cases hFront : stripStart cs with
  | nil =>
    rw [hFront, append_nil] at hSplit
    rw [hSplit, stripEnd_eq_nil hGap]
    rfl
  | cons c after =>
    have hBlank := isBlank_of_stripStart hFront
    have hLast : ∀ d ∈ (gap ++ [c]).getLast?, isBlank d = false := by simpa using hBlank
    have hAppend := stripEnd_append hLast after
    rw [append_assoc, append_assoc, singleton_append, singleton_append] at hAppend
    rw [hSplit, hFront, hAppend, stripStart_gap hGap, stripStart_cons hBlank, stripEnd_cons hBlank]

theorem toList_trim (text : String) : (trim text).toList = stripStart (stripEnd text.toList) := by
  rw [trim, String.toList_ofList, stripStart_stripEnd, strip]

@[simp] theorem trim_trim (text : String) : trim (trim text) = trim text := by
  refine String.toList_inj.mp ?_
  have hEnd : stripEnd (stripEnd text.toList) = stripEnd text.toList :=
    rdropWhile_idempotent isBlank _
  rw [toList_trim, toList_trim, stripStart_stripEnd, stripStart_stripStart, ← stripStart_stripEnd, hEnd]

end Mission.Text
