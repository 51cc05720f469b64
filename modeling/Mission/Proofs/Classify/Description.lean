import Mission.Proofs.Literal.Parentheses

/-! Descriptions of accessors. Whatever a text stands for, the accessor that it is classified as is
described by the text itself, without the blanks and the parentheses around it. -/
namespace Mission

open Outcome

/-! ### Blanks and parentheses around a text -/

theorem Text.mem_strip {c : Char} {cs : List Char} (h : c ∈ cs) (hBlank : isBlank c = false) :
    c ∈ strip cs := by
  have hNot : ∀ {gap : List Char}, Gap gap → c ∉ gap := by
    intro gap hGap hMem
    have hTrue := List.all_eq_true.mp hGap c hMem
    rw [hBlank] at hTrue
    cases hTrue
  obtain ⟨front, hFront, hCs⟩ := exists_gap cs
  obtain ⟨behind, hBehind, hRest⟩ := exists_gap_end (stripStart cs)
  rw [hCs] at h
  have hStart := (List.mem_append.mp h).resolve_left (hNot hFront)
  rw [hRest] at hStart
  exact (List.mem_append.mp hStart).resolve_right (hNot hBehind)

namespace Literal

theorem mem_inner {c : Char} {cs : List Char} (hOpen : c ≠ '(') (hClose : c ≠ ')')
    (h : isParenthesised cs = true) (hMem : c ∈ cs) : c ∈ inner cs := by
  obtain ⟨body, rfl, -⟩ := isParenthesised_iff.mp h
  simpa [inner, hOpen, hClose] using hMem

theorem mem_unparenthesise {c : Char} {text : String} (hBlank : Text.isBlank c = false) (hOpen : c ≠ '(')
    (hClose : c ≠ ')') (h : c ∈ text.toList) : c ∈ (unparenthesise text).toList := by
  rw [unparenthesise, String.toList_ofList]
  generalize text.toList = cs at h
  fun_induction unparenthesiseChars cs with
  | case1 cs stripped hParentheses ih =>
    exact ih (mem_inner hOpen hClose hParentheses (Text.mem_strip h hBlank))
  | case2 cs stripped hParentheses => exact Text.mem_strip h hBlank

end Literal

/-! ### Descriptions -/

/-- The text that the phrase was read from, if it could be read. -/
def Phrase.Describes (text : String) : Phrase → Prop
  | literal a => a.description = text
  | element description _ _ _ => description = text
  | identifier description => description = text
  | malformed _ => True

theorem Phrase.describes_ofBare (description : String) : (ofBare description).Describes description := by
  rw [ofBare]
  split
  · next a h =>
      unfold literal? at h
      split at h
      · cases h
        rfl
      · split at h
        · cases h
          rfl
        · obtain ⟨x, -, rfl⟩ := Option.map_eq_some_iff.mp h
          rfl
  · split
    · trivial
    · rfl
    · rfl

namespace Classify

variable {w : Workspace} {description : String}

/-- Where the step succeeds, its accessor is described by the text. -/
abbrev Describes (text : String) (step : Step ClassifyError Accessor) (w : Workspace) : Prop :=
  Meets step w (fun _ => True) fun _ a => a.description = text

theorem Means.describes {kinds : ParameterKinds} {w' : Workspace} {a : Accessor}
    (h : Means kinds description w w' a) : a.description = description := by
  cases h with
  | literal _ hDescription => exact hDescription
  | _ => rfl

theorem describes_noteCreated {a : Accessor} (h : a.description = description) :
    Describes description (noteCreated a) w :=
  Step.meets_note_bind (.pure h)

theorem describes_resolve (kinds : ParameterKinds) (options : ClassifyOptions) {phrase : Phrase}
    (h : phrase.Describes description) : Describes description (resolve kinds options phrase) w := by
  cases phrase with
  | literal a => exact describes_noteCreated h
  | malformed e => exact .throw _ trivial
  | identifier d =>
    obtain rfl : d = description := h
    have hMeans := identifier_means kinds options d w
    exact .bind (hMeans.mono (fun _ _ => trivial) fun _ _ => Means.describes) fun a w' ha =>
      describes_noteCreated ha
  | element d name row column =>
    obtain rfl : d = description := h
    refine .get (.lift_bind trivial fun array _ => ?_)
    refine .bind (P := fun _ _ => True) ⟨fun _ => trivial, fun _ => trivial⟩ fun row w₁ _ => ?_
    refine .bind (P := fun _ _ => True) ⟨fun _ => trivial, fun _ => trivial⟩ fun column w₂ _ => ?_
    exact .get (describes_noteCreated rfl)

end Classify

/-- An accessor is described by the text that it comes from, without blanks and parentheses around it. -/
theorem describes_classify (kinds : ParameterKinds) (options : ClassifyOptions) (text : String)
    (w : Workspace) :
    Classify.Describes (Literal.unparenthesise text) (classify kinds options text) w :=
  Classify.describes_resolve kinds options (Phrase.describes_ofBare _)

end Mission
