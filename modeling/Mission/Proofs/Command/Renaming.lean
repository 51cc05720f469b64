import Mission.Command.Assignment
import Mission.Proofs.Expr.Renaming

/-! Renaming an expression before and after it is read. The scan that renames the text and the walk that
renames the leaves agree exactly if the text is aligned. An assignment has one more reason to depend on
the order: a right-hand side that looks like a string without its first quote is refused, and whether it
does depends on the name. -/
namespace Mission

open Text Name

namespace Expr

theorem rename_self {old : String} (hOld : IsIdentifier old.toList) (e : Expr) :
    e.rename old old = e := by
  induction e with
  | number x => rfl
  | string text => rfl
  | element name => rw [rename, replace_self hOld]
  | negate e ih => rw [rename, ih]
  | binary op left right ihLeft ihRight => rw [rename, ihLeft, ihRight]
  | call f e ih => rw [rename, ih]
  | atan2 y x ihY ihX => rw [rename, ihY, ihX]

/-- What the texts on both sides of a renaming read as. -/
theorem parse_replace {text old new : String} {e : Expr} (hParse : parse text = .ok e)
    (hOld : isValid old = true) (hNew : isValid new = true)
    (hOldPlain : MathFunction.ofName? old = none) (hNewPlain : MathFunction.ofName? new = none) :
    ∃ e', parse (replace text old new) = .ok e' ∧ e'.skeleton = e.skeleton ∧
      (e' = e.rename old new ↔ old = new ∨ Aligned old text) := by
  have hOldName := isIdentifier_of_isValid hOld
  have hNewName := isIdentifier_of_isValid hNew
  by_cases hSame : old = new
  · subst hSame
    refine ⟨e, ?_, rfl, ?_⟩
    · rw [replace_self hOldName, hParse]
    · simp [rename_self hOldName]
  · obtain ⟨rest, hReads, hRest⟩ := parse_eq_ok_iff.mp hParse
    have hRenaming : Renaming old.toList new.toList := by
      refine ⟨hOldName, hNewName, fun h => hSame (String.toList_inj.mp h), ?_, ?_⟩
      · rwa [String.ofList_toList]
      · rwa [String.ofList_toList]
    have hCorresponds : Corresponds old.toList new.toList (.chain .sum) text.toList e rest :=
      hReads.follows hRenaming (ends_of_stripStart_nil hRest)
    obtain ⟨taken, e', hTaken, hReads', -, hMatch⟩ := hCorresponds [] open_nil
    obtain ⟨gap, hGap, hSplit⟩ := exists_gap rest
    rw [hRest, List.append_nil] at hSplit
    subst hSplit
    rw [renamedFrom_eq_of_gap hOldName hGap] at hReads'
    refine ⟨e', parse_eq_ok_iff.mpr ⟨rest, ?_, hRest⟩, hMatch.build, ?_⟩
    · rw [replace_eq_renamedFrom hOldName, String.toList_ofList]
      exact hReads'
    · have hIff := hMatch.iff
      rw [renamed, String.ofList_toList, String.ofList_toList] at hIff
      rw [hIff, or_iff_right hSame, ← alignedIn_iff_aligned hOldName, hTaken, alignedIn_append,
        List.append_nil]
      exact (and_iff_left (alignedIn_of_not_isAlpha hOldName (not_isAlpha_of_gap hGap) _)).symm

/-- Whether an expression counts as an equation, by its topmost node. -/
def equates (allowSingle : Bool) : Expr → Bool
  | number _ | element _ => allowSingle
  | string _ => false
  | _ => true

theorem isEquation_of_skeleton {text text' : String} {e e' : Expr} (h : parse text = .ok e)
    (h' : parse text' = .ok e') (hBuild : e'.skeleton = e.skeleton) (allowSingle : Bool) :
    isEquation text' allowSingle = isEquation text allowSingle := by
  -- Which texts are equations depends on the topmost node alone, and the build keeps its kind.
  have hTop : ∀ {text : String} {e : Expr}, parse text = .ok e →
      isEquation text allowSingle = e.skeleton.equates allowSingle := by
    intro text e h
    unfold isEquation
    rw [h]
    cases e <;> rfl
  rw [hTop h, hTop h', hBuild]

end Expr

theorem Formula.parse_of_parse {text : String} {e : Expr} (h : Expr.parse text = .ok e) :
    Formula.parse text = .ok ⟨trim text, e⟩ := by
  unfold Formula.parse
  rw [h]
  rfl

/-- What an equation makes of a text that reads as an expression. -/
theorem Equation.read_of_parse {text : String} {e : Expr} (h : Expr.parse text = .ok e)
    (functions : List String) : Equation.read text false functions =
      if Expr.isEquation text false = true then
        if lacksStartQuote functions (trim text) = true then .error .missingStartQuote
        else .ok (some ⟨trim text, e⟩)
      else .ok none := by
  unfold Equation.read
  cases hEquation : Expr.isEquation text false with
  | false => rfl
  | true =>
    simp only [Bool.not_true, Bool.false_eq_true, if_false, if_true]
    cases hQuote : lacksStartQuote functions (trim text) with
    | true => rw [if_pos rfl, if_pos rfl]
    | false =>
      simp only [Bool.false_eq_true, if_false]
      rw [Formula.parse_of_parse (Expr.parse_trim h), trim_trim]
      rfl

namespace Assignment

/-- The assignment with an expression. -/
def withFormula (a : Assignment) (f : Formula) : Assignment :=
  { a with equation := { a.equation with formula := some f } }

/-- An assignment without an equation gets the one that its right-hand side reads as. -/
theorem build_of_parse {a : Assignment} {e : Expr} (hFresh : a.equation.formula = none)
    (hParse : Expr.parse a.rhs = .ok e) (functions : List String) (w : Workspace) :
    (a.build functions w).1 =
      if Expr.isEquation a.rhs false = true then
        if Equation.lacksStartQuote functions (trim a.rhs) = true then
          .error (.math .missingStartQuote)
        else .ok (a.withFormula ⟨trim a.rhs, e⟩, true)
      else .ok (a, false) := by
  have hNone : ¬ a.equation.formula.isSome = true := by
    rw [hFresh]
    exact Bool.false_ne_true
  unfold build Equation.build
  rw [if_neg hNone, Equation.read_of_parse hParse]
  split
  · split
    · rfl
    · rfl
  · rfl

/-- Whether an assignment is renamed before or after it gets its equation. -/
theorem build_rename_iff {a : Assignment} {e e' : Expr} {old new : String}
    (hOld : IsIdentifier old.toList) (hNew : IsIdentifier new.toList)
    (hFresh : a.equation.formula = none) (hParse : Expr.parse a.rhs = .ok e)
    (hParse' : Expr.parse (replace a.rhs old new) = .ok e') (hBuild : e'.skeleton = e.skeleton)
    (functions : List String) (w : Workspace) :
    ((a.rename old new).build functions w).1 =
        (a.build functions w).1.map (fun (b, built) => (b.rename old new, built)) ↔
      (Expr.isEquation a.rhs false = true →
        Equation.lacksStartQuote functions (trim a.rhs) =
            Equation.lacksStartQuote functions (trim (replace a.rhs old new)) ∧
          (Equation.lacksStartQuote functions (trim a.rhs) = false → e' = e.rename old new)) := by
  have hFresh' : (a.rename old new).equation.formula = none := by
    simp only [rename, Equation.rename, hFresh, Option.map_none]
  have hRhs : (a.rename old new).rhs = replace a.rhs old new := rfl
  have hFormula : (a.rename old new).withFormula ⟨trim (replace a.rhs old new), e'⟩ =
      (a.withFormula ⟨trim a.rhs, e⟩).rename old new ↔ e' = e.rename old new := by
    simp [withFormula, rename, Equation.rename, Formula.rename, trim_replace hOld hNew]
  rw [build_of_parse hFresh hParse, build_of_parse hFresh' hParse', hRhs,
    Expr.isEquation_of_skeleton hParse hParse' hBuild]
  by_cases hEquation : Expr.isEquation a.rhs false = true
  · simp only [hEquation, if_true, forall_const]
    cases Equation.lacksStartQuote functions (trim a.rhs) <;>
      cases Equation.lacksStartQuote functions (trim (replace a.rhs old new)) <;>
      simp [Except.map, hFormula]
  · simp [hEquation, Except.map]

/-- Renaming commutes with reading exactly if the text is aligned, be it that the text is renamed
itself, as a part of the formula read from it, or in an assignment that is still to get its equation.
The assignment must moreover look like a string without its first quote under both names or under
none. -/
theorem renaming_commutes_iff {text old new : String} {e : Expr} (hParse : Expr.parse text = .ok e)
    (hOld : isValid old = true) (hNew : isValid new = true)
    (hOldPlain : MathFunction.ofName? old = none) (hNewPlain : MathFunction.ofName? new = none) :
    (Expr.parse (replace text old new) = .ok (e.rename old new) ↔
        old = new ∨ Expr.Aligned old text) ∧
      (∀ f, Formula.parse text = .ok f →
        (Expr.parse (f.rename old new).text = .ok (f.rename old new).expr ↔
          old = new ∨ Expr.Aligned old text)) ∧
      ∀ (a : Assignment) (functions : List String) (w : Workspace), a.rhs = text →
        a.equation.formula = none →
        (((a.rename old new).build functions w).1 =
            (a.build functions w).1.map (fun (b, built) => (b.rename old new, built)) ↔
          (Expr.isEquation text false = true →
            Equation.lacksStartQuote functions (trim text) =
                Equation.lacksStartQuote functions (trim (replace text old new)) ∧
              (Equation.lacksStartQuote functions (trim text) = false →
                old = new ∨ Expr.Aligned old text))) := by
  have hOldName := isIdentifier_of_isValid hOld
  have hNewName := isIdentifier_of_isValid hNew
  obtain ⟨e', hParse', hBuild, hIff⟩ := Expr.parse_replace hParse hOld hNew hOldPlain hNewPlain
  refine ⟨?_, ?_, ?_⟩
  · rw [hParse', Except.ok.injEq, hIff]
  · intro f hFormula
    rw [Formula.parse_of_parse hParse] at hFormula
    cases hFormula
    change Expr.parse (replace (trim text) old new) = .ok (e.rename old new) ↔ _
    rw [← trim_replace hOldName hNewName, Expr.parse_trim hParse', Except.ok.injEq, hIff]
  · rintro a functions w rfl hFresh
    rw [build_rename_iff hOldName hNewName hFresh hParse hParse' hBuild, hIff]

/-- Two marks behind one another leave the scan where it was. -/
theorem renaming_commutes_twice_transposed : Expr.Aligned "y" " x'' * y + A(y, 'y') - Sat.y.y" := by
  have hParse : Expr.parse " x'' * y + A(y, 'y') - Sat.y.y" = .ok
      (.binary .subtract
        (.binary .add
          (.binary .multiply (.call .transpose (.call .transpose (.element "x"))) (.element "y"))
          (.element "A(y, 'y')"))
        (.element "Sat.y.y")) := by cbv
  have hRenamed : Expr.parse (replace " x'' * y + A(y, 'y') - Sat.y.y" "y" "zeta") = .ok
      (Expr.rename "y" "zeta" (.binary .subtract
        (.binary .add
          (.binary .multiply (.call .transpose (.call .transpose (.element "x"))) (.element "y"))
          (.element "A(y, 'y')"))
        (.element "Sat.y.y"))) := by cbv
  exact ((renaming_commutes_iff hParse (by decide) (by decide) (by decide) (by decide)).1.mp
    hRenamed).resolve_left (by decide)

/-- A mark in front of a reference hides it from the scan, and the text keeps the old name. -/
theorem renaming_lost_behind_mark :
    ∃ e, Expr.parse "x' + y" = .ok e ∧ Expr.parse (replace "x' + y" "y" "z") = .ok e ∧
      Expr.parse (replace "x' + y" "y" "z") ≠ .ok (e.rename "y" "z") := by
  have hKept : Expr.parse (replace "x' + y" "y" "z") =
      .ok (.binary .add (.call .transpose (.element "x")) (.element "y")) := by cbv
  have hLeaf : Expr.rename "y" "z" (.binary .add (.call .transpose (.element "x")) (.element "y")) =
      .binary .add (.call .transpose (.element "x")) (.element "z") := by cbv
  refine ⟨.binary .add (.call .transpose (.element "x")) (.element "y"), by cbv, hKept, ?_⟩
  rw [hKept, hLeaf]
  simp

end Assignment

end Mission
