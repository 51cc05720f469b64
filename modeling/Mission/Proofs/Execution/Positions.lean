import Mission.Proofs.Execution.Likeness

/-! The positions of a run one after the other. There is one run, so the next positions can be
computed, and what holds of all positions of a short run can be checked. -/
namespace Mission

open List

/-- Whether all values that are written are numbers. -/
def Report.writesNumbers (slots : List Slot) (r : Registry) : Bool :=
  slots.all fun slot =>
    match slot.accessor with
    | none => true
    | some a =>
      match a.evaluate r with
      | .ok v => v.isNumber
      | .error _ => true

/-- The test decides what it says. -/
theorem Report.writesNumbers_iff {slots : List Slot} {r : Registry} :
    writesNumbers slots r = true ↔ WritesNumbers slots r := by
  unfold writesNumbers WritesNumbers
  rw [all_eq_true]
  refine forall₂_congr fun slot _ => ?_
  cases slot.accessor with
  | none => simp
  | some a => cases hValue : a.evaluate r <;> simp [hValue]

namespace Execution.Position

/-- The positions that follow. -/
def successors (p : Position) : List Position :=
  match p.task with
  | .all [] => []
  | .all (c :: rest) =>
    { p with task := .one c } ::
      match (Task.one c).run p.checker.functions.size p.checker p.scope p.stack p.state with
      | (.ok (), s) => [{ p with task := .all rest, state := s }]
      | (.error _, _) => []
  | .one (.branch .ifThen chain body otherwise _) =>
    match chain.evaluate p.state.registry with
    | .ok true => [{ p with task := .all body }]
    | .ok false => [{ p with task := .all otherwise }]
    | .error _ => []
  | .one (.branch .whileLoop chain body _ line) => [{ p with task := .loop chain body line 0 }]
  | .one (.call c line) =>
    match p.checker.functions.get? c.function with
    | none => []
    | some f =>
      match prepare p.checker p.scope c f (p.checker.locate · c.text line) p.state with
      | (.ok frame, s) =>
        [⟨p.checker.enter c.function, frame.scope, c.function :: p.stack, .all frame.body, s⟩]
      | (.error _, _) => []
  | .one _ => []
  | .loop chain body line n =>
    match chain.evaluate p.state.registry with
    | .ok true =>
      { p with task := .all body } ::
        match (Task.all body).run p.checker.functions.size p.checker p.scope p.stack p.state with
        | (.ok (), s) => [{ p with task := .loop chain body line (n + 1), state := s }]
        | (.error _, _) => []
    | _ => []

variable {ck : Checker} {p q : Position}

/-- There is one run, so a position that follows is among those computed. -/
theorem Leads.mem_successors (h : p.Leads q) (hp : p.Bounded ck) : q ∈ p.successors := by
  have hDepth : p.checker.functions.size ≤ p.checker.functions.size + p.stack.length := Nat.le_add_right _ _
  cases h with
  | first => exact mem_cons_self
  | next first =>
    have hRun := first.eq_run hp.stacked (Nat.zero_le _) hDepth
    unfold successors
    dsimp only at hRun ⊢
    rw [← hRun]
    exact mem_cons_of_mem _ mem_cons_self
  | taken holds | passed holds =>
    unfold successors
    dsimp only
    rw [holds]
    exact mem_cons_self
  | repeated => exact mem_cons_self
  | round holds more =>
    unfold successors
    dsimp only
    rw [holds]
    exact mem_cons_self
  | again holds more inner =>
    have hRun := inner.eq_run hp.stacked (Nat.zero_le _) hDepth
    unfold successors
    dsimp only at hRun ⊢
    rw [holds]
    dsimp only
    rw [← hRun]
    exact mem_cons_of_mem _ mem_cons_self
  | called idle known ready =>
    unfold successors
    dsimp only
    rw [known]
    dsimp only
    rw [ready]
    exact mem_cons_self

/-- Whether no report of the position writes anything but numbers. -/
def reportsNumbers (p : Position) : Bool :=
  match p.task with
  | .one (.report c _) => Report.writesNumbers c.slots p.state.registry
  | _ => true

theorem reportsNumbers_of_eq_true (h : p.reportsNumbers = true) : p.ReportsNumbers := by
  intro c line hTask
  unfold reportsNumbers at h
  rw [hTask] at h
  exact Report.writesNumbers_iff.mp h

/-- Whether the test holds at all positions of a run that is at most so many positions deep. -/
def everywhere (test : Position → Bool) : (depth : Nat) → Position → Bool
  | 0, _ => false
  | depth + 1, p => test p && p.successors.all (everywhere test depth)

/-- What is tested at all positions holds at all positions. -/
theorem of_everywhere {test : Position → Bool} {depth : Nat} (hp : p.Bounded ck)
    (h : everywhere test depth p = true) (hq : Relation.ReflTransGen Leads p q) : test q = true := by
  induction depth generalizing p with
  | zero => cases h
  | succ depth ih =>
    obtain ⟨hHere, hNext⟩ := Bool.and_eq_true_iff.mp h
    rcases Relation.ReflTransGen.cases_head hq with rfl | ⟨next, hLeads, hRest⟩
    · exact hHere
    · have hChecked := all_eq_true.mp hNext next (hLeads.mem_successors hp)
      exact ih (hLeads.bounded hp) hChecked hRest

/-- Whether reports write numbers only, in a run that is at most so many positions deep. -/
def onlyNumbers (depth : Nat) (p : Position) : Bool :=
  everywhere reportsNumbers depth p

/-- The test of a run decides for all its reports. -/
theorem onlyNumbers_of_eq_true {depth : Nat} (hp : p.Bounded ck) (h : onlyNumbers depth p = true) :
    p.OnlyNumbers :=
  fun _ hq => reportsNumbers_of_eq_true (of_everywhere hp h hq)

end Execution.Position

end Mission
