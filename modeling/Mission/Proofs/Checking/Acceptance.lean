import Mission.Proofs.Checking.Changes

/-! How a check comes to succeed. Every step of it has succeeded, so a command that is accepted
tells what its names were classified as, in order, and in which workspace each of them was looked
at. -/
namespace Mission

open Registry Outcome Edit CommandError

namespace Edit

variable {σ τ α : Type} {s s' : σ} {w w' : Workspace} {a : α}

theorem step_eq_ok {f : Step CommandError α} :
    (step f : Edit σ α) (s, w) = (.ok a, (s', w')) ↔ f w = (.ok a, w') ∧ s' = s := by
  unfold step
  cases f w with
  | mk x w₁ =>
    constructor
    · intro h
      cases h
      exact ⟨rfl, rfl⟩
    · rintro ⟨h, rfl⟩
      cases h
      rfl

theorem lift_eq_ok {x : Except CommandError α} :
    (liftM x : Edit σ α) (s, w) = (.ok a, (s', w')) ↔ x = .ok a ∧ s' = s ∧ w' = w := by
  cases x with
  | ok b =>
    constructor
    · intro h
      cases h
      exact ⟨rfl, rfl, rfl⟩
    · rintro ⟨h, rfl, rfl⟩
      cases h
      rfl
  | error e =>
    constructor
    · intro h
      cases h
    · rintro ⟨h, -⟩
      cases h

theorem within_eq_ok {part : τ} {rebuild : τ → σ} {f : Edit τ α} {t : σ × Workspace} :
    within part rebuild f (s, w) = (.ok a, t) ↔ ∃ part' w', f (part, w) = (.ok a, (part', w')) ∧ t =
    (rebuild part', w') := by
  unfold within
  dsimp only
  rcases f (part, w) with ⟨x, part', w'⟩
  constructor
  · intro h
    cases h
    exact ⟨part', w', rfl, rfl⟩
  · rintro ⟨part'', w'', h, rfl⟩
    cases h
    rfl

section

variable {β : Type} {b : β} {t : σ × Workspace}

theorem subject_bind_eq (g : σ → Edit σ β) : (subject >>= g) (s, w) = g s (s, w) :=
  run_bind_of_ok (f := subject) rfl

theorem replace_bind_eq (g : Unit → Edit σ β) : (replace s' >>= g) (s, w) = g () (s', w) :=
  run_bind_of_ok (f := replace s') rfl

theorem workspace_bind_eq (g : Workspace → Edit σ β) : (workspace >>= g) (s, w) = g w (s, w) :=
  run_bind_of_ok (f := workspace) rfl

theorem step_bind_eq_ok {f : Step CommandError α} {g : α → Edit σ β} :
    (step f >>= g) (s, w) = (.ok b, t) ↔ ∃ a w₁, f w = (.ok a, w₁) ∧ g a (s, w₁) = (.ok b, t) := by
  rw [run_bind_eq_ok]
  constructor
  · rintro ⟨a, ⟨s₁, w₁⟩, hStep, h⟩
    obtain ⟨hRun, rfl⟩ := step_eq_ok.mp hStep
    exact ⟨a, w₁, hRun, h⟩
  · rintro ⟨a, w₁, hRun, h⟩
    exact ⟨a, (s, w₁), step_eq_ok.mpr ⟨hRun, rfl⟩, h⟩

theorem lift_bind_eq_ok {x : Except CommandError α} {g : α → Edit σ β} :
    ((liftM x : Edit σ α) >>= g) (s, w) = (.ok b, t) ↔ ∃ a, x = .ok a ∧ g a (s, w) = (.ok b, t) := by
  rw [run_bind_eq_ok]
  constructor
  · rintro ⟨a, ⟨s₁, w₁⟩, hLift, h⟩
    obtain ⟨hx, rfl, rfl⟩ := lift_eq_ok.mp hLift
    exact ⟨a, hx, h⟩
  · rintro ⟨a, hx, h⟩
    exact ⟨a, (s, w), lift_eq_ok.mpr ⟨hx, rfl, rfl⟩, h⟩

/-- A check that must not fail on the way. -/
theorem guard_eq_ok {c : Prop} {_ : Decidable c} {e : CommandError} {g : Unit → Edit σ β} :
    (if c then (throw e >>= g) else g ()) (s, w) = (.ok b, t) ↔ ¬ c ∧ g () (s, w) = (.ok b, t) := by
  split
  · next hc =>
      constructor
      · intro h
        cases h
      · rintro ⟨hNot, -⟩
        exact absurd hc hNot
  · next hc => exact (and_iff_right hc).symm

end

end Edit

namespace Checker

variable {ck : Checker} {w w' : Workspace} {a a' : Assignment}
variable {options : ClassifyOptions} {name referencedIn : String} {rest : List String} {c : Command}

/-- The last steps for an assignment: an equation is checked, and axes are attached. -/
theorem attach_eq_ok :
    (if a.isEquation then
        workspace >>= fun w => liftM (liftMath (a.equation.validate w.registry)) >>= fun _ =>
          step (attachAxes a)
      else step (attachAxes a) : Edit Assignment Unit) (a, w) = (.ok (), (a', w')) ↔
    (a.isEquation = true → a.equation.validate w.registry = .ok ()) ∧ attachAxes a w = (.ok (), w') ∧ a' =
      a := by
  by_cases hEquation : a.isEquation = true
  · rw [if_pos hEquation, workspace_bind_eq, lift_bind_eq_ok]
    constructor
    · rintro ⟨_, hValid, h⟩
      exact ⟨fun _ => liftMath_eq_ok.mp hValid, step_eq_ok.mp h⟩
    · rintro ⟨hValid, h⟩
      exact ⟨(), liftMath_eq_ok.mpr (hValid hEquation), step_eq_ok.mpr h⟩
  · rw [if_neg hEquation, step_eq_ok]
    exact (and_iff_right fun h => absurd h hEquation).symm

/-- An assignment passes if each of the steps does: building it, its target, its sources. -/
theorem checkAssignment_eq_ok : ck.checkAssignment (a, w) = (.ok (), (a', w')) ↔
    ∃ a₁ built w₁, a.build ck.functions.keys w = (.ok (a₁, built), w₁) ∧
      ∃ target w₂, ck.accessorOf (ck.targetOptions a₁.lhs) a₁.lhs a.text w₁ = (.ok target, w₂) ∧
        ¬ target.kind.isLiteral = true ∧
        ¬ ((target.dataType w₂.registry = .string || target.dataType w₂.registry = .stringArray) &&
          Literal.hasUnbalancedQuote a₁.rhs) = true ∧
        ∃ names a₂, a₁.sourceNames = .ok (names, a₂) ∧
          ∃ w₃, ck.bindSources (target.dataType w₂.registry) a.text names (a₂.bindTarget target, w₂) =
              (.ok (), (a', w₃)) ∧
            (a'.isEquation = true → a'.equation.validate w₃.registry = .ok ()) ∧
            attachAxes a' w₃ = (.ok (), w') := by
  have hLast : ∀ {f : Edit Assignment Unit} {s : Assignment × Workspace},
      (f >>= fun _ => subject >>= fun a =>
        if a.isEquation then
          workspace >>= fun w => liftM (liftMath (a.equation.validate w.registry)) >>= fun _ =>
            step (attachAxes a)
        else step (attachAxes a)) s = (.ok (), (a', w')) ↔
      ∃ w₃, f s = (.ok (), (a', w₃)) ∧ (a'.isEquation = true → a'.equation.validate w₃.registry = .ok ()) ∧
        attachAxes a' w₃ = (.ok (), w') := by
    intro f s
    rw [run_bind_eq_ok]
    constructor
    · rintro ⟨_, ⟨a₃, w₃⟩, hRun, h⟩
      obtain ⟨hValid, hAttach, rfl⟩ := attach_eq_ok.mp h
      exact ⟨w₃, hRun, hValid, hAttach⟩
    · rintro ⟨w₃, hRun, hValid, hAttach⟩
      exact ⟨(), (a', w₃), hRun, attach_eq_ok.mpr ⟨hValid, hAttach, rfl⟩⟩
  unfold checkAssignment
  simp only [subject_bind_eq, replace_bind_eq, workspace_bind_eq, step_bind_eq_ok,
    lift_bind_eq_ok, guard_eq_ok, Prod.exists, hLast]

/-! ### Names -/

theorem accessorOf_eq_ok {x : Accessor} (h : ck.accessorOf options name referencedIn w = (.ok x, w')) :
    ∃ w₁ log, classify ck.kinds options name w = (.ok x, w₁) ∧ w' = { w₁ with log } := by
  unfold accessorOf at h
  split at h
  · next b w₁ hRun =>
      split at h
      · cases h
        exact ⟨w₁, _, hRun, rfl⟩
      · cases h
        exact ⟨w', w'.log, hRun, rfl⟩
  · cases h
  · cases h

/-- What a name of the right-hand side is classified as. -/
def sourceText (targetType : DataType) (name : String) (w : Workspace) : String :=
  if targetType = .filename && !Literal.isQuoted name && (w.find? name).isNone then s!"'{name}'" else name

theorem sourceAccessor_eq (ck : Checker) (targetType : DataType) (name referencedIn : String)
    (w : Workspace) :
    ck.sourceAccessor targetType name referencedIn w =
      ck.accessorOf { parametersFirst := ck.kinds.describes name, createDefaultString := targetType ≠ .real }
        (sourceText targetType name w) referencedIn w := by
  have hGet : (get : Step CommandError Workspace) w = (.ok w, w) := rfl
  unfold sourceAccessor sourceText
  rw [run_bind_of_ok hGet]
  split <;> rfl

theorem bindSources_cons_eq_ok {targetType : DataType} {t : Assignment × Workspace} :
    ck.bindSources targetType referencedIn (name :: rest) (a, w) = (.ok (), t) ↔
      if !(a.isEquation && name = a.lhs && !name.toList.contains '.') then
        ∃ accessor w₁, ck.sourceAccessor targetType name referencedIn w = (.ok accessor, w₁) ∧
          (a.bindSource name accessor).2 = true ∧
          ck.bindSources targetType referencedIn rest ((a.bindSource name accessor).1, w₁) = (.ok (), t)
      else ck.bindSources targetType referencedIn rest (a, w) = (.ok (), t) := by
  rw [bindSources, subject_bind_eq]
  split
  · simp only [step_bind_eq_ok, guard_eq_ok, replace_bind_eq, Bool.not_eq_true', Bool.not_eq_false]
  · rfl

theorem bindNames_cons_eq_ok {t : Command × Workspace} :
    ck.bindNames options referencedIn (name :: rest) (c, w) = (.ok (), t) ↔
      ∃ accessor w₁, ck.accessorOf options name referencedIn w = (.ok accessor, w₁) ∧
      (c.bind name accessor).2 = true ∧
        ck.bindNames options referencedIn rest ((c.bind name accessor).1, w₁) = (.ok (), t) := by
  rw [bindNames]
  simp only [step_bind_eq_ok, subject_bind_eq, guard_eq_ok, replace_bind_eq, Bool.not_eq_true',
    Bool.not_eq_false]

/-! ### Commands -/

/-- Whether the names of the command stand for Parameters before they stand for fields. -/
def readsParameters : Command → Bool
  | .call _ _ => false
  | _ => true

/-- The names of the command are bound: those of an assignment as its sides ask for, all others in
order. -/
def BindsNames (ck : Checker) (w : Workspace) (c' : Command) (w' : Workspace) : Command → Prop
  | .assignment a line => ∃ a', ck.checkAssignment (a, w) = (.ok (), (a', w')) ∧ c' = .assignment a' line
  | c => ck.Takes c ∧
    ck.bindNames { parametersFirst := readsParameters c, createDefaultString := false } c.text c.names
    (c, w) =
      (.ok (), (c', w'))

theorem bindsNames_of_other {c' : Command} (hOther : ∀ a line, c ≠ .assignment a line) :
    ck.BindsNames w c' w' c ↔ ck.Takes c ∧
      ck.bindNames { parametersFirst := readsParameters c, createDefaultString := false } c.text c.names
      (c, w) =
        (.ok (), (c', w')) := by
  cases c with
  | assignment a line => exact absurd rfl (hOther a line)
  | _ => exact Iff.rfl

/-- A check passes if all names are bound and all references lead somewhere. -/
theorem check_eq_ok {d : Command} (hManaged : ck.settings.manage ≠ .unmanaged) :
    ck.check (c, w) = (.ok (), (d, w')) ↔ ck.BindsNames w d w' c.clear ∧
      ck.checkReferences w' s!"{d.typeName} command" d.references = .ok () := by
  -- The references are only looked at.
  have hLast : ∀ {f : Edit Command Unit},
      (f >>= fun _ => subject >>= fun c => workspace >>= fun w =>
          liftM (ck.checkReferences w s!"{c.typeName} command" c.references)) (c.clear, w) =
            (.ok (), (d, w')) ↔
        f (c.clear, w) = (.ok (), (d, w')) ∧ ck.checkReferences w' s!"{d.typeName} command" d.references =
          .ok () := by
    intro f
    rw [run_bind_eq_ok]
    constructor
    · rintro ⟨_, ⟨c₁, w₁⟩, hRun, h⟩
      rw [subject_bind_eq, workspace_bind_eq] at h
      obtain ⟨hReferences, rfl, rfl⟩ := lift_eq_ok.mp h
      exact ⟨hRun, hReferences⟩
    · rintro ⟨hRun, hReferences⟩
      refine ⟨(), (d, w'), hRun, ?_⟩
      rw [subject_bind_eq, workspace_bind_eq]
      exact lift_eq_ok.mpr ⟨hReferences, rfl, rfl⟩
  unfold check
  rw [subject_bind_eq, replace_bind_eq, if_neg hManaged]
  cases c with
  | assignment a line =>
    refine hLast.trans (and_congr_left fun _ => ?_)
    rw [within_eq_ok]
    constructor
    · rintro ⟨a', w₁, hRun, hSame⟩
      cases hSame
      exact ⟨a', hRun, rfl⟩
    · rintro ⟨a', hRun, rfl⟩
      exact ⟨a', w', hRun, rfl⟩
  | call call line =>
    refine lift_bind_eq_ok.trans ?_
    constructor
    · rintro ⟨_, hCall, h⟩
      obtain ⟨hNames, hReferences⟩ := hLast.mp h
      exact ⟨⟨hCall, hNames⟩, hReferences⟩
    · rintro ⟨⟨hCall, hNames⟩, hReferences⟩
      exact ⟨(), hCall, hLast.mpr ⟨hNames, hReferences⟩⟩
  | branch kind chain body otherwise line | report c line | propagate c line =>
    exact hLast.trans (and_congr_left fun _ => (and_iff_right trivial).symm)

end Checker

end Mission
