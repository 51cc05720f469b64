import Mission.Checking.Command
import Mission.Proofs.Command.Accessors
import Mission.Proofs.Command.Renaming
import Mission.Proofs.Equation.Leaves
import Mission.Proofs.Expr.Failure

/-! What it means that a command is refused. It keeps the text and the line it had, and the error is
always one of the script: the check gives every leaf of an equation its accessor before it looks at
the equation as a whole, so it never meets an incomplete one. -/
namespace Mission

open Outcome Edit List Slot Equation CommandError

/-! ### Errors of the parts -/

/-- An error of the script, without a place that has been added to it. -/
def CommandError.isRefusal : CommandError → Bool
  | .context _ _ | .inFunction _ _ => false
  | e => e.errorClass = .recoverable

theorem CommandError.recoverable_of_isRefusal {e : CommandError} (h : e.isRefusal = true) :
    e.errorClass = .recoverable := by
  unfold isRefusal at h
  split at h
  · cases h
  · cases h
  · simpa using h

theorem CommandError.isRefusal_of_liftObject {α : Type} {x : Except ObjectError α} {e : CommandError}
    (h : liftObject x = .error e) : e.isRefusal = true := by
  cases x with
  | ok a => cases h
  | error e' =>
    cases h
    rfl

/-- Only a text that reads as an expression is taken as an equation, so nothing but a quote is missed. -/
theorem Equation.read_eq_error {text : String} {functions : List String} {e : MathError}
    (h : read text false functions = .error e) : e = .missingStartQuote := by
  cases hParse : Expr.parse text with
  | error e' =>
    have hNone : read text false functions = .ok none := by
      rw [read, Expr.isEquation, hParse]
      rfl
    rw [hNone] at h
    cases h
  | ok expr =>
    rw [read_of_parse hParse] at h
    split at h
    · split at h
      · cases h
        rfl
      · cases h
    · cases h

namespace Equation

/-- The leaf has an accessor. -/
def Filled (eq : Equation) (name : String) : Prop :=
  ∃ a, eq.bindings.get? name = some (some a)

variable {eq eq' : Equation} {name : String} {a : Accessor}

theorem formula_bind (eq : Equation) (name : String) (a : Accessor) :
    (eq.bind name a).1.formula = eq.formula := by
  unfold bind
  split
  · rfl
  · rfl

theorem filled_of_bind (h : (eq.bind name a).2 = true) : (eq.bind name a).1.Filled name := by
  unfold bind at h ⊢
  split at h
  · next hTaken =>
      rw [if_pos hTaken]
      exact ⟨a, Table.get?_insert_self _ _ _⟩
  · cases h

theorem Filled.bind (h : eq.Filled name) (other : String) (a : Accessor) :
    (eq.bind other a).1.Filled name := by
  unfold Equation.bind
  split
  · by_cases hSame : name = other
    · subst hSame
      exact ⟨a, Table.get?_insert_self _ _ _⟩
    · obtain ⟨b, hb⟩ := h
      exact ⟨b, (Table.get?_insert_of_ne hSame _ _).trans hb⟩
  · exact h

end Equation

namespace MathError

theorem isFatal_of_isOperand {e : MathError} (h : e.isOperand = true) : e.isFatal = false := by
  cases e <;> first | rfl | cases h

end MathError

/-- A leaf with an accessor may be of the wrong kind or not be readable, which is not fatal. -/
theorem Expr.isFatal_leafShape {r : Registry} {b : Bindings} {name : String} {a : Accessor} {e : MathError}
    (hLeaf : b.get? name = some (some a)) (h : leafShape r b name = .error e) : e.isFatal = false := by
  unfold leafShape at h
  rcases bind_eq_error.mp h with h | ⟨a', -, h⟩
  · rw [leaf, hLeaf] at h
    cases h
  rcases bind_eq_error.mp h with h | ⟨t, -, h⟩
  · unfold leafType at h
    dsimp only at h
    split at h
    · cases h
    · split at h
      · cases h
      · split at h
        · cases h
        · split at h
          · cases h
          · cases h
            rfl
  · split at h
    · rcases bind_eq_error.mp h with h | ⟨_, -, h⟩
      · cases hRead : a'.evaluateMatrix r with
        | ok m =>
          rw [hRead] at h
          cases h
        | error e' =>
          rw [hRead] at h
          cases h
          rfl
      · cases h
    all_goals cases h

/-- An equation whose leaves have accessors is complete. -/
theorem Equation.isFatal_validate {eq : Equation} {r : Registry} {f : Formula} {e : MathError}
    (hFormula : eq.formula = some f) (hFilled : ∀ name ∈ f.expr.elements, eq.Filled name)
    (h : eq.validate r = .error e) : e.isFatal = false := by
  unfold validate at h
  rw [require_eq_ok.mpr hFormula] at h
  rcases bind_eq_error.mp h with h | ⟨f', hSame, h⟩
  · cases h
  cases hSame
  split at h
  · cases h
  · next e' hShape =>
      cases h
      change e'.isFatal = false
      rcases Expr.shape_eq_error hShape with hOperand | ⟨name, hName, hLeaf⟩
      · exact MathError.isFatal_of_isOperand hOperand
      · obtain ⟨a, ha⟩ := hFilled name (Expr.mem_elements.mpr hName)
        exact Expr.isFatal_leafShape ha hLeaf

/-! ### Texts and lines -/

theorem Chain.textOf_map (f : Condition → Condition) (hf : ∀ c, (f c).text = c.text)
    (conditions : List Condition) (operators : List LogicalOperator) :
    textOf (conditions.map f) operators = textOf conditions operators := by
  induction conditions generalizing operators with
  | nil => rfl
  | cons c rest ih =>
    cases rest with
    | nil => exact hf c
    | cons d rest =>
      have hRest := ih operators.tail
      simp only [map_cons, textOf, hf c] at hRest ⊢
      rw [hRest]

namespace Slot

theorem name_bind (name : String) (a : Accessor) (s : Slot) : (s.bind name a).name = s.name := by
  unfold bind
  split
  · rfl
  · rfl

theorem names_map (f : Slot → Slot) (hf : ∀ s, (f s).name = s.name) (slots : List Slot) :
    names (slots.map f) = names slots := by
  simp [names, hf]

end Slot

theorem Report.text_map (f : Slot → Slot) (hf : ∀ s, (f s).name = s.name) (c : Report) :
    text { c with slots := c.slots.map f } = c.text := by
  simp only [text, foldl_map, hf]

theorem Propagate.text_mapStop (f : Slot → Slot) (hf : ∀ s, (f s).name = s.name) (c : Propagate) :
    (c.mapStop f).text = c.text := by
  unfold text mapStop
  cases c.stop with
  | none => rfl
  | some stop => simp only [Option.map_some, hf]

theorem Call.text_mapSlots (f : Slot → Slot) (hf : ∀ s, (f s).name = s.name) (c : Call) :
    (c.mapSlots f).text = c.text := by
  simp only [text, mapSlots, names_map f hf, isEmpty_map]

namespace Assignment

/-- The two assignments have the same texts on both sides and the same expression. -/
structure SameSides (a a' : Assignment) : Prop where
  lhs : a'.lhs = a.lhs
  rhs : a'.rhs = a.rhs
  formula : a'.equation.formula = a.equation.formula

theorem SameSides.trans {a a' a'' : Assignment} (h : SameSides a a') (h' : SameSides a' a'') :
    SameSides a a'' :=
  ⟨h'.lhs.trans h.lhs, h'.rhs.trans h.rhs, h'.formula.trans h.formula⟩

theorem SameSides.isEquation {a a' : Assignment} (h : SameSides a a') : a'.isEquation = a.isEquation := by
  rw [Assignment.isEquation, h.formula]
  rfl

theorem SameSides.text {a a' : Assignment} (h : SameSides a a') : a'.text = a.text := by
  simp only [Assignment.text, h.lhs, h.rhs]

theorem sameSides_bindSource (a : Assignment) (name : String) (accessor : Accessor) :
    SameSides a (a.bindSource name accessor).1 := by
  unfold bindSource
  split
  · exact ⟨rfl, rfl, a.equation.formula_bind name accessor⟩
  · split
    · exact ⟨rfl, rfl, rfl⟩
    · exact ⟨rfl, rfl, rfl⟩

theorem sameSides_bindTarget (a : Assignment) (accessor : Accessor) :
    SameSides a (a.bindTarget accessor) := by
  refine ⟨rfl, rfl, ?_⟩
  dsimp only [bindTarget]
  split
  · exact a.equation.formula_bind a.lhs accessor
  · rfl

/-- The names of the right-hand side can always be listed. Those of an equation are the leaves of its
expression, and there is room for each. -/
theorem sourceNames_spec (a : Assignment) :
    ∃ names a', a.sourceNames = .ok (names, a') ∧ SameSides a a' ∧ a'.source = a.source ∧
      (a.isEquation = false → names = a.singleName) ∧
      ∀ f, a.equation.formula = some f →
        names = f.expr.elements ∧ ∀ name ∈ names, a'.equation.bindings.contains name = true := by
  cases hFormula : a.equation.formula with
  | none =>
    refine ⟨a.singleName, a, ?_, ⟨rfl, rfl, rfl⟩, rfl, fun _ => rfl, fun f hf => by cases hf⟩
    rw [sourceNames, isEquation, hFormula]
    rfl
  | some f =>
    have hNames : ∃ names eq, a.equation.elementNames = .ok (names, eq) := by
      rw [elementNames, require_eq_ok.mpr hFormula]
      exact ⟨_, _, rfl⟩
    obtain ⟨names, eq, hNames⟩ := hNames
    obtain ⟨f', hf', hElements, hSame, hKeys⟩ := elementNames_eq_ok hNames
    cases hFormula.symm.trans hf'
    refine ⟨names, { a with equation := eq }, ?_, ⟨rfl, rfl, hSame⟩, rfl, ?_, ?_⟩
    · rw [sourceNames, isEquation, hFormula, hNames]
      rfl
    · intro hSingle
      rw [isEquation, hFormula] at hSingle
      cases hSingle
    · rintro _ ⟨⟩
      refine ⟨hElements, fun name hName => Table.contains_iff_mem_keys.mpr ?_⟩
      rw [hKeys]
      exact Accessor.mem_union.mpr (.inr hName)

theorem mem_singleName {a : Assignment} {name : String} :
    name ∈ a.singleName ↔ a.rhs.isEmpty = false ∧ name = a.rhs := by
  unfold singleName
  split
  · next hEmpty => simp [hEmpty]
  · next hText => simp [hText]

/-- The target lends its accessor to the leaf of its name. -/
theorem filled_bindTarget {a : Assignment} (accessor : Accessor) (hEquation : a.isEquation = true)
    (hRoom : a.equation.bindings.contains a.lhs = true) (hDot : a.lhs.toList.contains '.' = false) :
    (a.bindTarget accessor).equation.Filled a.lhs := by
  have hShared : (a.isEquation && !a.lhs.toList.contains '.') = true := by
    rw [hEquation, hDot]
    rfl
  dsimp only [bindTarget]
  rw [if_pos hShared]
  refine Equation.filled_of_bind ?_
  have hTaken : (a.equation.bindings.contains a.lhs &&
      (!a.lhs.toList.contains '.' || Equation.acceptsDotted accessor.kind)) = true := by
    rw [hRoom, hDot]
    rfl
  rw [Equation.bind, if_pos hTaken]

/-- The assignment has all its accessors. Only a right-hand side without any text has none. -/
structure Filled (a : Assignment) : Prop where
  target : a.target.isSome = true
  leaves : ∀ f, a.equation.formula = some f → ∀ name ∈ f.expr.elements, a.equation.Filled name
  single : a.isEquation = false → (a.source.isSome = true ↔ a.rhs.isEmpty = false)

end Assignment

namespace Command

/-- The second command stands where the first stands: they have the same text, the same line and the same
commands inside. -/
structure SamePlace (c c' : Command) : Prop where
  text : c'.text = c.text
  line : c'.line = c.line
  inner : c'.inner = c.inner

theorem SamePlace.trans {c c' c'' : Command} (h : SamePlace c c') (h' : SamePlace c' c'') :
    SamePlace c c'' :=
  ⟨h'.text.trans h.text, h'.line.trans h.line, h'.inner.trans h.inner⟩

theorem samePlace_clear (c : Command) : SamePlace c c.clear := by
  cases c with
  | assignment a line => exact ⟨rfl, rfl, rfl⟩
  | branch kind chain body otherwise line =>
    refine ⟨?_, rfl, rfl⟩
    have hText : chain.clear.text = chain.text := Chain.textOf_map Condition.clear (fun _ => rfl) _ _
    simp only [clear, text, hText]
  | report c line => exact ⟨c.text_map Slot.clear fun _ => rfl, rfl, rfl⟩
  | propagate c line => exact ⟨c.text_mapStop Slot.clear fun _ => rfl, rfl, rfl⟩
  | call c line => exact ⟨c.text_mapSlots Slot.clear fun _ => rfl, rfl, rfl⟩

theorem samePlace_bind (c : Command) (name : String) (a : Accessor) :
    SamePlace c (c.bind name a).1 := by
  cases c with
  | assignment c line => exact ⟨(c.sameSides_bindSource name a).text, rfl, rfl⟩
  | branch kind chain body otherwise line =>
    refine ⟨?_, rfl, rfl⟩
    have hText : (chain.bind name a).1.text = chain.text :=
      Chain.textOf_map (fun c => (c.bind name a).1) (fun _ => rfl) _ _
    simp only [bind, text, hText]
  | report c line => exact ⟨c.text_map _ (name_bind name a), rfl, rfl⟩
  | propagate c line => exact ⟨c.text_mapStop _ (name_bind name a), rfl, rfl⟩
  | call c line => exact ⟨c.text_mapSlots _ (name_bind name a), rfl, rfl⟩

end Command

/-! ### Checks -/

theorem Step.ends_note_bind {ε α : Type} {w : Workspace} {E : ε → Workspace → Prop}
    {Q : Workspace → α → Prop} {level : Level} {text : String} {g : Unit → Step ε α}
    (h : Ends (g ()) (w.note level text) E Q) : Ends (note level text >>= g) w E Q :=
  ⟨h.failed, h.result⟩

namespace Edit

variable {σ α β : Type} {s : σ × Workspace} {E : CommandError → σ × Workspace → Prop}
  {Q : σ × Workspace → β → Prop}

theorem ends_subject {g : σ → Edit σ β} (h : Ends (g s.1) s E Q) : Ends (subject >>= g) s E Q :=
  ⟨h.failed, h.result⟩

theorem ends_workspace {g : Workspace → Edit σ β} (h : Ends (g s.2) s E Q) :
    Ends (workspace >>= g) s E Q :=
  ⟨h.failed, h.result⟩

theorem ends_replace {x : σ} {g : Unit → Edit σ β} (h : Ends (g ()) (x, s.2) E Q) :
    Ends (replace x >>= g) s E Q :=
  ⟨h.failed, h.result⟩

theorem ends_step {f : Step CommandError α} {E : CommandError → Workspace → Prop}
    {P : Workspace → α → Prop} (h : Ends f s.2 E P) :
    Ends (step f) s (fun e s' => s'.1 = s.1 ∧ E e s'.2) fun s' a => s'.1 = s.1 ∧ P s'.2 a :=
  ⟨fun he => ⟨rfl, h.failed he⟩, fun ha => ⟨rfl, h.result ha⟩⟩

theorem ends_within {τ : Type} {part : τ} {rebuild : τ → σ} {f : Edit τ α}
    {E : CommandError → τ × Workspace → Prop} {P : τ × Workspace → α → Prop}
    (h : Ends f (part, s.2) E P) :
    Ends (within part rebuild f) s (fun e s' => ∃ x, s'.1 = rebuild x ∧ E e (x, s'.2))
      fun s' a => ∃ x, s'.1 = rebuild x ∧ P (x, s'.2) a :=
  ⟨fun he => ⟨_, rfl, h.failed he⟩, fun ha => ⟨_, rfl, h.result ha⟩⟩

/-- The error is one of the script, and the subject is still as it should be. -/
structure Refused (kept : σ → Prop) (e : CommandError) (s : σ × Workspace) : Prop where
  refusal : e.isRefusal = true
  kept : kept s.1

/-- A step that fails with errors of the script and leaves the subject alone. -/
theorem refused_step_bind {kept : σ → Prop} {f : Step CommandError α} {P : α → Prop} {g : α → Edit σ β}
    (hKept : kept s.1) (hf : Ends f s.2 (fun e _ => e.isRefusal = true) fun _ a => P a)
    (hg : ∀ a w, P a → Ends (g a) (s.1, w) (Refused kept) Q) :
    Ends (step f >>= g) s (Refused kept) Q := by
  refine .bind ((ends_step hf).mono ?_ fun _ _ => id) ?_
  · rintro e ⟨x, w⟩ ⟨rfl, hRefusal⟩
    exact ⟨hRefusal, hKept⟩
  · rintro a ⟨x, w⟩ ⟨rfl, hP⟩
    exact hg a w hP

end Edit

namespace Checker

variable (ck : Checker) (w : Workspace)
variable {done : String → Prop} {a : Assignment} {name referencedIn : String} {s : Assignment × Workspace}

theorem accessorOf_ends (options : ClassifyOptions) (name referencedIn : String) :
    Ends (ck.accessorOf options name referencedIn) w (fun e _ => e.isRefusal = true)
      fun _ _ => True := by
  refine ⟨?_, fun _ => trivial⟩
  intro e he
  dsimp only [accessorOf] at he
  split at he
  · split at he <;> cases he
  · cases he
    rfl
  · cases he
    rfl

theorem sourceAccessor_ends (targetType : DataType) (name referencedIn : String) :
    Ends (ck.sourceAccessor targetType name referencedIn) w (fun e _ => e.isRefusal = true)
      fun _ _ => True := by
  unfold sourceAccessor
  refine .get (.ite (fun _ => ?_) fun _ => ?_)
  · exact ck.accessorOf_ends w _ _ _
  · exact ck.accessorOf_ends w _ _ _

theorem attachAxes_ends (a : Assignment) :
    Ends (attachAxes a) w (fun e _ => e.isRefusal = true) fun _ _ => True := by
  unfold attachAxes
  dsimp only
  refine .ite (fun _ => .pure trivial) fun _ => .get ?_
  split
  · exact .pure trivial
  · refine .lift_bind (fun e => isRefusal_of_liftObject) fun axes _ => ?_
    refine .lift_bind (fun e => isRefusal_of_liftObject) fun system _ => ?_
    exact .set_bind ⟨fun he => (nomatch he), fun _ => trivial⟩

/-- Reading the right-hand side gives the assignment its expression and writes a message. -/
theorem build_ends (a : Assignment) (functions : List String) :
    Ends (a.build functions) w (fun e _ => e.isRefusal = true) fun w' result =>
      (∃ log, w' = { w with log }) ∧ ∃ formula, result.1 =
      { a with equation := { a.equation with formula } } := by
  have hRead : Ends (a.equation.build a.rhs false functions) w (fun e _ => e = .missingStartQuote)
      fun w' result => (∃ log, w' = { w with log }) ∧ ∃ formula, result.1 = { a.equation with formula } := by
    unfold build
    refine .ite (fun _ => .pure ⟨⟨_, rfl⟩, _, rfl⟩) fun _ => .lift_bind (fun e => read_eq_error) ?_
    intro f _
    cases f with
    | none => exact .pure ⟨⟨_, rfl⟩, _, rfl⟩
    | some f => exact Step.ends_note_bind (.pure ⟨⟨_, rfl⟩, _, rfl⟩)
  rcases hRun : a.equation.build a.rhs false functions w with ⟨e | ⟨eq, built⟩, w'⟩
  · have hFails : a.build functions w = (.error (.math e), w') := by
      refine run_bind_of_error ?_
      simp only [Step.mapError, hRun]
    rw [Ends.of_error hFails, (Ends.of_error hRun).mp hRead]
    rfl
  · have hStep : Step.mapError math (a.equation.build a.rhs false functions) w =
        (.ok (eq, built), w') := by
      simp only [Step.mapError, hRun]
    have hBuilds : a.build functions w = (.ok ({ a with equation := eq }, built), w') := run_bind_of_ok hStep
    obtain ⟨hLog, formula, hFormula⟩ := (Ends.of_ok hRun).mp hRead
    exact (Ends.of_ok hBuilds).mpr ⟨hLog, formula, congrArg (fun eq => { a with equation := eq }) hFormula⟩

variable {a₀ : Assignment}

/-- While sources are bound, the sides and the target stay, the leaves that are done keep their
accessors, and a single value has one if and only if it is done. -/
structure Sources (a₀ : Assignment) (done : String → Prop) (a : Assignment) : Prop where
  sides : a₀.SameSides a
  target : a.target = a₀.target
  filled : a.isEquation = true → ∀ name, done name → a.equation.Filled name
  single : a.isEquation = false → (a.source.isSome = true ↔ done a.rhs)

theorem Sources.bindSource (h : Sources a₀ done a) {x : Accessor} (hBound : (a.bindSource name x).2 = true) :
    Sources a₀ (fun other => other = name ∨ done other) (a.bindSource name x).1 where
  sides := h.sides.trans (a.sameSides_bindSource name x)
  target := by
    rw [← h.target]
    unfold Assignment.bindSource
    split
    · rfl
    · split <;> rfl
  single hSingle := by
    rw [(a.sameSides_bindSource name x).isEquation] at hSingle
    rw [(a.sameSides_bindSource name x).rhs]
    unfold Assignment.bindSource at hBound ⊢
    rw [if_neg (by simp [hSingle])] at hBound ⊢
    split at hBound
    · next hName =>
        rw [if_pos hName]
        exact ⟨fun _ => .inl hName.symm, fun _ => rfl⟩
    · cases hBound
  filled hEquation other hOther := by
    rw [(a.sameSides_bindSource name x).isEquation] at hEquation
    have hFilled := h.filled hEquation
    unfold Assignment.bindSource at hBound ⊢
    rw [if_pos hEquation] at hBound ⊢
    rcases hOther with rfl | hOther
    · exact filled_of_bind hBound
    · exact (hFilled other hOther).bind name x

/-- A leaf that shares the accessor of the target is passed over, so it must be done already. -/
theorem bindSources_ends (targetType : DataType) (referencedIn : String) (names : List String)
    (h : Sources a₀ done s.1)
    (hShared : a₀.isEquation = true → a₀.lhs ∈ names → a₀.lhs.toList.contains '.' = false → done a₀.lhs) :
    Ends (ck.bindSources targetType referencedIn names) s (Edit.Refused a₀.SameSides)
      fun s' _ => Sources a₀ (fun name => name ∈ names ∨ done name) s'.1 := by
  induction names generalizing done s with
  | nil => exact .pure (by simpa using h)
  | cons name rest ih =>
    refine ends_subject (.ite (fun _ => ?_) fun hPassed => ?_)
    · refine refused_step_bind h.sides (ck.sourceAccessor_ends s.2 targetType name referencedIn) ?_
      intro x w _
      cases hBind : s.1.bindSource name x with
      | mk a bound =>
        refine .ite (fun _ => .throw_bind ⟨rfl, h.sides⟩) fun hBound => ends_replace ?_
        have hTaken : (s.1.bindSource name x).2 = true := by
          rw [hBind]
          simpa using hBound
        have hNext := h.bindSource hTaken
        rw [hBind] at hNext
        refine (ih (s := (a, w)) hNext ?_).mono (fun _ _ => id) fun s' _ hs' => ?_
        · exact fun hEquation hMem hDot => .inr (hShared hEquation (mem_cons_of_mem _ hMem) hDot)
        · simpa only [mem_cons, or_assoc, or_left_comm] using hs'
    · have hSame : s.1.isEquation = true ∧ name = s.1.lhs ∧ name.toList.contains '.' = false := by
        simpa [and_assoc] using hPassed
      obtain ⟨hEquation, hName, hDot⟩ := hSame
      rw [h.sides.lhs] at hName
      rw [h.sides.isEquation] at hEquation
      have hDone : done name := by
        rw [hName]
        exact hShared hEquation (hName ▸ mem_cons_self) (hName ▸ hDot)
      refine (ih h ?_).mono (fun _ _ => id) fun s' _ hs' => ?_
      · exact fun hEquation hMem hDot => hShared hEquation (mem_cons_of_mem _ hMem) hDot
      · have hAll : ∀ other, other ∈ name :: rest ∨ done other ↔ other ∈ rest ∨ done other := by
          intro other
          rw [mem_cons, or_assoc]
          refine or_iff_right_of_imp ?_
          rintro rfl
          exact .inr hDone
        simpa only [hAll] using hs'

/-- Where the sources of an assignment have been bound, it has all its accessors. -/
theorem Sources.assignment_filled {a' : Assignment} {target : Accessor} {names : List String}
    {shared : String → Prop} (h : Sources (a'.bindTarget target) (fun name => name ∈ names ∨ shared name) a)
    (hShared : a'.isEquation = false → ∀ name, ¬ shared name)
    (hSingle : a'.isEquation = false → names = a'.singleName)
    (hLeaves : ∀ f, a'.equation.formula = some f → names = f.expr.elements) : a.Filled := by
  have hSides := (a'.sameSides_bindTarget target).trans h.sides
  refine ⟨?_, ?_, ?_⟩
  · rw [h.target]
    rfl
  · intro f hFormula name hName
    refine h.filled (by rw [Assignment.isEquation, hFormula]; rfl) name (.inl ?_)
    rw [hLeaves f (hSides.formula.symm.trans hFormula)]
    exact hName
  · intro hNone
    rw [h.single hNone]
    rw [hSides.isEquation] at hNone
    have hOut := hShared hNone
    rw [hSingle hNone, hSides.rhs, Assignment.mem_singleName]
    simp [hOut]

/-- An assignment that is refused keeps its text, and one that is accepted has all its accessors. -/
theorem checkAssignment_ends (hNone : s.1.source = none) :
    Ends ck.checkAssignment s (Edit.Refused fun a => a.text = s.1.text)
      fun s' _ => s'.1.text = s.1.text ∧ s'.1.Filled := by
  unfold checkAssignment
  have hBuild := (build_ends s.2 s.1 ck.functions.keys).mono (fun _ _ => id) fun _ _ => And.right
  refine ends_subject (refused_step_bind rfl hBuild ?_)
  rintro ⟨a, built⟩ w ⟨formula, hFormula⟩
  have hText : a.text = s.1.text := (congrArg Assignment.text hFormula :)
  have hSource : a.source = s.1.source := (congrArg Assignment.source hFormula :)
  refine ends_replace (refused_step_bind hText (ck.accessorOf_ends w _ _ _) ?_)
  intro target w' _
  refine .ite (fun _ => .throw_bind ⟨rfl, hText⟩) fun _ => ends_workspace ?_
  refine .ite (fun _ => .throw_bind ⟨rfl, hText⟩) fun _ => ?_
  obtain ⟨names, a', hNames, hSides, hSame, hSingle, hLeaves⟩ := a.sourceNames_spec
  refine .lift_bind (fun e he => by rw [hNames] at he; cases he) fun listed hListed => ?_
  cases hNames.symm.trans hListed
  refine ends_replace ?_
  have hSides' := a'.sameSides_bindTarget target
  have hKept : ∀ {x : Assignment}, (a'.bindTarget target).SameSides x → x.text = s.1.text :=
    fun hx => ((hSides.trans hSides').trans hx).text.trans hText
  -- The leaf that shares the accessor of the target has got it before the others are bound.
  let shared : String → Prop := fun name =>
    a'.isEquation = true ∧ name = a'.lhs ∧ a'.equation.bindings.contains name = true ∧
      name.toList.contains '.' = false
  have hStart : Sources (a'.bindTarget target) shared (a'.bindTarget target) := by
    refine ⟨⟨rfl, rfl, rfl⟩, rfl, ?_, fun hSingle => ?_⟩
    · rintro - _ ⟨hEquation, rfl, hRoom, hDot⟩
      exact a'.filled_bindTarget target hEquation hRoom hDot
    · rw [hSides'.isEquation] at hSingle
      have hOpen : (a'.bindTarget target).source = none := hSame.trans (hSource.trans hNone)
      simp [shared, hSingle, hOpen]
  have hShared : (a'.bindTarget target).isEquation = true → a'.lhs ∈ names →
      a'.lhs.toList.contains '.' = false → shared a'.lhs := by
    intro hEquation hMem hDot
    rw [hSides'.isEquation] at hEquation
    obtain ⟨f, hFormula⟩ := Option.isSome_iff_exists.mp hEquation
    exact ⟨hEquation, rfl, (hLeaves f (hSides.formula.symm.trans hFormula)).2 _ hMem, hDot⟩
  refine .bind ((ck.bindSources_ends _ _ names (s := (_, w')) hStart hShared).mono ?_ fun _ _ => id) ?_
  · exact fun e s' h => ⟨h.refusal, hKept h.kept⟩
  rintro _ ⟨a'', w''⟩ hSources
  have hText' := hKept hSources.sides
  have hFilled : a''.Filled := by
    refine hSources.assignment_filled ?_ ?_ ?_
    · rintro hNone' name ⟨hEquation, -⟩
      rw [hNone'] at hEquation
      cases hEquation
    · intro hNone'
      rw [hSides.isEquation] at hNone'
      rw [hSingle hNone', Assignment.singleName, Assignment.singleName, hSides.rhs]
    · exact fun f hFormula => (hLeaves f (hSides.formula.symm.trans hFormula)).1
  have hAttach : Ends (step (attachAxes a'')) (a'', w'') (Edit.Refused fun a => a.text = s.1.text)
      fun s' _ => s'.1.text = s.1.text ∧ s'.1.Filled := by
    refine (ends_step (attachAxes_ends w'' a'')).mono ?_ ?_
    · rintro e ⟨x, w⟩ ⟨rfl, hRefusal⟩
      exact ⟨hRefusal, hText'⟩
    · rintro ⟨x, w⟩ _ ⟨rfl, -⟩
      exact ⟨hText', hFilled⟩
  refine ends_subject (.ite (fun hEquation => ?_) fun _ => hAttach)
  refine ends_workspace (.lift_bind (fun e he => ⟨?_, hText'⟩) fun _ _ => hAttach)
  obtain ⟨f, hFormula⟩ := Option.isSome_iff_exists.mp hEquation
  cases hValidate : a''.equation.validate w''.registry with
  | ok _ =>
    rw [hValidate] at he
    cases he
  | error e' =>
    rw [hValidate] at he
    cases he
    have hFatal := isFatal_validate hFormula (hFilled.leaves f hFormula) hValidate
    simp [isRefusal, errorClass, hFatal]

theorem bindNames_ends {c₀ : Command} (options : ClassifyOptions) (referencedIn : String)
    (names : List String) {s : Command × Workspace} (h : c₀.SamePlace s.1) :
    Ends (ck.bindNames options referencedIn names) s (Edit.Refused c₀.SamePlace)
      fun s' _ => c₀.SamePlace s'.1 := by
  induction names generalizing s with
  | nil => exact .pure h
  | cons name rest ih =>
    refine refused_step_bind h (ck.accessorOf_ends s.2 options name referencedIn) ?_
    intro a w _
    refine ends_subject ?_
    refine .ite (fun _ => .throw_bind ⟨rfl, h⟩) fun _ => ends_replace (ih ?_)
    exact h.trans (s.1.samePlace_bind name a)

theorem isRefusal_of_checkCall {c : Call} {e : CommandError} (h : ck.checkCall c = .error e) :
    e.isRefusal = true := by
  unfold checkCall at h
  split at h
  · cases h
    rfl
  · split at h
    · cases h
      rfl
    · split at h
      · cases h
        rfl
      · cases h

theorem isRefusal_of_checkReference {r : Registry} {found : Option ObjectId} {t : ObjectType}
    {e : CommandError} (h : checkReference r found t name referencedIn = .error e) : e.isRefusal = true := by
  unfold checkReference at h
  split at h
  · cases h
    rfl
  · split at h
    · cases h
    · cases h
      rfl

theorem isRefusal_of_checkParameter {w : Workspace} {e : CommandError}
    (h : ck.checkParameter w name = .error e) : e.isRefusal = true := by
  unfold checkParameter at h
  dsimp only at h
  split at h
  · cases h
    rfl
  · split at h
    · cases h
      rfl
    · cases h

theorem isRefusal_of_checkReferences {w : Workspace} {references : List (ObjectType × String)}
    {e : CommandError} (h : ck.checkReferences w referencedIn references = .error e) :
    e.isRefusal = true := by
  induction references with
  | nil => cases h
  | cons reference rest ih =>
    rw [checkReferences] at h
    split at h
    · rcases bind_eq_error.mp h with h | ⟨_, -, h⟩
      · exact ck.isRefusal_of_checkParameter h
      · exact ih h
    · rcases bind_eq_error.mp h with h | ⟨_, -, h⟩
      · exact isRefusal_of_checkReference h
      · exact ih h

/-- A command that is refused stands where it stood, and the error is one of the script. -/
theorem check_ends (c : Command) :
    Ends ck.check (c, w) (Edit.Refused c.SamePlace) fun s' _ => c.SamePlace s'.1 := by
  have hClear := c.samePlace_clear
  have hLast : ∀ {s : Command × Workspace}, c.SamePlace s.1 →
      Ends
        (subject >>= fun c => workspace >>= fun w =>
          liftM (ck.checkReferences w s!"{c.typeName} command" c.references))
        s (Edit.Refused c.SamePlace) fun s' _ => c.SamePlace s'.1 :=
    fun h => ends_subject (ends_workspace
      (.lift (fun _ he => ⟨ck.isRefusal_of_checkReferences he, h⟩) fun _ _ => h))
  unfold check
  refine ends_subject (ends_replace (.ite (fun _ => .pure hClear) fun _ => ?_))
  cases c with
  | assignment a line =>
    have hRebuild : ∀ {s : Command × Workspace} {x : Assignment}, s.1 = .assignment x line →
        x.text = a.clear.text → Command.SamePlace (.assignment a line) s.1 := by
      rintro ⟨_, w'⟩ x rfl hx
      exact ⟨hx, rfl, rfl⟩
    have hAssignment := ck.checkAssignment_ends (s := (a.clear, w)) rfl
    refine .bind ((ends_within hAssignment).mono ?_ fun _ _ => id) ?_
    · rintro e s ⟨x, hx, hRefused⟩
      exact ⟨hRefused.refusal, hRebuild hx hRefused.kept⟩
    · rintro _ s ⟨x, hx, hText, -⟩
      exact hLast (hRebuild hx hText)
  | call call line =>
    refine .lift_bind (fun e he => ⟨ck.isRefusal_of_checkCall he, hClear⟩) fun _ _ => ?_
    exact .bind (ends_subject (ck.bindNames_ends _ _ _ hClear)) fun _ _ => hLast
  | branch kind chain body otherwise line | report c line | propagate c line =>
    exact .bind (ends_subject (ck.bindNames_ends _ _ _ hClear)) fun _ _ => hLast

end Checker

end Mission
