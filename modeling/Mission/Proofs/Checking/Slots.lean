import Mission.Proofs.Checking.Acceptance
import Mission.Proofs.Classify.Boundness
import Mission.Proofs.Classify.Description
import Mission.Proofs.Execution.Readiness

/-! What stands in the slots of a command after its check. A command that passes has a bound
accessor in every slot that asks for one, and it is the one that the text of the slot describes.
What is left in the slots never depends on what stood there before, whether the command passes or
not. -/
namespace Mission

open Registry Outcome Assignment List

/-! ### Texts in quotes -/

theorem Literal.unparenthesise_quoted (text : String) : unparenthesise s!"'{text}'" = s!"'{text}'" := by
  have hQuote : Text.isBlank '\'' = false := by decide
  have hChars : (s!"'{text}'").toList = '\'' :: (text.toList ++ ['\'']) := by
    change ("'" ++ text ++ "'").toList = _
    simp
  have hStrip : Text.strip ('\'' :: (text.toList ++ ['\''])) = '\'' :: (text.toList ++ ['\'']) := by
    rw [Text.strip, Text.stripStart_cons hQuote, Text.stripEnd_cons hQuote,
      Text.stripEnd_concat (by simp [hQuote])]
  have hBare : unparenthesiseChars ('\'' :: (text.toList ++ ['\''])) = '\'' :: (text.toList ++ ['\'']) := by
    unfold unparenthesiseChars
    rw [hStrip]
    simp [isParenthesised]
  rw [unparenthesise, hChars, hBare, ← hChars, String.ofList_toList]

/-! ### Slots that ask for an accessor -/

namespace Command

theorem isOther_or (c : Command) : (∀ a line, c ≠ .assignment a line) ∨ ∃ a line, c = .assignment a line := by
  cases c with
  | assignment a line => exact .inr ⟨a, line, rfl⟩
  | _ =>
    refine .inl fun a line hSame => ?_
    cases hSame

theorem clear_bind {c : Command} (hOther : ∀ a line, c ≠ .assignment a line) (name : String) (x : Accessor) :
    (c.bind name x).1.clear = c.clear := by
  have hSlot : ∀ s : Slot, (s.bind name x).clear = s.clear := by
    intro s
    unfold Slot.bind
    split <;> rfl
  cases c with
  | assignment a line => exact absurd rfl (hOther a line)
  | branch kind chain body otherwise line => simp [bind, clear, Chain.bind, Chain.clear, Condition.bind,
    Condition.clear]
  | report c line => simp [bind, clear, Slot.bindAll, Function.comp_def, hSlot]
  | propagate c line => cases hStop : c.stop <;> simp [bind, clear, Propagate.mapStop, hStop, hSlot]
  | call c line => simp [bind, clear, Call.mapSlots, Function.comp_def, hSlot]

theorem other_of_clear {c d : Command} (hOther : ∀ a line, c ≠ .assignment a line) (h : d.clear = c.clear)
    (a : Assignment) (line : Option Nat) : d ≠ .assignment a line := by
  rintro rfl
  cases c with
  | assignment a line => exact hOther a line rfl
  | _ => cases h

/-- The slots that a check has to fill: both sides of an assignment, where a right-hand side that is
an equation has a slot for each leaf and an empty one has none, and the places of other commands,
except the empty arguments of a call. -/
def openSlots : Command → List (String × Option Accessor)
  | assignment a _ =>
    (a.lhs, a.target) ::
      match a.equation.formula with
      | some f => f.expr.elements.map fun name => (name, (a.equation.bindings.get? name).join)
      | none => a.singleName.map fun name => (name, a.source)
  | c => c.places.filter fun slot => !c.skips slot.1

/-- The target of an assignment. -/
def target? : Command → Option Accessor
  | assignment a _ => a.target
  | _ => none

theorem openSlots_of_other {c : Command} (hOther : ∀ a line, c ≠ .assignment a line) :
    c.openSlots = c.places.filter fun slot => !c.skips slot.1 := by
  cases c with
  | assignment a line => exact absurd rfl (hOther a line)
  | _ => rfl

/-- Where all accessors are there, no open slot is empty. -/
theorem Filled.isSome {c : Command} (h : c.Filled) {name : String} {x : Option Accessor}
    (hSlot : (name, x) ∈ c.openSlots) : x.isSome = true := by
  rcases c.isOther_or with hOther | ⟨a, line, rfl⟩
  · rw [openSlots_of_other hOther, mem_filter] at hSlot
    have hPlaces : ∀ name x, (name, x) ∈ c.places → (x.isSome = true ↔ c.skips name = false) := by
      cases c with
      | assignment a line => exact absurd rfl (hOther a line)
      | _ => exact h
    exact (hPlaces name x hSlot.1).mpr (by simpa using hSlot.2)
  · obtain ⟨hTarget, hLeaves, hSingle⟩ : a.Filled := h
    rcases mem_cons.mp hSlot with hSame | hSource
    · cases hSame
      exact hTarget
    · cases hFormula : a.equation.formula with
      | some f =>
        rw [hFormula] at hSource
        obtain ⟨leaf, hLeaf, hSame⟩ := mem_map.mp hSource
        cases hSame
        obtain ⟨b, hb⟩ := hLeaves f hFormula name hLeaf
        rw [hb]
        rfl
      | none =>
        rw [hFormula] at hSource
        obtain ⟨text, hText, hSame⟩ := mem_map.mp hSource
        cases hSame
        exact (hSingle (by rw [isEquation, hFormula]; rfl)).mpr (mem_singleName.mp hText).1

end Command

/-! ### What the slots hold -/

namespace Assignment

/-- Every accessor of the assignment is one for the text of its slot. -/
structure Holds (P : String → Accessor → Prop) (a : Assignment) : Prop where
  target : ∀ {x}, a.target = some x → P a.lhs x
  source : ∀ {x}, a.source = some x → P a.rhs x
  leaf : ∀ {name x}, a.equation.bindings.get? name = some (some x) → P name x

variable {P : String → Accessor → Prop} {a : Assignment} {x : Accessor}

theorem holds_of_accessors (h : a.accessors = []) : a.Holds P := by
  have hNone : ∀ {x}, x ∉ a.accessors := by simp [h]
  refine ⟨fun hx => ?_, fun hx => ?_, fun hx => ?_⟩
  · exact absurd (mem_accessors.mpr (.inl hx)) hNone
  · exact absurd (mem_accessors.mpr (.inr (.inl hx))) hNone
  · have hLeaf := Equation.mem_accessors.mpr (mem_map.mpr ⟨_, Table.mem_of_get? hx, rfl⟩)
    exact absurd (mem_accessors.mpr (.inr (.inr hLeaf))) hNone

theorem Holds.leaf_bind (h : a.Holds P) {name : String} (hx : P name x) {other : String} {y : Accessor}
    (hy : (a.equation.bind name x).1.bindings.get? other = some (some y)) : P other y := by
  unfold Equation.bind at hy
  split at hy
  · by_cases hSame : other = name
    · subst hSame
      rw [Table.get?_insert_self] at hy
      cases hy
      exact hx
    · rw [Table.get?_insert_of_ne hSame] at hy
      exact h.leaf hy
  · exact h.leaf hy

theorem Holds.bindTarget (h : a.Holds P) (hx : P a.lhs x) : (a.bindTarget x).Holds P := by
  refine ⟨fun hy => ?_, h.source, fun hy => ?_⟩
  · cases hy
    exact hx
  · dsimp only [Assignment.bindTarget] at hy
    split at hy
    · exact h.leaf_bind hx hy
    · exact h.leaf hy

theorem Holds.bindSource (h : a.Holds P) {name : String} (hx : P name x) :
    (a.bindSource name x).1.Holds P := by
  unfold Assignment.bindSource
  split
  · exact ⟨h.target, h.source, h.leaf_bind hx⟩
  · split
    · next hName =>
        refine ⟨h.target, fun hy => ?_, h.leaf⟩
        cases hy
        exact hName ▸ hx
    · exact h

theorem Holds.openSlot {line : Option Nat} (h : a.Holds P) {name : String}
    (hSlot : (name, some x) ∈ (Command.assignment a line).openSlots) : P name x := by
  rcases mem_cons.mp hSlot with hSame | hSource
  · obtain ⟨rfl, hTarget⟩ := Prod.mk.inj hSame
    exact h.target hTarget.symm
  · cases hFormula : a.equation.formula with
    | some f =>
      rw [hFormula] at hSource
      obtain ⟨leaf, -, hSame⟩ := mem_map.mp hSource
      obtain ⟨rfl, hLeaf⟩ := Prod.mk.inj hSame
      exact h.leaf (Option.join_eq_some_iff.mp hLeaf)
    | none =>
      rw [hFormula] at hSource
      obtain ⟨text, hText, hSame⟩ := mem_map.mp hSource
      obtain ⟨rfl, hValue⟩ := Prod.mk.inj hSame
      rw [(mem_singleName.mp hText).2]
      exact h.source hValue

end Assignment

namespace Checker

variable {ck : Checker} {w w' w₀ : Workspace} {P : String → Accessor → Prop}
variable {options : ClassifyOptions} {referencedIn : String} {x : Accessor} {names : List String}
  {c : Command}
  {a a' : Assignment}

/-- What is classified for a text is bound and described by the text. -/
theorem accessorOf_binds (hNames : w.NamesArrays) {text : String}
    (hRun : ck.accessorOf options text referencedIn w = (.ok x, w')) :
    w.Gains w' ∧ x.isBound = true ∧ x.description = Literal.unparenthesise text := by
  obtain ⟨w₁, log, hClassify, rfl⟩ := accessorOf_eq_ok hRun
  have hBinds := (Meets.of_ok hClassify).mp (classify_binds hNames ck.kinds options text)
  have hDescribes := (Meets.of_ok hClassify).mp (describes_classify ck.kinds options text w)
  exact ⟨hBinds.gains.relog log, hBinds.reaches.isBound, hDescribes⟩

theorem bindNames_holds {c' : Command}
    (hRun : ck.bindNames options referencedIn names (c, w) = (.ok (), (c', w'))) (hNames : w.NamesArrays)
    (hOther : ∀ a line, c ≠ .assignment a line)
    (hP : ∀ {name x}, x.isBound = true → x.description = Literal.unparenthesise name → P name x)
    (hHolds : ∀ {name x}, (name, some x) ∈ c.places → P name x) :
    c'.clear = c.clear ∧ ∀ {name x}, (name, some x) ∈ c'.places → P name x := by
  induction names generalizing c w with
  | nil =>
    cases hRun
    exact ⟨rfl, hHolds⟩
  | cons first rest ih =>
    obtain ⟨a, w₁, hFirst, -, hRest⟩ := bindNames_cons_eq_ok.mp hRun
    obtain ⟨hGains, hBound, hDescribed⟩ := accessorOf_binds hNames hFirst
    have hClear := Command.clear_bind hOther first a
    have hNext := ih hRest (hGains.namesArrays hNames) (Command.other_of_clear hOther hClear) ?_
    · exact ⟨hNext.1.trans hClear, hNext.2⟩
    intro name x hPlace
    rw [Command.places_bind] at hPlace
    obtain ⟨⟨other, y⟩, hOld, hSame⟩ := mem_map.mp hPlace
    dsimp only [Command.bindPlace] at hSame
    obtain ⟨rfl, hValue⟩ := Prod.mk.inj hSame
    split at hValue
    · next hName =>
        cases hValue
        exact hName ▸ hP hBound hDescribed
    · exact hHolds (hValue ▸ hOld)

theorem bindSources_holds {targetType : DataType}
    (hRun : ck.bindSources targetType referencedIn names (a, w) = (.ok (), (a', w'))) (hNames : w.NamesArrays)
    (hGains : w₀.Gains w)
    (hP : ∀ {name x v}, w₀.Gains v → x.isBound = true → x.description =
      Literal.unparenthesise (sourceText targetType name v) → P name x)
    (hHolds : a.Holds P) : a'.Holds P ∧ a'.target = a.target := by
  induction names generalizing a w with
  | nil =>
    cases hRun
    exact ⟨hHolds, rfl⟩
  | cons first rest ih =>
    have hStep := bindSources_cons_eq_ok.mp hRun
    split at hStep
    · obtain ⟨x, w₁, hFirst, -, hRest⟩ := hStep
      rw [sourceAccessor_eq] at hFirst
      obtain ⟨hMore, hBound, hDescribed⟩ := accessorOf_binds hNames hFirst
      have hNext := ih hRest (hMore.namesArrays hNames) (hGains.trans hMore)
        (hHolds.bindSource (hP hGains hBound hDescribed))
      refine ⟨hNext.1, hNext.2.trans ?_⟩
      unfold bindSource
      split
      · rfl
      · split <;> rfl
    · exact ih hStep hNames hGains hHolds

/-- New objects do not change which targets are file names. -/
theorem filename_of_gains (h : w.Gains w') {t : Accessor} (hType : t.dataType w.registry = .filename) :
    t.dataType w'.registry = .filename := by
  have hObject : ∀ {id}, w.registry.object id ≠ default → w'.registry.object id = w.registry.object id := by
    intro id hSome
    refine h.grows.object ?_
    by_contra hNone
    exact hSome (by rw [object, entry_of_not_has hNone]; rfl)
  cases t with
  | property d p =>
    cases hTarget : p.target with
    | none => simp [Accessor.dataType, hTarget] at hType
    | some place =>
      obtain ⟨id, index⟩ := place
      have hSome : w.registry.object id ≠ default := by
        intro hNone
        simp only [Accessor.dataType, hTarget, hNone] at hType
        cases hType
      simpa only [Accessor.dataType, hTarget, hObject hSome] using hType
  | whole d k target =>
    cases k with
    | parameter =>
      cases target with
      | none => cases hType
      | some id =>
        have hSome : w.registry.object id ≠ default := by
          intro hNone
          simp only [Accessor.dataType, Option.map_some, hNone] at hType
          cases hType
        simpa only [Accessor.dataType, Option.map_some, hObject hSome] using hType
    | _ => cases hType
  | _ => cases hType

/-- The accessor is described by the text without the blanks and parentheses around it. A text that
is to be the name of a file, and leads to nothing when its turn comes, is put in quotes as it is. -/
def Describes (w : Workspace) (target : Option Accessor) (name : String) (x : Accessor) : Prop :=
  x.description = Literal.unparenthesise name ∨
    x.description = s!"'{name}'" ∧ ∃ v t, w.Gains v ∧ target = some t ∧ t.dataType v.registry = .filename ∧
      v.find? name = none

theorem checkAssignment_holds (hRun : ck.checkAssignment (a, w) = (.ok (), (a', w')))
    (hBlank : a.accessors = []) (hNames : w.NamesArrays) :
    a'.Holds fun name x => x.isBound = true ∧ Describes w a'.target name x := by
  obtain ⟨a₁, built, w₁, hBuild, target, w₂, hTarget, -, -, names, a₂, hSourceNames, w₃, hSources, -, -⟩ :=
    checkAssignment_eq_ok.mp hRun
  obtain ⟨⟨log, rfl⟩, formula, hSame⟩ := (Ends.of_ok hBuild).mp (build_ends w a ck.functions.keys)
  have hBlank₁ : a₁.accessors = [] := (congrArg accessors hSame).trans hBlank
  have hBlank₂ : a₂.accessors = [] := eq_nil_iff_forall_not_mem.mpr fun x hx => by
    simpa [hBlank₁] using mem_accessors_sourceNames hSourceNames hx
  obtain ⟨names', a₂', hSpec, hSides, -⟩ := a₁.sourceNames_spec
  cases hSourceNames.symm.trans hSpec
  have hNames₁ : Workspace.NamesArrays { w with log } := hNames
  obtain ⟨hGains, hBound, hDescribed⟩ := accessorOf_binds hNames₁ hTarget
  have hGains₀ : w.Gains w₂ := ((Workspace.Gains.refl w).relog log).trans hGains
  -- Only the sources can be file names.
  have hSource : ∀ {name x v}, w₂.Gains v → x.isBound = true →
      x.description = Literal.unparenthesise (sourceText (target.dataType w₂.registry) name v) →
        x.isBound = true ∧ Describes w (some target) name x := by
    intro name x v hMore hx hText
    refine ⟨hx, ?_⟩
    unfold sourceText at hText
    split at hText
    · next hFile =>
        simp only [Bool.and_eq_true, decide_eq_true_eq, Option.isNone_iff_eq_none] at hFile
        rw [Literal.unparenthesise_quoted] at hText
        exact .inr ⟨hText, v, target, hGains₀.trans hMore, rfl, filename_of_gains hMore hFile.1.1, hFile.2⟩
    · exact .inl hText
  have hStart := (holds_of_accessors hBlank₂).bindTarget (x := target)
    (P := fun name x => x.isBound = true ∧ Describes w (some target) name x)
    ⟨hBound, .inl (hSides.lhs ▸ hDescribed)⟩
  obtain ⟨hHolds, hKept⟩ := bindSources_holds hSources (hGains.namesArrays hNames₁) (.refl w₂) hSource hStart
  have hTarget' : a'.target = some target := hKept
  rw [hTarget']
  exact hHolds

/-- A command that passes its check has a bound accessor in every open slot. -/
theorem check_holds {d : Command} (hManaged : ck.settings.manage ≠ .unmanaged) (hNames : w.NamesArrays)
    (hRun : ck.check (c, w) = (.ok (), (d, w'))) {name : String} (hSlot : (name, some x) ∈ d.openSlots) :
    x.isBound = true ∧ Describes w d.target? name x := by
  obtain ⟨hBinds, -⟩ := (check_eq_ok hManaged).mp hRun
  rcases c.clear.isOther_or with hOther | ⟨a, line, hAssignment⟩
  · obtain ⟨-, hBind⟩ := (bindsNames_of_other hOther).mp hBinds
    have hClear : ∀ {name x}, (name, some x) ∈ c.clear.places → x.isBound = true ∧
      Describes w d.target? name x := by
      intro name x hPlace
      rw [Command.places_clear] at hPlace
      obtain ⟨place, -, hSame⟩ := mem_map.mp hPlace
      cases hSame
    obtain ⟨hSame, hHolds⟩ := bindNames_holds hBind hNames hOther (fun hx hText => ⟨hx, .inl hText⟩) hClear
    rw [Command.openSlots_of_other (Command.other_of_clear hOther hSame), mem_filter] at hSlot
    exact hHolds hSlot.1
  · have hBlank : a.accessors = [] := by
      have hNone := c.accessors_clear
      rwa [hAssignment] at hNone
    rw [hAssignment] at hBinds
    obtain ⟨a', hRun', rfl⟩ := hBinds
    exact (checkAssignment_holds hRun' hBlank hNames).openSlot hSlot

/-- A check that is passed fills every open slot with a bound accessor for its text. What a check
leaves behind, also one that is not passed, does not depend on the accessors that were there before.
-/
theorem check_fills_slots_afresh (ck : Checker) (c : Command) (w : Workspace) :
    (ck.settings.manage ≠ .unmanaged → w.Keyed → ∀ d w', ck.check (c, w) = (.ok (), (d, w')) →
      d.text = c.text ∧ ∀ name x, (name, x) ∈ d.openSlots →
        ∃ a, x = some a ∧ a.isBound = true ∧ Describes w d.target? name a ∧
          ∀ r e, a.evaluate r = .error e → e.isUnbound = false) ∧
    c.clear.accessors = [] ∧ ∀ b, b.clear = c.clear → ck.check (b, w) = ck.check (c, w) := by
  refine ⟨fun hManaged hKeyed d w' hRun => ⟨?_, fun name x hSlot => ?_⟩, c.accessors_clear, fun b hSame => ?_⟩
  · exact ((Ends.of_ok hRun).mp (ck.check_ends w c)).text
  · have hFilled := ((Ends.of_ok hRun).mp (ck.check_fills hManaged w)).1
    obtain ⟨a, rfl⟩ := Option.isSome_iff_exists.mp (hFilled.isSome hSlot)
    obtain ⟨hBound, hDescribes⟩ := check_holds hManaged hKeyed.namesArrays hRun hSlot
    exact ⟨a, rfl, hBound, hDescribes, fun r e he => Accessor.excludes_evaluate hBound e he⟩
  · unfold check
    simp only [Edit.subject_bind_eq, Edit.replace_bind_eq, hSame]

/-- A workspace with a report, a variable, and an array of the given name for a solar system. -/
def arraySystem (name : String) : Workspace :=
  let (system, r) := Registry.install {} (Catalog.userArray name 1 1)
  let (x, r) := r.install (Catalog.userVariable "x" 0.0)
  let (report, r) := r.install (Catalog.reportFile "rf")
  { registry := r, scope :=
    { store := { objects := .ofPairs [("x", x), ("rf", report)], solarSystem := some system } } }

theorem exists_openSlot (ck : Checker) (s : Command × Workspace) (name : String) (P : Accessor → Bool)
    (hOk : (ck.check s).1.isOk = true)
    (hSlot : ((ck.check s).2.1.openSlots.any fun slot => slot.1 = name && slot.2.any P) = true) :
    ∃ d w' a, ck.check s = (.ok (), (d, w')) ∧ (name, some a) ∈ d.openSlots ∧ P a = true := by
  rcases hRun : ck.check s with ⟨_ | _, d, w'⟩
  · rw [hRun] at hOk
    cases hOk
  · rw [hRun] at hSlot
    obtain ⟨⟨text, x⟩, hMem, hText⟩ := any_eq_true.mp hSlot
    obtain ⟨rfl, a, rfl, ha⟩ : text = name ∧ ∃ a, x = some a ∧ P a = true := by
      simpa [Option.any_eq_true] using hText
    exact ⟨d, w', a, rfl, hMem, ha⟩

/-- An element of the solar system is bound where this is an array under its own name. -/
theorem check_fills_slots_arraySystem : (arraySystem "SolarSystem").Keyed ∧
    ∃ d w' a, ({} : Checker).check (.assignment (.make "x" "SolarSystem(x,x)") none,
      arraySystem "SolarSystem") =
        (.ok (), (d, w')) ∧ ("SolarSystem(x,x)", some a) ∈ d.openSlots ∧ a.isBound = true := by
  have hKeyed : (arraySystem "SolarSystem").Keyed := by
    refine ⟨⟨fun {name id} hMem => ?_, fun {id} hSystem => ?_⟩, fun outer hOuter => ?_⟩
    · have hNames : ∀ entry ∈ (arraySystem "SolarSystem").scope.store.objects.entries,
          ((arraySystem "SolarSystem").registry.object entry.2).name = entry.1 := by decide +kernel
      exact hNames _ hMem
    · cases hSystem
      decide +kernel
    · cases hOuter
  obtain ⟨d, w', a, hRun, hSlot, -⟩ := exists_openSlot {}
    (.assignment (.make "x" "SolarSystem(x,x)") none, arraySystem "SolarSystem") "SolarSystem(x,x)"
      (fun _ => true)
    (by decide +kernel) (by decide +kernel)
  obtain ⟨-, hSlots⟩ := (check_fills_slots_afresh {} _ _).1 (by decide) hKeyed d w' hRun
  obtain ⟨a', hSame, hBound, -⟩ := hSlots _ _ hSlot
  cases hSame
  exact ⟨hKeyed, d, w', a, hRun, hSlot, hBound⟩

/-- The objects of a store may have their names while the solar system has another one. An element
of it passes the check unbound. The text for a file name keeps its parentheses. -/
theorem element_of_misnamed_system_unbound :
    (∀ entry ∈ (arraySystem "A").scope.store.objects.entries,
      ((arraySystem "A").registry.object entry.2).name = entry.1) ∧ (arraySystem "A").scope.outer = none ∧
    (∃ d w' a, ({} : Checker).check (.assignment (.make "x" "SolarSystem(x,x)") none, arraySystem "A") =
        (.ok (), (d, w')) ∧ ("SolarSystem(x,x)", some a) ∈ d.openSlots ∧ a.isBound = false) ∧
    Literal.unparenthesise "(out)" = "out" ∧
    ∃ d w' a, ({} : Checker).check (.assignment (.make "rf.Filename" "(out)") none, arraySystem "A") =
        (.ok (), (d, w')) ∧ ("(out)", some a) ∈ d.openSlots ∧ a.description = "'(out)'" := by
  refine ⟨by decide +kernel, rfl, ?_, by decide +kernel, ?_⟩
  · obtain ⟨d, w', a, hRun, hSlot, ha⟩ := exists_openSlot {}
      (.assignment (.make "x" "SolarSystem(x,x)") none, arraySystem "A") "SolarSystem(x,x)"
        (fun a => !a.isBound)
      (by decide +kernel) (by decide +kernel)
    exact ⟨d, w', a, hRun, hSlot, by simpa using ha⟩
  · obtain ⟨d, w', a, hRun, hSlot, ha⟩ := exists_openSlot {}
      (.assignment (.make "rf.Filename" "(out)") none, arraySystem "A") "(out)"
        (fun a => a.description = "'(out)'")
      (by decide +kernel) (by decide +kernel)
    exact ⟨d, w', a, hRun, hSlot, by simpa using ha⟩

end Checker

end Mission
