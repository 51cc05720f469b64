import Mission.Equation
import Mission.Proofs.Classify.Meaning
import Mission.Proofs.Table

/-! The accessors of an equation and the leaves of its expression. Whatever is done to an equation,
there is room for all leaves of the expression or for none, in the order of the leaves: a rename
that makes two leaves equal makes the same two keys equal. The shape and the value of the expression
are read through these keys alone. -/
namespace Mission

open Outcome List Accessor Table

/-! ### Each name once -/

namespace Accessor

variable {names others : List String}

theorem union_of_mem {name : String} (h : name ∈ names) : union names [name] = names := by
  rw [union_cons, if_pos h]
  rfl

theorem union_of_subset (h : others ⊆ names) : union names others = names := by
  induction others with
  | nil => rfl
  | cons name rest ih =>
    obtain ⟨hName, hRest⟩ := cons_subset.mp h
    rw [union_cons, if_pos hName, ih hRest]

/-- Repetitions may be dropped before names are made equal as well as afterwards. -/
theorem union_map_union (f : String → String) (names others : List String) :
    union [] ((union names others).map f) = union [] ((names ++ others).map f) := by
  induction others generalizing names with
  | nil =>
    rw [append_nil]
    rfl
  | cons name rest ih =>
    rw [union_cons, ih]
    split
    · next hThere =>
        have hImage : f name ∈ union [] (names.map f) := mem_union.mpr (.inr (mem_map_of_mem hThere))
        rw [map_append, map_append, union_append, union_append, map_cons, union_cons,
          if_pos hImage]
    · rw [append_assoc, singleton_append]

end Accessor

/-! ### Shape and value -/

namespace Expr

theorem mem_elements {e : Expr} {name : String} : name ∈ e.elements ↔ name ∈ e.leaves := by
  simp [elements, mem_union]

theorem leaves_rename (old new : String) (e : Expr) :
    (e.rename old new).leaves = e.leaves.map (Name.replace · old new) := by
  induction e with
  | number _ | string _ | element _ => rfl
  | negate _ ih | call _ _ ih => exact ih
  | binary _ _ _ ihLeft ihRight | atan2 _ _ ihLeft ihRight =>
    rw [rename, leaves, leaves, map_append, ihLeft, ihRight]

theorem elements_rename (old new : String) (e : Expr) :
    (e.rename old new).elements = union [] (e.elements.map (Name.replace · old new)) := by
  rw [elements, leaves_rename, elements, union_map_union, nil_append]

/-- The bindings have the same accessor, or none, for each of the names. -/
def Agree (names : List String) (b b' : Bindings) : Prop :=
  ∀ name ∈ names, b.get? name = b'.get? name

variable {b b' : Bindings}

theorem leaf_of_agree {name : String} (h : Agree [name] b b') : leaf b name = leaf b' name := by
  rw [leaf, leaf, h name mem_cons_self]

theorem shape_of_agree (r : Registry) {e : Expr} (h : Agree e.leaves b b') : e.shape r b = e.shape r b' := by
  induction e with
  | number _ | string _ => rfl
  | element name => rw [shape, shape, leafShape, leafShape, leaf_of_agree h]
  | negate e ih | call _ e ih => rw [shape, shape, ih h]
  | binary _ left right ihLeft ihRight | atan2 left right ihLeft ihRight =>
    obtain ⟨hLeft, hRight⟩ := forall_mem_append.mp h
    rw [shape, shape, ihLeft hLeft, ihRight hRight]

theorem evaluate_of_agree (r : Registry) {e : Expr} (h : Agree e.leaves b b') :
    e.evaluate r b = e.evaluate r b' := by
  induction e with
  | number _ | string _ => rfl
  | element name => rw [evaluate, evaluate, leafValue, leafValue, leaf_of_agree h]
  | negate e ih | call _ e ih => rw [evaluate, evaluate, ih h]
  | binary _ left right ihLeft ihRight | atan2 left right ihLeft ihRight =>
    obtain ⟨hLeft, hRight⟩ := forall_mem_append.mp h
    rw [evaluate, evaluate, ihLeft hLeft, ihRight hRight]

end Expr

/-! ### Equations -/

namespace Equation

/-- What can be reached from an equation without an expression. A request that fails leaves the
equation as it is. -/
inductive Reached : Equation → Prop
  | new : Reached {}
  | build {eq eq' : Equation} {text : String} {allowSingle : Bool} {functions : List String} {w : Workspace}
      {found : Bool} (h : Reached eq) (hBuild : (eq.build text allowSingle functions w).1 =
      .ok (eq', found)) :
      Reached eq'
  | elementNames {eq eq' : Equation} {names : List String} (h : Reached eq)
      (hNames : eq.elementNames = .ok (names, eq')) : Reached eq'
  | bind {eq : Equation} (h : Reached eq) (name : String) (a : Accessor) : Reached (eq.bind name a).1
  | clear {eq : Equation} (h : Reached eq) : Reached eq.clear
  | rename {eq : Equation} (h : Reached eq) (old new : String) : Reached (eq.rename old new)

/-- There is room for no leaf, or for all leaves of the expression in their order. -/
def Matched (eq : Equation) : Prop :=
  eq.bindings.keys = [] ∨ ∃ f, eq.formula = some f ∧ eq.bindings.keys = f.expr.elements

variable {eq eq' : Equation}

theorem require_eq_ok {f : Formula} : eq.require = .ok f ↔ eq.formula = some f := by
  unfold require
  cases eq.formula <;> simp

theorem build_eq_ok {text : String} {allowSingle : Bool} {functions : List String} {w : Workspace}
    {found : Bool} (h : (eq.build text allowSingle functions w).1 = .ok (eq', found)) :
    eq' = eq ∨ eq.formula = none ∧ eq'.bindings = eq.bindings := by
  have hMeets : Outcome.Meets (eq.build text allowSingle functions) w (fun _ => True) fun _ result =>
      result.1 = eq ∨ eq.formula = none ∧ result.1.bindings = eq.bindings := by
    unfold build
    refine .ite (fun _ => .pure (.inl rfl)) fun hNone => .lift_bind trivial fun f _ => ?_
    cases f with
    | none => exact .pure (.inl rfl)
    | some f => exact Step.meets_note_bind (.pure (.inr ⟨by simpa using hNone, rfl⟩))
  exact hMeets.result h

/-- Every leaf of the expression gets room, behind those that have it. -/
theorem elementNames_eq_ok {names : List String} (h : eq.elementNames = .ok (names, eq')) :
    ∃ f, eq.formula = some f ∧ names = f.expr.elements ∧ eq'.formula = eq.formula ∧
      eq'.bindings.keys = union eq.bindings.keys names := by
  have hKeys : ∀ (names : List String) (b : Bindings),
      (names.foldl (fun b name => if b.contains name then b else b.insert name none) b).keys =
        union b.keys names := by
    intro names
    induction names with
    | nil => exact fun b => rfl
    | cons name rest ih =>
      intro b
      have hInsert : (if b.contains name then b else b.insert name none).keys = union b.keys [name] := by
        split
        · next hContains => exact (union_of_mem (contains_iff_mem_keys.mp hContains)).symm
        · exact keys_insert b name none
      rw [foldl_cons, ih, hInsert, ← union_append, singleton_append]
  obtain ⟨f, hRequire, h⟩ := bind_eq_ok.mp h
  cases h
  exact ⟨f, require_eq_ok.mp hRequire, rfl, rfl, hKeys _ _⟩

namespace Matched

theorem build {text : String} {allowSingle : Bool} {functions : List String} {w : Workspace} {found : Bool}
    (h : eq.Matched) (hBuild : (eq.build text allowSingle functions w).1 = .ok (eq', found)) :
    eq'.Matched := by
  rcases build_eq_ok hBuild with rfl | ⟨hNone, hBindings⟩
  · exact h
  · rcases h with hKeys | ⟨f, hFormula, -⟩
    · exact .inl (hBindings ▸ hKeys)
    · cases hNone.symm.trans hFormula

theorem elementNames {names : List String} (h : eq.Matched) (hNames : eq.elementNames = .ok (names, eq')) :
    eq'.Matched := by
  obtain ⟨f, hFormula, rfl, hSame, hKeys⟩ := elementNames_eq_ok hNames
  refine .inr ⟨f, hSame.trans hFormula, hKeys.trans ?_⟩
  rcases h with hNone | ⟨f', hFormula', hAll⟩
  · rw [hNone]
    simpa [Expr.elements] using union_map_union id [] f.expr.leaves
  · cases hFormula.symm.trans hFormula'
    rw [hAll, union_of_subset (List.Subset.refl _)]

theorem bind (h : eq.Matched) (name : String) (a : Accessor) : (eq.bind name a).1.Matched := by
  unfold Equation.bind
  split
  · next hTaken =>
      have hName := contains_iff_mem_keys.mp (Bool.and_eq_true_iff.mp hTaken).1
      have hKeys : (eq.bindings.insert name (some a)).keys = eq.bindings.keys := by
        rw [keys_insert, union_of_mem hName]
      rwa [Matched, hKeys]
  · exact h

theorem clear (h : eq.Matched) : eq.clear.Matched := by
  have hKeys : eq.clear.bindings.keys = eq.bindings.keys := by
    rw [Equation.clear, Table.map, Table.keys, Table.keys, map_map]
    rfl
  rwa [Matched, hKeys]

theorem rename (h : eq.Matched) (old new : String) : (eq.rename old new).Matched := by
  have hKeys : (eq.rename old new).bindings.keys =
      union [] (eq.bindings.keys.map (Name.replace · old new)) := by
    rw [Equation.rename, keys_ofPairs, Table.keys, map_map, map_map]
    rfl
  rcases h with hNone | ⟨f, hFormula, hAll⟩
  · refine .inl ?_
    rw [hKeys, hNone]
    rfl
  · refine .inr ⟨f.rename old new, by rw [Equation.rename, hFormula]; rfl, ?_⟩
    rw [hKeys, hAll]
    exact (Expr.elements_rename old new f.expr).symm

theorem of_reached (h : Reached eq) : eq.Matched := by
  induction h with
  | new => exact .inl rfl
  | build _ hBuild ih => exact ih.build hBuild
  | elementNames _ hNames ih => exact ih.elementNames hNames
  | bind _ name a ih => exact ih.bind name a
  | clear _ ih => exact ih.clear
  | rename _ old new ih => exact ih.rename old new

end Matched

/-- In whatever order an equation is built, bound, cleared and renamed, its keys are none or exactly
the leaves of its expression, in the order of the leaves and each once. All that the shape and the
value of the expression depend on are the accessors under these names. -/
theorem keys_match_leaves (h : Reached eq) :
    (eq.bindings.keys = [] ∨ ∃ f, eq.formula = some f ∧ eq.bindings.keys = f.expr.elements) ∧
    eq.bindings.keys.Nodup ∧
    ∀ f, eq.formula = some f → ∀ (r : Registry) (b b' : Bindings), Expr.Agree f.expr.elements b b' →
      f.expr.shape r b = f.expr.shape r b' ∧ f.expr.evaluate r b = f.expr.evaluate r b' := by
  have hMatched := Matched.of_reached h
  refine ⟨hMatched, ?_, fun f _ r b b' hAgree => ?_⟩
  · rcases hMatched with hNone | ⟨f, -, hAll⟩
    · rw [hNone]
      exact List.nodup_nil
    · rw [hAll]
      exact Accessor.nodup_union List.nodup_nil _
  · have hLeaves : Expr.Agree f.expr.leaves b b' := fun name hName => hAgree name
      (Expr.mem_elements.mpr hName)
    exact ⟨Expr.shape_of_agree r hLeaves, Expr.evaluate_of_agree r hLeaves⟩

/-- The sum of two leaves, with room for both. -/
def sumOfTwo : Equation where
  formula := some ⟨"x + y", .binary .add (.element "x") (.element "y")⟩
  bindings := ⟨[("x", none), ("y", none)]⟩

/-- A rename that makes the two leaves equal leaves one key. -/
theorem keys_match_merged_leaves :
    Reached (sumOfTwo.rename "x" "y") ∧ (sumOfTwo.rename "x" "y").bindings.keys = ["y"] ∧
      (sumOfTwo.rename "x" "y").text = "y + y" ∧ (sumOfTwo.rename "x" "y").bindings.keys.Nodup := by
  have hBuild : (({} : Equation).build "x + y" false [] ⟨default, ⟨default, none⟩, {}⟩).1 =
      .ok ({ sumOfTwo with bindings := {} }, true) := rfl
  have hNames : { sumOfTwo with bindings := {} }.elementNames = .ok (["x", "y"], sumOfTwo) := rfl
  have hReached : Reached (sumOfTwo.rename "x" "y") := .rename (.elementNames (.build .new hBuild) hNames)
    "x" "y"
  exact ⟨hReached, by decide +kernel, by decide +kernel, (keys_match_leaves hReached).2.1⟩

end Equation

end Mission
