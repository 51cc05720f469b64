import Mission.Command.Basic
import Mission.Execution
import Mission.Proofs.Accessor.Writing
import Mission.Proofs.Registry.Likeness

/-! Commands that differ in names only. Their accessors are bound to the same objects, so in
registries of alike objects they read alike values and write alike objects: numbers and decisions
are the same. -/
namespace Mission

open Outcome MathError CommandError Accessor

/-! ### Accessors -/

/-- Accessors of one kind that are bound to the same objects. -/
inductive Accessor.Alike (old : String) : Accessor → Accessor → Prop
  | number {d d' : String} (x : Float) : Alike old (.number d x) (.number d' x)
  | string {d d' text text' : String} (h : Name.Alike old text text') :
      Alike old (.string d text) (.string d' text')
  | boolean {d d' : String} (flag : Bool) : Alike old (.boolean d flag) (.boolean d' flag)
  | onOff {d d' : String} (flag : Bool) : Alike old (.onOff d flag) (.onOff d' flag)
  | property {d d' : String} {p p' : PropertyRef} (h : p'.target = p.target) :
      Alike old (.property d p) (.property d' p')
  | whole {d d' : String} (k : WholeKind) (target : Option ObjectId) :
      Alike old (.whole d k target) (.whole d' k target)
  | element {d d' name name' : String} {row row' column column' : Accessor} (array : Option ObjectId)
      (hRow : Alike old row row') (hColumn : Alike old column column') :
      Alike old (.element d name array row column) (.element d' name' array row' column')

variable {α α' : Type} {R : α → α' → Prop}

theorem carries_liftObject {x : Except ObjectError α} {x' : Except ObjectError α'} (h : Carries R x x') :
    Carries R (liftObject x) (liftObject x') :=
  h.lift (fun _ => rfl) (fun _ => rfl) fun _ => ⟨_, rfl⟩

theorem carries_liftType {x : Except TypeError α} {x' : Except TypeError α'} (h : Carries R x x') :
    Carries R (liftType x) (liftType x') :=
  h.lift (fun _ => rfl) (fun _ => rfl) fun _ => ⟨_, rfl⟩

namespace Accessor

variable {old new : String} {r r' : Registry} {a a' : Accessor}

/-- A rename changes texts only. -/
theorem alike_rename (old new : String) (a : Accessor) : a.Alike old (a.rename old new) := by
  induction a with
  | number d x => exact .number x
  | string d text => exact .string (.refl old text)
  | boolean d flag => exact .boolean flag
  | onOff d flag => exact .onOff flag
  | property d p => exact .property rfl
  | whole d k target => exact .whole k target
  | element d name array row column ihRow ihColumn => exact .element array ihRow ihColumn

theorem Alike.kind (h : a.Alike old a') : a'.kind = a.kind := by
  cases h <;> rfl

theorem Alike.dataType (h : a.Alike old a') (hr : r.Alike old new r') : a'.dataType r' = a.dataType r := by
  cases h with
  | @property d d' p p' hTarget =>
    rw [dataType, dataType, hTarget]
    cases p.target with
    | none => rfl
    | some target =>
      have hGet := (hr.object target.1).getAt? target.2
      dsimp only
      generalize (r.object target.1).properties.getAt? target.2 = x,
        (r'.object target.1).properties.getAt? target.2 = x' at hGet
      cases hGet with
      | none => rfl
      | some hProperty => exact hProperty.dataType
  | whole k target =>
    cases k with
    | parameter =>
      cases target with
      | none => rfl
      | some id => exact (hr.object id).kindOf.2.2.2
    | _ => rfl
  | _ => rfl

theorem Alike.require (h : a.Alike old a') (operation : String) (allowed : AccessorKind → Bool) :
    Carries Eq (a.require operation allowed) (a'.require operation allowed) :=
  .ite (by rw [h.kind]) (fun _ => .ok rfl) fun _ => .error _ _

theorem carries_boundTo {α : Type} (d d' : String) (target : Option α) :
    Carries Eq (boundTo d target) (boundTo d' target) := by
  cases target with
  | none => exact .error _ _
  | some x => exact .ok rfl

theorem Alike.indexOf (h : a.Alike old a') {x x' : Except AccessError Value}
    (hx : Carries (Value.Alike old) x x') : Carries Eq (indexOf a x) (indexOf a' x') := by
  refine (h.require _ _).bind fun _ => hx.bind fun hv => (carries_liftType hv.asReal).bind fun hReal => ?_
  subst hReal
  exact .ite Iff.rfl (fun _ => .error _ _) fun _ => .ok rfl

/-- What is read through alike accessors is alike, or both fail. -/
theorem Alike.evaluate (h : a.Alike old a') (hr : r.Alike old new r') :
    Carries (Value.Alike old) (a.evaluate r) (a'.evaluate r') := by
  induction h with
  | number x => exact .ok (.same _)
  | string hText => exact .ok (.string hText)
  | boolean flag => exact .ok (.same _)
  | onOff flag => exact .ok (.same _)
  | @property d d' p p' hTarget =>
    rw [Accessor.evaluate, Accessor.evaluate, hTarget]
    refine (carries_boundTo d d' p.target).bind fun {x x'} hSame => ?_
    subst hSame
    exact carries_liftObject ((hr.object x.1).getAt x.2)
  | @whole d d' k target =>
    refine (carries_boundTo d d' target).bind fun {id id'} hSame => ?_
    subst hSame
    refine .ite (by rw [(hr.object id).isParameter]) (fun _ => .ok (.object (hr.object id).name)) fun _ => ?_
    exact carries_liftObject (hr.evaluate id)
  | @element d d' name name' row row' column column' array hRow hColumn ihRow ihColumn =>
    refine (carries_boundTo d d' array).bind fun {id id'} hSame => ?_
    subst hSame
    refine (hRow.indexOf ihRow).bind fun hi => hi ▸ (hColumn.indexOf ihColumn).bind fun hj => hj ▸ ?_
    exact (carries_liftObject ((hr.object id).element _ _)).bind fun hx => hx ▸ .ok (.same _)

theorem Alike.evaluateReal (h : a.Alike old a') (hr : r.Alike old new r') :
    Carries Eq (a.evaluateReal r) (a'.evaluateReal r') :=
  (h.require _ _).bind fun _ => (h.evaluate hr).bind fun hv => carries_liftType hv.asReal

theorem Alike.evaluateMatrix (h : a.Alike old a') (hr : r.Alike old new r') :
    Carries Eq (a.evaluateMatrix r) (a'.evaluateMatrix r') :=
  (h.require _ _).bind fun _ => (h.evaluate hr).bind fun hv => carries_liftType hv.asMatrix

theorem Alike.evaluateString (hName : Name.IsIdentifier old.toList) (h : a.Alike old a')
    (hr : r.Alike old new r') : Carries (Name.Alike old) (a.evaluateString r) (a'.evaluateString r') := by
  refine (h.require _ _).bind fun _ => (h.evaluate hr).bind fun {v v'} hv => ?_
  have hText := hv.toText hName
  cases hv with
  | same v =>
    cases v with
    | stringArray items | onOff flag | string text | object text => exact .ok (.refl old _)
    | _ => exact .error _ _
  | string hText | object hText | stringArray => exact .ok hText

theorem Alike.evaluateObject (h : a.Alike old a') : Carries Eq a.evaluateObject a'.evaluateObject := by
  cases h with
  | @whole d d' k target => exact carries_boundTo d d' target
  | _ => exact .error _ _

/-- What is written through alike accessors leaves alike objects. -/
theorem Alike.setValue (hName : Name.Wordless old) (h : a.Alike old a') (hr : r.Alike old new r')
    {v v' : Value} (hv : Value.Alike old v v') :
    Carries (Registry.Alike old new) (a.setValue r v) (a'.setValue r' v') := by
  cases h with
  | @property d d' p p' hTarget =>
    rw [setValue, setValue, hTarget]
    refine (carries_boundTo d d' p.target).bind fun {x x'} hSame => ?_
    subst hSame
    exact carries_liftObject (hr.setProperty hName x.1 x.2 hv)
  | @whole d d' k target =>
    refine (carries_boundTo d d' target).bind fun {id id'} hSame => ?_
    subst hSame
    refine .ite (by rw [(hr.object id).isParameter]) (fun _ => .error _ _) fun _ => ?_
    exact carries_liftObject (hr.assign hName id hv)
  | @element d d' name name' row row' column column' array hRow hColumn =>
    refine (carries_boundTo d d' array).bind fun {id id'} hSame => ?_
    subst hSame
    refine (hRow.indexOf (hRow.evaluate hr)).bind fun hi => hi ▸ ?_
    refine (hColumn.indexOf (hColumn.evaluate hr)).bind fun hj => hj ▸ ?_
    refine (carries_liftType hv.asReal).bind fun hx => hx ▸ ?_
    exact carries_liftObject (hr.setElement id _ _ _)
  | _ => exact .error _ _

theorem Alike.setReal (hName : Name.Wordless old) (h : a.Alike old a') (hr : r.Alike old new r') (x : Float) :
    Carries (Registry.Alike old new) (a.setReal r x) (a'.setReal r' x) := by
  refine (h.require _ _).bind fun _ => ?_
  rw [h.kind]
  split
  · exact .error _ _
  · exact h.setValue hName hr (.same _)
  · exact h.setValue hName hr (.same _)

theorem Alike.setObject (h : a.Alike old a') (hr : r.Alike old new r') (source : ObjectId) :
    Carries (Registry.Alike old new) (a.setObject r source) (a'.setObject r' source) := by
  cases h with
  | @whole d d' k target =>
    cases k with
    | object =>
      refine (carries_boundTo d d' target).bind fun {id id'} hSame => ?_
      subst hSame
      refine .ite Iff.rfl (fun _ => .ok hr) fun _ => ?_
      refine .ite (by rw [(hr.object source).typeName, (hr.object id).typeName]) (fun _ => .error _ _)
        fun _ => ?_
      exact .ok (hr.overwrite id (hr.assembly source))
    | _ => exact .error _ _
  | _ => exact .error _ _

theorem ofObject_alike (hr : r.Alike old new r') (d d' : String) (id : ObjectId) :
    (ofObject r d id).Alike old (ofObject r' d' id) := by
  have hKind : WholeKind.of (r'.object id) = WholeKind.of (r.object id) := by
    obtain ⟨hVariable, hArray, hString, -⟩ := (hr.object id).kindOf
    unfold WholeKind.of
    rw [hVariable, hArray, hString, (hr.object id).isParameter]
  rw [ofObject, ofObject, hKind]
  exact .whole _ _

end Accessor

/-! ### Expressions -/

/-- Expressions of one build whose leaves have alike accessors, or none. -/
inductive Expr.Alike (old : String) (b b' : Bindings) : Expr → Expr → Prop
  | number (x : Float) : Alike old b b' (.number x) (.number x)
  | string (text : String) : Alike old b b' (.string text) (.string text)
  | element {name name' : String} (h : ∀ {a}, b.get? name = some (some a) →
      ∃ a', b'.get? name' = some (some a') ∧ a.Alike old a') : Alike old b b' (.element name) (.element name')
  | negate {e e' : Expr} (h : Alike old b b' e e') : Alike old b b' (.negate e) (.negate e')
  | binary {left left' right right' : Expr} (op : BinaryOp) (hLeft : Alike old b b' left left')
      (hRight : Alike old b b' right right') : Alike old b b' (.binary op left right)
      (.binary op left' right')
  | call {e e' : Expr} (f : UnaryFunction) (h : Alike old b b' e e') : Alike old b b' (.call f e) (.call f e')
  | atan2 {y y' x x' : Expr} (hy : Alike old b b' y y') (hx : Alike old b b' x x') :
      Alike old b b' (.atan2 y x) (.atan2 y' x')

/-- Results that are the same up to texts that mention the name. -/
inductive Result.Alike (old : String) : Result → Result → Prop
  | same (v : Result) : Alike old v v
  | string {text text' : String} (h : Name.Alike old text text') : Alike old (.string text) (.string text')

namespace MathError

theorem carries_liftAccess {x : Except AccessError α} {x' : Except AccessError α'} (h : Carries R x x') :
    Carries R (liftAccess x) (liftAccess x') :=
  h.lift (fun _ => rfl) (fun _ => rfl) fun _ => ⟨_, rfl⟩

theorem carries_liftObject {x : Except ObjectError α} {x' : Except ObjectError α'} (h : Carries R x x') :
    Carries R (liftObject x) (liftObject x') :=
  h.lift (fun _ => rfl) (fun _ => rfl) fun _ => ⟨_, rfl⟩

end MathError

namespace Expr

variable {old new : String} {r r' : Registry} {b b' : Bindings} {e e' : Expr}

theorem carries_leaf {name name' : String} (h : ∀ {a}, b.get? name = some (some a) →
    ∃ a', b'.get? name' = some (some a') ∧ a.Alike old a') :
    Carries (Accessor.Alike old) (leaf b name) (leaf b' name') := by
  intro a ha
  unfold leaf at ha
  split at ha
  · next hGet =>
      cases ha
      obtain ⟨a', hGet', hAlike⟩ := h hGet
      exact ⟨a', by rw [leaf, hGet'], hAlike⟩
  · cases ha

theorem carries_leafType {name name' : String} {a a' : Accessor} (h : a.Alike old a')
    (hr : r.Alike old new r') : Carries Eq (leafType r name a) (leafType r' name' a') := by
  unfold leafType
  rw [h.dataType hr, h.kind]
  refine .ite Iff.rfl (fun _ => .ok rfl) fun _ => .ite Iff.rfl (fun _ => .ok rfl) fun _ => ?_
  exact .ite Iff.rfl (fun _ => .ok rfl) fun _ => .ite Iff.rfl (fun _ => .ok rfl) fun _ => .error _ _

theorem Alike.shape (h : Alike old b b' e e') (hr : r.Alike old new r') :
    Carries Eq (e.shape r b) (e'.shape r' b') := by
  induction h with
  | number x => exact .ok rfl
  | string text => exact .ok rfl
  | element hLeaf =>
    refine (carries_leaf hLeaf).bind fun {a a'} ha => (carries_leafType ha hr).bind fun {t t'} ht => ?_
    subst ht
    split
    · exact (carries_liftAccess (ha.evaluateMatrix hr)).bind fun hm => hm ▸ .ok rfl
    · exact .ok rfl
    · exact .ok rfl
    · exact .ok rfl
  | negate _ ih => exact ih.bind fun hs => hs ▸ .self _
  | binary op _ _ ihLeft ihRight =>
    refine ihLeft.bind fun hs => hs ▸ .same_bind _ fun left => ?_
    exact ihRight.bind fun hs => hs ▸ .self _
  | call f _ ih => exact ih.bind fun hs => hs ▸ .self _
  | atan2 _ _ ihY ihX =>
    refine ihY.bind fun hs => hs ▸ .same_bind _ fun y => ?_
    exact ihX.bind fun hs => hs ▸ .self _

theorem carries_scalar {v v' : Result} (h : v.Alike old v') (operation : String) :
    Carries Eq (v.scalar operation) (v'.scalar operation) := by
  cases h with
  | same => exact .self _
  | string => exact .error _ _

theorem carries_binary {v v' w w' : Result} (hv : v.Alike old v') (hw : w.Alike old w') (op : BinaryOp) :
    Carries (Result.Alike old) (op.evaluate v w) (op.evaluate v' w') := by
  cases hv with
  | string => exact .error _ _
  | same =>
    cases hw with
    | string =>
      cases v <;> exact .error _ _
    | same => exact (Carries.self _).imp fun hSame => hSame ▸ .same _

theorem carries_unary {v v' : Result} (h : v.Alike old v') (f : UnaryFunction) :
    Carries (Result.Alike old) (f.evaluate v) (f.evaluate v') := by
  cases h with
  | same => exact (Carries.self _).imp fun hSame => hSame ▸ .same _
  | string =>
    cases f <;> exact .error _ _

/-- Alike expressions have alike values. -/
theorem Alike.evaluate (hName : Name.IsIdentifier old.toList) (h : Alike old b b' e e')
    (hr : r.Alike old new r') : Carries (Result.Alike old) (e.evaluate r b) (e'.evaluate r' b') := by
  induction h with
  | number x => exact .ok (.same _)
  | string text => exact .ok (.same _)
  | element hLeaf =>
    refine (carries_leaf hLeaf).bind fun {a a'} ha => (carries_leafType ha hr).bind fun {t t'} ht => ?_
    subst ht
    split
    · exact (carries_liftAccess (ha.evaluateReal hr)).bind fun hx => hx ▸ .ok (.same _)
    · exact (carries_liftAccess (ha.evaluateMatrix hr)).bind fun hm => hm ▸ .ok (.same _)
    · exact (carries_liftAccess ha.evaluateObject).bind fun hId => hId ▸ .ok (.same _)
    · exact (carries_liftAccess (ha.evaluateString hName hr)).bind fun hText => .ok (.string hText)
  | negate _ ih =>
    refine ih.bind fun {v v'} hv => ?_
    cases hv with
    | same => exact (Carries.self _).imp fun hSame => hSame ▸ .same _
    | string => exact .error _ _
  | binary op _ _ ihLeft ihRight => exact ihLeft.bind fun hv => ihRight.bind fun hw => carries_binary hv hw op
  | call f _ ih => exact ih.bind fun hv => carries_unary hv f
  | atan2 _ _ ihY ihX =>
    refine ihY.bind fun hy => ihX.bind fun hx => (carries_scalar hy _).bind fun hSame => hSame ▸ ?_
    exact (carries_scalar hx _).bind fun hSame => hSame ▸ .ok (.same _)

end Expr

/-! ### Equations -/

/-- Equations without an expression, or with expressions whose leaves have alike accessors. -/
structure Equation.Alike (old : String) (eq eq' : Equation) : Prop where
  isSome : eq'.formula.isSome = eq.formula.isSome
  formula : ∀ {f f'}, eq.formula = some f → eq'.formula = some f' →
    Expr.Alike old eq.bindings eq'.bindings f.expr f'.expr

namespace Equation

variable {old new : String} {r r' : Registry} {eq eq' : Equation}

theorem Alike.require (h : eq.Alike old eq') :
    Carries (fun f f' => Expr.Alike old eq.bindings eq'.bindings f.expr f'.expr) eq.require eq'.require := by
  intro f hf
  unfold Equation.require at hf
  split at hf
  · next hFormula =>
      cases hf
      have hSome := h.isSome
      rw [hFormula] at hSome
      obtain ⟨f', hFormula'⟩ := Option.isSome_iff_exists.mp hSome
      exact ⟨f', by rw [Equation.require, hFormula'], h.formula hFormula hFormula'⟩
  · cases hf

theorem fits_of_alike {target target' : Accessor} (h : target.Alike old target') (hr : r.Alike old new r')
    (s : Shape) (hFits : fits r s target = true) : fits r' s target' = true := by
  unfold fits at hFits ⊢
  rw [h.dataType hr]
  generalize resultType (target.dataType r) = expected at hFits
  dsimp only at hFits ⊢
  rcases Bool.or_eq_true_iff.mp hFits with hType | hFits
  · rw [hType, Bool.true_or]
  · refine Bool.or_eq_true_iff.mpr (.inr ?_)
    revert hFits
    split
    · exact id
    · intro hFits
      cases hMatrix : target.evaluateMatrix r with
      | error e =>
        rw [hMatrix] at hFits
        cases hFits
      | ok m =>
        obtain ⟨_, hMatrix', rfl⟩ := h.evaluateMatrix hr m hMatrix
        rw [hMatrix] at hFits
        rw [hMatrix']
        exact hFits
    · exact id

/-- What is written when a result is held. -/
theorem carries_hold (hName : Name.Wordless old) (hr : r.Alike old new r') {v v' : Result}
    (h : v.Alike old v') :
    Carries (fun x x' => x.1.Alike old x'.1 ∧ x.2.Alike old new x'.2) (hold r v) (hold r' v') := by
  cases h with
  | string hText => exact .ok ⟨.string hText, hr⟩
  | same v =>
    cases v with
    | real x => exact .ok ⟨.number x, hr⟩
    | string text => exact .ok ⟨.string (.refl old text), hr⟩
    | matrix m =>
      obtain ⟨hId, hInstalled⟩ := hr.install (Assembly.alike_holder (.refl old arrayOutput) "Array"
        (.array (if m.rows = 0 || m.cols = 0 then none else some (.zero m.rows m.cols))))
      unfold hold Catalog.userArray
      dsimp only
      rw [hId]
      refine (MathError.carries_liftObject (hInstalled.assign hName _ (.same _))).bind fun hAssigned => ?_
      exact .ok ⟨ofObject_alike hAssigned _ _ _, hAssigned⟩
    | object id =>
      obtain ⟨hId, hInstalled⟩ := hr.install (hr.assembly id)
      unfold hold
      dsimp only
      rw [hId]
      exact .ok ⟨ofObject_alike hInstalled _ _ _, hInstalled⟩

theorem Alike.run (hName : Name.Wordless old) (h : eq.Alike old eq') (hr : r.Alike old new r')
    {target target' : Option Accessor} (hTarget : Option.Rel (Accessor.Alike old) target target') :
    Carries (fun x x' => x.1.Alike old x'.1 ∧ x.2.Alike old new x'.2) (eq.run r target)
    (eq'.run r' target') := by
  refine h.require.bind fun {f f'} hFormula => (hFormula.shape hr).bind fun {s s'} hs => ?_
  subst hs
  have hHold := (hFormula.evaluate hName.identifier hr).bind fun hv => carries_hold hName hr hv
  cases hTarget with
  | none => exact hHold
  | some hTarget =>
    dsimp only
    split
    · exact .error _ _
    · next hFits =>
        rw [if_neg (by simpa using fits_of_alike hTarget hr s (by simpa using hFits))]
        exact hHold

end Equation

/-! ### Assignments -/

/-- Assignments with alike accessors on both sides. -/
structure Assignment.Alike (old : String) (a a' : Assignment) : Prop where
  target : Option.Rel (Accessor.Alike old) a.target a'.target
  source : Option.Rel (Accessor.Alike old) a.source a'.source
  equation : a.equation.Alike old a'.equation

namespace CommandError

theorem carries_liftAccess {x : Except AccessError α} {x' : Except AccessError α'} (h : Carries R x x') :
    Carries R (liftAccess x) (liftAccess x') :=
  h.lift (fun _ => rfl) (fun _ => rfl) fun _ => ⟨_, rfl⟩

theorem carries_liftMath {x : Except MathError α} {x' : Except MathError α'} (h : Carries R x x') :
    Carries R (liftMath x) (liftMath x') :=
  h.lift (fun _ => rfl) (fun _ => rfl) fun _ => ⟨_, rfl⟩

end CommandError

namespace Assignment

variable {old new : String} {r r' : Registry} {a a' : Assignment}

theorem carries_transfer (hName : Name.Wordless old) (hr : r.Alike old new r')
    {target target' source source' : Accessor} (hTarget : target.Alike old target')
    (hSource : source.Alike old source') :
    Carries (Registry.Alike old new) (transfer r target source) (transfer r' target' source') := by
  refine .ite (by rw [hTarget.kind]) (fun _ => ?_) fun _ => ?_
  · exact hSource.evaluateObject.bind fun hId => hId ▸ hTarget.setObject hr _
  · refine .ite (by rw [hTarget.dataType hr, hSource.dataType hr]) (fun _ => ?_) fun _ => ?_
    · exact (hSource.evaluateReal hr).bind fun hx => hx ▸ hTarget.setReal hName hr _
    · exact (hSource.evaluate hr).bind fun hv => hTarget.setValue hName hr hv

theorem Alike.output (hName : Name.Wordless old) (h : a.Alike old a') (hr : r.Alike old new r') :
    Carries (fun x x' => x.1.Alike old x'.1 ∧ x.2.Alike old new x'.2) (a.output r) (a'.output r') := by
  refine .ite (by rw [isEquation, isEquation, h.equation.isSome]) (fun _ => ?_) fun _ => ?_
  · exact carries_liftMath (h.equation.run hName hr h.target)
  · have hSource := h.source
    generalize a.source = x, a'.source = x' at hSource
    cases hSource with
    | none => exact .error _ _
    | some hSource => exact .ok ⟨hSource, hr⟩

/-- Alike assignments do alike to alike objects. -/
theorem Alike.execute (hName : Name.Wordless old) (h : a.Alike old a') (hr : r.Alike old new r') :
    Carries (Registry.Alike old new) (a.execute r) (a'.execute r') := by
  refine (h.output hName hr).bind fun {x x'} hx => ?_
  have hTarget := h.target
  dsimp only
  generalize a.target = t, a'.target = t' at hTarget
  cases hTarget with
  | none => exact .error _ _
  | some hTarget => exact carries_liftAccess (carries_transfer hName hx.2 hTarget hx.1)

end Assignment

/-! ### Conditions and reports -/

/-- Conditions with one operator and alike accessors on both sides. -/
structure Condition.Alike (old : String) (c c' : Condition) : Prop where
  operator : c'.operator = c.operator
  left : Option.Rel (Accessor.Alike old) c.left c'.left
  right : Option.Rel (Accessor.Alike old) c.right c'.right

/-- Chains of alike conditions. -/
structure Chain.Alike (old : String) (chain chain' : Chain) : Prop where
  operators : chain'.operators = chain.operators
  conditions : List.Forall₂ (Condition.Alike old) chain.conditions chain'.conditions

section

variable {old new : String} {r r' : Registry}

theorem Condition.Alike.evaluate {c c' : Condition} (h : c.Alike old c') (hr : r.Alike old new r') :
    Carries Eq (c.evaluate r) (c'.evaluate r') := by
  have hOperand : ∀ {a a' : Option Accessor} {name name' : String}, Option.Rel (Accessor.Alike old) a a' →
      Carries Eq (operand r name a) (operand r' name' a') := by
    intro a a' name name' ha
    cases ha with
    | none => exact .error _ _
    | some ha => exact carries_liftAccess (ha.evaluateReal hr)
  refine (hOperand h.left).bind fun hx => hx ▸ (hOperand h.right).bind fun hy => hy ▸ ?_
  rw [h.operator]
  exact .self _

/-- Alike conditions hold of the same objects. -/
theorem Chain.Alike.evaluate {chain chain' : Chain} (h : chain.Alike old chain') (hr : r.Alike old new r') :
    Carries Eq (chain.evaluate r) (chain'.evaluate r') := by
  have hLength := h.conditions.length_eq
  have hBalanced : chain'.isBalanced = chain.isBalanced := by
    rw [Chain.isBalanced, Chain.isBalanced, h.operators, hLength]
  refine .ite (by rw [hBalanced]) (fun _ => .error _ _) fun _ => ?_
  have hResults := Carries.mapM (h.conditions.imp fun _ _ hc => hc.evaluate hr)
  refine hResults.bind fun {xs xs'} hxs => ?_
  rw [List.forall₂_eq_eq_eq] at hxs
  subst hxs
  rw [h.operators]
  exact .self _

/-- Slots with alike accessors. -/
def Slot.Alike (old : String) (slot slot' : Slot) : Prop :=
  Option.Rel (Accessor.Alike old) slot.accessor slot'.accessor

/-- Numbers and matrices. -/
def Value.isNumber : Value → Bool
  | integer _ | real _ | matrix _ => true
  | _ => false

/-- All values that are written are numbers. -/
def Report.WritesNumbers (slots : List Slot) (r : Registry) : Prop :=
  ∀ slot ∈ slots, ∀ a, slot.accessor = some a → ∀ v, a.evaluate r = .ok v → v.isNumber = true

theorem Report.carries_values {slots slots' : List Slot} (h : List.Forall₂ (Slot.Alike old) slots slots')
    (hr : r.Alike old new r') (hNumbers : WritesNumbers slots r) :
    Carries Eq (values r slots) (values r' slots') := by
  induction h with
  | nil => exact .ok rfl
  | @cons slot slot' rest rest' hSlot _ ih =>
    have hOwn := hNumbers slot List.mem_cons_self
    have hRest := ih fun other hOther => hNumbers other (List.mem_cons_of_mem slot hOther)
    unfold values
    unfold Slot.Alike at hSlot
    generalize slot.accessor = a, slot'.accessor = a' at hSlot hOwn
    cases hSlot with
    | none => exact .error _ _
    | @some a a' ha =>
      refine .bind (R := fun v v' => v' = v) ?_ fun hv => hv ▸ hRest.bind fun hTexts => hTexts ▸ .ok rfl
      intro v hv
      have hRead := liftAccess_eq_ok.mp hv
      obtain ⟨v', hRead', hAlike⟩ := ha.evaluate hr v hRead
      refine ⟨v', liftAccess_eq_ok.mpr hRead', ?_⟩
      have hNumber := hOwn a rfl v hRead
      cases hAlike with
      | same => rfl
      | _ => cases hNumber

end

end Mission
