import Mission.Proofs.Accessor.Places
import Mission.Proofs.Expr.Shape

/-! Assigning the result of an equation. Whether a result can be assigned is decided on its shape,
and what is written is the value of an accessor that holds the result: a number, or a new array for
a matrix. The new array disturbs nothing that is read or written, so a place for a single number
takes numbers and 1x1 matrices, and an Array takes matrices of its size, and a number if it is 1x1.
-/
namespace Mission

open Registry Outcome Equation Mission.Matrix

/-! ### Reading beside new objects -/

namespace Registry

variable {r r' : Registry} {v : Value}

/-- The second registry is the first one with new objects, none of them a celestial body. -/
structure Supplements (r r' : Registry) : Prop where
  grows : Grows r r'
  bodies : ∀ {id}, ¬ r.Has id → (r'.object id).isOfType .celestialBody = false

theorem Supplements.refl (r : Registry) : Supplements r r := by
  refine ⟨.refl r, fun hNot => ?_⟩
  rw [object, entry_of_not_has hNot]
  rfl

/-- A body that is missing counts as the Earth, and so does anything that is no body. -/
theorem Supplements.mu (h : Supplements r r') (body : Option ObjectId) :
    Orbit.mu (body.map r'.object) = Orbit.mu (body.map r.object) := by
  cases body with
  | none => rfl
  | some id =>
    by_cases hId : r.Has id
    · simp [h.grows.object hId]
    · simp [Orbit.mu, h.bodies hId, (Supplements.refl r).bodies hId]

end Registry

namespace Quantity

variable {q : Quantity} {owner : Object} {body body' : Option Object} {v : Value}

/-- A quantity depends on the body through its gravitational parameter. -/
theorem compute_congr (h : Orbit.mu body' = Orbit.mu body) :
    q.compute owner body' = q.compute owner body := by
  cases q <;> simp [compute, Orbit.Elements.of, h]

/-- There is nothing to compute without an owner. -/
theorem compute_default (h : q.compute default body = .ok v) : False := by
  cases q with
  | semiMajorAxis | eccentricity | inclination | energy =>
    obtain ⟨elements, hElements, -⟩ := bind_eq_ok.mp h
    obtain ⟨mu, -, hElements⟩ := bind_eq_ok.mp hElements
    obtain ⟨state, hState, -⟩ := bind_eq_ok.mp hElements
    cases hState
  | _ => cases h

end Quantity

namespace Registry

variable {r r' : Registry} {id : ObjectId} {v : Value}

theorem has_of_content (h : (r.object id).content ≠ .plain) : r.Has id := by
  refine Classical.byContradiction fun hNot => h ?_
  rw [object, entry_of_not_has hNot]
  rfl

theorem has_of_property {i : Nat} {p : Property} (h : (r.object id).properties.getAt? i = some p) :
    r.Has id := by
  refine Classical.byContradiction fun hNot => ?_
  rw [object, entry_of_not_has hNot] at h
  cases h

theorem has_of_evaluate (h : r.evaluate id = .ok v) : r.Has id := by
  refine Classical.byContradiction fun hNot => ?_
  unfold evaluate at h
  rw [object, entry_of_not_has hNot] at h
  cases h

/-- What can be read stays as it is beside new objects. -/
theorem Supplements.evaluate (h : Supplements r r') (hValue : r.evaluate id = .ok v) :
    r'.evaluate id = .ok v := by
  have hId := has_of_evaluate hValue
  unfold Registry.evaluate at hValue ⊢
  rw [h.grows.object hId]
  dsimp only at hValue ⊢
  split at hValue
  · next p _ =>
      obtain ⟨owner, hOwner, hCompute⟩ := bind_eq_ok.mp hValue
      have hHas : r.Has owner := by
        refine Classical.byContradiction fun hNot => ?_
        rw [object, entry_of_not_has hNot] at hCompute
        exact Quantity.compute_default hCompute
      refine bind_eq_ok.mpr ⟨owner, hOwner, ?_⟩
      rw [h.grows.object hHas, Quantity.compute_congr (h.mu p.dependencyObject)]
      exact hCompute
  · exact hValue

end Registry

namespace Accessor

variable {r r' : Registry} {a : Accessor} {v : Value}

theorem liftType_eq_ok {α : Type} {x : Except TypeError α} {y : α} : liftType x = .ok y ↔ x = .ok y := by
  cases x <;> simp [liftType]

theorem indexOf_eq_ok {read : Except AccessError Value} {i : Nat} (h : indexOf a read = .ok i) :
    ∃ v x, read = .ok v ∧ v.asReal = .ok x := by
  obtain ⟨-, -, h⟩ := bind_eq_ok.mp h
  obtain ⟨v, hRead, h⟩ := bind_eq_ok.mp h
  obtain ⟨x, hReal, -⟩ := bind_eq_ok.mp h
  exact ⟨v, x, hRead, liftType_eq_ok.mp hReal⟩

/-- A number that can be read through an accessor stays as it is beside new objects. -/
theorem evaluate_of_supplements (h : Supplements r r') {x : Float} (hValue : a.evaluate r = .ok v)
    (hReal : v.asReal = .ok x) : a.evaluate r' = .ok v := by
  induction a generalizing v x with
  | number d y | string d s | boolean d b | onOff d b => exact hValue
  | property d p =>
    obtain ⟨⟨id, i⟩, hBound, hRead⟩ := bind_eq_ok.mp hValue
    refine bind_eq_ok.mpr ⟨⟨id, i⟩, hBound, ?_⟩
    have hId : r.Has id := by
      refine Classical.byContradiction fun hNot => ?_
      dsimp only at hRead
      rw [object, entry_of_not_has hNot] at hRead
      cases hRead
    dsimp only at hRead ⊢
    rw [h.grows.object hId]
    exact hRead
  | whole d k target =>
    obtain ⟨id, hBound, hRead⟩ := bind_eq_ok.mp hValue
    refine bind_eq_ok.mpr ⟨id, hBound, ?_⟩
    split at hRead
    · cases hRead
      cases hReal
    · next hKind =>
        have hEvaluate := liftObject_eq_ok.mp hRead
        rw [h.grows.object (has_of_evaluate hEvaluate), if_neg hKind]
        exact liftObject_eq_ok.mpr (h.evaluate hEvaluate)
  | element d name array row column ihRow ihColumn =>
    obtain ⟨id, hBound, hRead⟩ := bind_eq_ok.mp hValue
    obtain ⟨i, hRow, hRead⟩ := bind_eq_ok.mp hRead
    obtain ⟨j, hColumn, hRead⟩ := bind_eq_ok.mp hRead
    obtain ⟨y, hElement, hDone⟩ := bind_eq_ok.mp hRead
    obtain ⟨rowValue, _, hRowRead, hRowReal⟩ := indexOf_eq_ok hRow
    obtain ⟨columnValue, _, hColumnRead, hColumnReal⟩ := indexOf_eq_ok hColumn
    have hRowSame : row.evaluate r' = row.evaluate r := (ihRow hRowRead hRowReal).trans hRowRead.symm
    have hColumnSame : column.evaluate r' = column.evaluate r :=
      (ihColumn hColumnRead hColumnReal).trans hColumnRead.symm
    obtain ⟨m, hContent, hAt⟩ := Object.content_of_element (liftObject_eq_ok.mp hElement)
    rw [evaluate, hRowSame, hColumnSame]
    refine bind_eq_ok.mpr ⟨id, hBound, bind_eq_ok.mpr ⟨i, hRow, bind_eq_ok.mpr ⟨j, hColumn, ?_⟩⟩⟩
    rw [h.grows.object (has_of_content (by rw [hContent]; simp))]
    exact bind_eq_ok.mpr ⟨y, hElement, hDone⟩

theorem indexOf_of_supplements (h : Supplements r r') {i : Nat} (hIndex : indexOf a (a.evaluate r) = .ok i) :
    indexOf a (a.evaluate r') = .ok i := by
  obtain ⟨v, x, hRead, hReal⟩ := indexOf_eq_ok hIndex
  rw [evaluate_of_supplements h hRead hReal, ← hRead]
  exact hIndex

/-- The accessor stands for a place that holds a single number and can be written: a Variable, a
real property, a settable Parameter whose owner has such a property, or an entry of a sized Array.
-/
inductive Single (r : Registry) : Accessor → Place → Prop
  | variable {d : String} {id : ObjectId} {x : Float} (held : (r.object id).content = .variable x) :
      Single r (.whole d .variable (some id)) ⟨id, .content⟩
  | property {d : String} {p : PropertyRef} {id : ObjectId} {i : Nat} {q : Property}
      (target : p.target = some (id, i)) (found : (r.object id).properties.getAt? i = some q)
      (real : q.dataType = .real) (writable : q.readOnly = false) :
      Single r (.property d p) ⟨id, .property i⟩
  | parameter {d : String} {id owner : ObjectId} {p : SystemParameter} {property : String} {i : Nat}
      {q : Property}
      (held : (r.object id).content = .parameter p) (builtin : p.kind ∈ ParameterKind.builtin)
      (writes : p.kind.writes = some property) (bound : p.owner = some owner)
      (index : (r.object owner).properties.index? property = some i)
      (found : (r.object owner).properties.getAt? i = some q) (real : q.dataType = .real)
      (writable : q.readOnly = false) : Single r (.whole d .parameter (some id)) ⟨owner, .property i⟩
  | element {d name : String} {id : ObjectId} {row column : Accessor} {m : Matrix} {i j : Nat} {x : Float}
      (held : (r.object id).content = .array (some m))
      (rowIndex : indexOf row (row.evaluate r) = .ok i)
      (columnIndex : indexOf column (column.evaluate r) = .ok j) (inside : m.get? i j = some x) :
      Single r (.element d name (some id) row column) ⟨id, .element i j⟩

namespace Single

variable {here : Place}

theorem place (h : a.Single r here) : a.place r = some here := by
  cases h with
  | «variable» held => simp [Accessor.place, valuePlace, Object.parameter?, held]
  | property target found real writable => simp [Accessor.place, target]
  | parameter held builtin writes bound index found real writable =>
    simp [Accessor.place, valuePlace, Object.parameter?, held, writes, bound, index]
  | element held rowIndex columnIndex inside => simp [Accessor.place, rowIndex, columnIndex, Except.toOption]

theorem kind (h : a.Single r here) : a.kind ≠ .object := by
  cases h <;> simp [Accessor.kind, WholeKind.kind]

theorem dataType (h : a.Single r here) : a.dataType r = .real := by
  cases h with
  | «variable» held => rfl
  | property target found real writable => simp [Accessor.dataType, target, found, real]
  | @parameter d id owner p property i q held builtin writes bound index found real writable =>
    have hField := ParameterKind.field_of_settable p.kind builtin property writes
    simp [Accessor.dataType, Object.returnType, held, ParameterKind.returnType_of_builtin p.kind builtin,
      hField, Quantity.valueType]
  | element held rowIndex columnIndex inside => rfl

/-- Such a place takes what can be read as a number. -/
theorem taken (h : a.Single r here) (v : Value) : r.taken v here = v.asReal.toOption.map .real := by
  cases h with
  | «variable» held => simp [taken, Object.taken, held, Content.taken]
  | property target found real writable | parameter held builtin writes bound index found real writable =>
    cases hReal : v.asReal <;>
      simp [taken, Object.taken, found, writable, Property.convert, real, hReal, Except.toOption]
  | element held rowIndex columnIndex inside =>
    simp [taken, Object.taken, Object.element_of_content held inside, Except.toOption]

/-- It stays such a place beside new objects. -/
theorem later (h : a.Single r here) (hNew : Supplements r r') : a.Single r' here := by
  have hObject : ∀ {id}, (r.object id).content ≠ .plain → r'.object id = r.object id := fun hContent =>
    hNew.grows.object (has_of_content hContent)
  have hOwner : ∀ {id i q}, (r.object id).properties.getAt? i = some q → r'.object id =
    r.object id := fun hAt =>
    hNew.grows.object (has_of_property hAt)
  cases h with
  | «variable» held =>
    have hSame := hObject (by rw [held]; simp)
    exact .variable (hSame ▸ held)
  | property target found real writable =>
    refine .property target ?_ real writable
    rw [hOwner found, found]
  | parameter held builtin writes bound index found real writable =>
    refine .parameter ?_ builtin writes bound ?_ ?_ real writable
    · rw [hObject (by rw [held]; simp), held]
    · rw [hOwner found, index]
    · rw [hOwner found, found]
  | element held rowIndex columnIndex inside =>
    refine .element ?_ (indexOf_of_supplements hNew rowIndex) (indexOf_of_supplements hNew columnIndex) inside
    rw [hObject (by rw [held]; simp), held]

end Single

end Accessor

/-! ### Results -/

namespace Registry

variable {r r' : Registry} {id : ObjectId}

theorem owned_modifyObject (r : Registry) (id : ObjectId) (f : Object → Object) (other : ObjectId) :
    (r.modifyObject id f).owned other = r.owned other := by
  refine owned_modify (fun e => ?_) id other
  rfl

/-- A new object may still change. -/
theorem Grows.modifyObject_new (h : Grows r r') (hNew : ¬ r.Has id) (f : Object → Object) :
    Grows r (r'.modifyObject id f) := by
  refine ⟨fun hHas => has_modify.mpr (h.has hHas), fun hHas => ?_, fun hNot hc => ?_,
    fun hNot hNot' hc hc' => ?_⟩
  · rw [modifyObject, entry_modify_ne (by rintro rfl; exact hNew hHas)]
    exact h.entry hHas
  · rw [owned_modifyObject] at hc
    exact ⟨(h.parts hNot hc).1, has_modify.mpr (h.parts hNot hc).2⟩
  · rw [owned_modifyObject] at hc hc'
    exact h.once hNot hNot' hc hc'

/-- One object is added, and then changes. -/
theorem supplements_push {o : Object} {f : Object → Object} (hBody : (f o).isOfType .celestialBody = false) :
    Supplements r ((r.push { object := o }).2.modifyObject (r.push { object := o }).1 f) := by
  have hGrows : Grows r (r.push { object := o }).2 := (grows_push (.refl r) (by simp)).1
  refine ⟨hGrows.modifyObject_new (not_has_push_id r _) f, fun {other} hNot => ?_⟩
  by_cases hSame : other = (r.push { object := o }).1
  · subst hSame
    rw [object_modifyObject (has_push.mpr (.inr rfl)), object, entry_push_id]
    exact hBody
  · have hMissing : ¬ ((r.push { object := o }).2.modifyObject (r.push { object := o }).1 f).Has other :=
      fun hHas => (has_push.mp (has_modify.mp hHas)).elim hNot hSame
    rw [object, entry_of_not_has hMissing]
    rfl

/-- An object that was there before changes in both registries. -/
theorem Grows.modifyObject_old (h : Grows r r') (hId : r.Has id) (f : Object → Object) :
    Grows (r.modifyObject id f) (r'.modifyObject id f) := by
  refine ⟨fun hHas => has_modify.mpr (h.has (has_modify.mp hHas)), fun {other} hHas => ?_, fun hNot hc => ?_,
    fun hNot hNot' hc hc' => ?_⟩
  · by_cases hSame : other = id
    · subst hSame
      rw [modifyObject, modifyObject, entry_modify_self hId, entry_modify_self (h.has hId), h.entry hId]
    · rw [modifyObject, modifyObject, entry_modify_ne hSame, entry_modify_ne hSame]
      exact h.entry (has_modify.mp hHas)
  · rw [owned_modifyObject] at hc
    exact h.parts hNot hc
  · rw [owned_modifyObject] at hc hc'
    exact h.once hNot hNot' hc hc'

end Registry

namespace Equation

variable {r : Registry} {m : Matrix}

/-- The object that holds a matrix, as it is added. -/
def arrayFor (m : Matrix) : Object :=
  (Catalog.userArray arrayOutput m.rows m.cols).object

theorem hold_matrix (r : Registry) (m : Matrix) :
    hold r (.matrix m) = (do
      let r' ← MathError.liftObject
        ((r.push { object := arrayFor m }).2.assign (r.push { object := arrayFor m }).1 (.matrix m))
      return (.ofObject r' arrayOutput (r.push { object := arrayFor m }).1, r')) :=
  rfl

theorem object_arrayFor (r : Registry) (m : Matrix) :
    (r.push { object := arrayFor m }).2.object (r.push { object := arrayFor m }).1 = arrayFor m := by
  rw [object, entry_push_id]

/-- A matrix is assigned to what the new object holds. -/
theorem valuePlace_arrayFor (r : Registry) (m : Matrix) :
    (r.push { object := arrayFor m }).2.valuePlace (r.push { object := arrayFor m }).1 =
      some ⟨(r.push { object := arrayFor m }).1, .content⟩ := by
  rw [valuePlace, object_arrayFor]
  rfl

/-- It is taken there if it has entries. -/
theorem taken_arrayFor (r : Registry) (m : Matrix) :
    (r.push { object := arrayFor m }).2.taken (.matrix m) ⟨(r.push { object := arrayFor m }).1, .content⟩ =
      if m.rows = 0 || m.cols = 0 then none else some (.matrix m) := by
  rw [taken, object_arrayFor]
  by_cases hEmpty : (m.rows = 0 || m.cols = 0) = true
  · simp only [arrayFor, Catalog.userArray, if_pos hEmpty]
    rfl
  · simp only [arrayFor, Catalog.userArray, if_neg hEmpty]
    simp [Catalog.holder, Object.taken, Content.taken, Assembly.ofObject, Assembly.object, Value.asMatrix,
      Except.toOption, zero, ofFn, dims]

/-- A matrix is held in a new array of its size. -/
theorem hold_of_filled (hFilled : m.Filled) :
    ∃ id r', hold r (.matrix m) = .ok (.whole arrayOutput .array (some id), r') ∧ Supplements r r' ∧
      (r'.object id).content = .array (some m) := by
  have hPositive : ¬ (m.rows = 0 || m.cols = 0) = true := by
    have hRows := hFilled.1
    have hCols := hFilled.2
    simp
    omega
  have hTaken := taken_arrayFor r m
  rw [if_neg hPositive] at hTaken
  have hHeld : (((r.push { object := arrayFor m }).2.put (.matrix m)
      ⟨(r.push { object := arrayFor m }).1, .content⟩).object (r.push { object := arrayFor m }).1).content =
        .array (some m) := by
    rw [put, object_modifyObject (has_of_taken hTaken)]
    rfl
  refine ⟨_, _, ?_, supplements_push ?_, hHeld⟩
  · rw [hold_matrix, assign_eq_ok.mpr ⟨_, _, valuePlace_arrayFor r m, hTaken, rfl⟩]
    have hKind : ∀ {o : Object}, o.content = .array (some m) → WholeKind.of o = .array := by
      intro o ho
      simp [WholeKind.of, Object.isVariable, Object.isArray, ho]
    simp only [MathError.liftObject, Accessor.ofObject, Bind.bind, Except.bind, pure, Except.pure,
      hKind hHeld]
    rfl
  · rfl

/-- There is no array for a matrix without entries. -/
theorem filled_of_hold {source : Accessor} {r' : Registry} (h : hold r (.matrix m) = .ok (source, r')) :
    m.Filled := by
  rw [hold_matrix] at h
  obtain ⟨r₁, hAssign, -⟩ := bind_eq_ok.mp h
  obtain ⟨place, w, hPlace, hTaken, -⟩ := assign_eq_ok.mp (MathError.liftObject_eq_ok.mp hAssign)
  cases (valuePlace_arrayFor r m).symm.trans hPlace
  rw [taken_arrayFor] at hTaken
  split at hTaken
  · cases hTaken
  · next hPositive =>
      simp only [Bool.or_eq_true, decide_eq_true_eq, not_or] at hPositive
      exact ⟨Nat.pos_of_ne_zero hPositive.1, Nat.pos_of_ne_zero hPositive.2⟩

end Equation

namespace Result

/-- The number that the result is, or the entry of a 1x1 matrix. -/
def number? : Result → Option Float
  | real x => some x
  | matrix m => if m.dims = (1, 1) then some (m.entry 0 0) else none
  | _ => none

/-- The matrix of a size that the result is. A number is a 1x1 matrix too. -/
def matrixOf? (size : Nat × Nat) : Result → Option Matrix
  | real x => if size = (1, 1) then some (.scalar x) else none
  | matrix m => if m.dims = size then some m else none
  | _ => none

theorem dims_of_matrixOf? {size : Nat × Nat} {v : Result} {m : Matrix} (h : v.matrixOf? size = some m) :
    m.dims = size := by
  cases v with
  | real x =>
    obtain ⟨rfl, rfl⟩ : size = (1, 1) ∧ Matrix.scalar x = m := by simpa [matrixOf?] using h
    rfl
  | matrix n =>
    obtain ⟨hDims, rfl⟩ : n.dims = size ∧ n = m := by simpa [matrixOf?] using h
    exact hDims
  | string text => cases h
  | object id => cases h

end Result

namespace Assignment

variable {r r' : Registry} {a : Assignment} {f : Formula} {v : Result} {target : Accessor}

/-- A result that fits the target is held, and what is held is transferred. Another one is refused. -/
theorem execute_of_evaluate (hFormula : a.equation.formula = some f) (hTarget : a.target = some target)
    (hValue : f.expr.evaluate r a.equation.bindings = .ok v) :
    a.execute r =
      if fits r v.shape target = true then do
        let (source, r₁) ← CommandError.liftMath (hold r v)
        CommandError.liftAccess (transfer r₁ target source)
      else .error (.math (.typeMismatch v.shape.dataType (resultType (target.dataType r)))) := by
  have hEquation : a.isEquation = true := by
    rw [isEquation, hFormula]
    rfl
  have hRun : a.equation.run r a.target =
      if fits r v.shape target = true then hold r v
      else .error (.typeMismatch v.shape.dataType (resultType (target.dataType r))) := by
    unfold Equation.run require
    rw [hFormula, hTarget]
    simp only [Bind.bind, Except.bind, Expr.shape_of_evaluate hValue, hValue]
    cases fits r v.shape target <;> rfl
  unfold execute output
  rw [if_pos hEquation, hRun, hTarget]
  split <;> rfl

/-- A number is written as a value. -/
theorem transfer_number {d : String} {x : Float} (hKind : target.kind ≠ .object)
    (hType : (target.dataType r).isMatrix = false) :
    transfer r target (.number d x) = target.setValue r (.real x) := by
  unfold transfer
  rw [if_neg hKind, hType]
  rfl

/-- What an array holds is written as a value. -/
theorem transfer_array {d : String} {id : ObjectId} {m : Matrix} (hKind : target.kind ≠ .object)
    (hHeld : (r.object id).content = .array (some m)) :
    transfer r target (.whole d .array (some id)) = target.setValue r (.matrix m) := by
  have hRead : (Accessor.whole d .array (some id)).evaluate r = .ok (.matrix m) := by
    simp [Accessor.evaluate, Accessor.boundTo, evaluate, hHeld, Object.stored, liftObject, Bind.bind,
      Except.bind]
  unfold transfer
  rw [if_neg hKind, if_neg (by simp [Accessor.dataType, DataType.isNumeric]), hRead]
  rfl

theorem exists_error {ε α : Type} {x : Except ε α} (h : ∀ y, x ≠ .ok y) : ∃ e, x = .error e := by
  cases x with
  | error e => exact ⟨e, rfl⟩
  | ok y => exact absurd rfl (h y)

section Single

variable {here : Place}

/-- A matrix that has entries and fits the target is written as a value beside the new array that
holds it. -/
theorem execute_matrix {m : Matrix} (hFormula : a.equation.formula = some f)
    (hTarget : a.target = some target) (hValue : f.expr.evaluate r a.equation.bindings = .ok (.matrix m))
    (hFilled : m.Filled) (hFits : fits r (Result.matrix m).shape target = true)
    (hKind : target.kind ≠ .object) :
    ∃ r₁, Supplements r r₁ ∧ a.execute r = CommandError.liftAccess (target.setValue r₁ (.matrix m)) := by
  obtain ⟨id, r₁, hHold, hNew, hHeld⟩ := hold_of_filled hFilled
  refine ⟨r₁, hNew, ?_⟩
  rw [execute_of_evaluate hFormula hTarget hValue, if_pos hFits, hHold]
  simp only [CommandError.liftMath, Bind.bind, Except.bind, transfer_array hKind hHeld]

/-- A number is written as a value if it fits the target. -/
theorem execute_real {x : Float} (hFormula : a.equation.formula = some f) (hTarget : a.target = some target)
    (hValue : f.expr.evaluate r a.equation.bindings = .ok (.real x))
    (hFits : fits r .real target = true) :
    a.execute r = CommandError.liftAccess (transfer r target (.number (Real.toText x) x)) := by
  rw [execute_of_evaluate hFormula hTarget hValue, if_pos (show fits r (Result.real x).shape target = true
    from hFits)]
  rfl

/-- What a place takes beside new objects is put there. -/
theorem grows_of_setValue {r₁ : Registry} {w : Value} {v : Value} (hNew : Supplements r r₁)
    (hPlace : target.place r₁ = some here) (hTaken : r₁.taken v here = some w) (hHas : r.Has here.object) :
    ∃ r', CommandError.liftAccess (target.setValue r₁ v) = .ok r' ∧ Grows (r.put w here) r' :=
  ⟨r₁.put w here, CommandError.liftAccess_eq_ok.mpr
    (Accessor.setValue_eq_ok.mpr ⟨here, w, hPlace, hTaken, rfl⟩), hNew.grows.modifyObject_old hHas _⟩

/-- A number, or a 1x1 matrix, is stored at a place for a single number. -/
theorem execute_single (hFormula : a.equation.formula = some f) (hTarget : a.target = some target)
    (hValue : f.expr.evaluate r a.equation.bindings = .ok v) (hSingle : target.Single r here) {x : Float}
    (hNumber : v.number? = some x) :
    ∃ r', a.execute r = .ok r' ∧ Grows (r.put (.real x) here) r' := by
  have hType : resultType (target.dataType r) = .real := by
    rw [hSingle.dataType]
    rfl
  have hHas : r.Has here.object := has_of_taken (hSingle.taken (.real x))
  cases v with
  | real y =>
    cases hNumber
    have hFits : fits r .real target = true := by
      simp [fits, hType, Shape.dataType]
    rw [execute_real hFormula hTarget hValue hFits,
      transfer_number hSingle.kind (by rw [hSingle.dataType]; rfl)]
    exact grows_of_setValue (.refl r) hSingle.place (by rw [hSingle.taken]; rfl) hHas
  | matrix m =>
    have hScalar : m.dims = (1, 1) ∧ m.entry 0 0 = x := by
      simpa [Result.number?] using hNumber
    obtain ⟨hRows, hCols⟩ := Prod.mk.inj hScalar.1
    have hFits : fits r (Result.matrix m).shape target = true := by
      simp [fits, hType, Result.shape, hRows, hCols]
    obtain ⟨r₁, hNew, hExecute⟩ := execute_matrix hFormula hTarget hValue
      (by simp [Matrix.Filled, hRows, hCols])
      hFits hSingle.kind
    have hLater := hSingle.later hNew
    rw [hExecute]
    refine grows_of_setValue hNew hLater.place ?_ hHas
    rw [hLater.taken]
    simp [Value.asReal, isScalar, hScalar, Except.toOption]
  | string text => cases hNumber
  | object id => cases hNumber

/-- Any other result is refused there. -/
theorem refuse_single (hFormula : a.equation.formula = some f) (hTarget : a.target = some target)
    (hValue : f.expr.evaluate r a.equation.bindings = .ok v) (hSingle : target.Single r here)
    (hNumber : v.number? = none) : ∃ e, a.execute r = .error e := by
  have hType : resultType (target.dataType r) = .real := by
    rw [hSingle.dataType]
    rfl
  have hFits : ¬ fits r v.shape target = true := by
    cases v with
    | real x => cases hNumber
    | matrix m =>
      have hDims : ¬ m.dims = (1, 1) := by simpa [Result.number?] using hNumber
      simpa [fits, hType, Result.shape, Shape.dataType, dims] using hDims
    | string text | object id => simp [fits, hType, Result.shape, Shape.dataType]
  rw [execute_of_evaluate hFormula hTarget hValue, if_neg hFits]
  exact ⟨_, rfl⟩

end Single

section Whole

variable {d : String} {id : ObjectId} {m : Matrix}

theorem place_array (hHeld : (r.object id).content = .array (some m)) :
    (Accessor.whole d .array (some id)).place r = some ⟨id, .content⟩ := by
  simp [Accessor.place, valuePlace, Object.parameter?, hHeld]

/-- An Array takes matrices of its size. -/
theorem taken_array (hHeld : (r.object id).content = .array (some m)) (n : Matrix) :
    r.taken (.matrix n) ⟨id, .content⟩ = if m.dims = n.dims then some (.matrix n) else none := by
  by_cases hDims : m.dims = n.dims <;>
    simp [taken, Object.taken, hHeld, Content.taken, Value.asMatrix, Except.toOption, hDims]

/-- A number fits an Array if this is 1x1, and a matrix fits in any case. -/
theorem fits_array (hHeld : (r.object id).content = .array (some m)) :
    fits r v.shape (.whole d .array (some id)) = (v.isNumeric && (v.dataType = .matrix || m.isScalar)) := by
  have hRead : (Accessor.whole d .array (some id)).evaluateMatrix r = .ok m := by
    simp [Accessor.evaluateMatrix, Accessor.require, Accessor.kind, WholeKind.kind, AccessorKind.isMatrix,
      Accessor.evaluate, Accessor.boundTo, evaluate, hHeld, Object.stored, liftObject, liftType,
      Value.asMatrix, Bind.bind, Except.bind]
  have hType : resultType ((Accessor.whole d .array (some id)).dataType r) = .matrix := rfl
  cases v <;> simp [fits, hType, Result.shape, Result.isNumeric, Result.dataType, Shape.dataType, hRead]

/-- A number is written to an Array as a 1x1 matrix. -/
theorem transfer_number_array (text : String) (x : Float) :
    transfer r (.whole d .array (some id)) (.number text x) =
      (Accessor.whole d .array (some id)).setValue r (.matrix (.scalar x)) :=
  rfl

/-- A matrix of its size is stored in an Array, and a number if the Array is 1x1. -/
theorem execute_array (hFormula : a.equation.formula = some f)
    (hTarget : a.target = some (.whole d .array (some id)))
    (hValue : f.expr.evaluate r a.equation.bindings = .ok v)
    (hHeld : (r.object id).content = .array (some m)) (hFilled : m.Filled) {n : Matrix}
    (hMatrix : v.matrixOf? m.dims = some n) :
    ∃ r', a.execute r = .ok r' ∧ Grows (r.put (.matrix n) ⟨id, .content⟩) r' := by
  have hHas : r.Has id := has_of_content (by rw [hHeld]; simp)
  cases v with
  | real x =>
    have hScalar : m.dims = (1, 1) ∧ scalar x = n := by
      simpa [Result.matrixOf?] using hMatrix
    have hFits : fits r .real (.whole d .array (some id)) = true := by
      rw [show Shape.real = (Result.real x).shape from rfl, fits_array hHeld]
      simp [Result.isNumeric, isScalar, hScalar]
    rw [execute_real hFormula hTarget hValue hFits, transfer_number_array]
    refine grows_of_setValue (.refl r) (place_array hHeld) ?_ hHas
    rw [taken_array hHeld, ← hScalar.2]
    exact if_pos hScalar.1
  | matrix k =>
    have hSame : k.dims = m.dims ∧ k = n := by
      simpa [Result.matrixOf?] using hMatrix
    obtain ⟨hRows, hCols⟩ := Prod.mk.inj hSame.1
    have hFits : fits r (Result.matrix k).shape (.whole d .array (some id)) = true := by
      rw [fits_array hHeld]
      rfl
    obtain ⟨r₁, hNew, hExecute⟩ := execute_matrix hFormula hTarget hValue
      (by rw [Matrix.Filled, hRows, hCols]; exact hFilled) hFits (by simp [Accessor.kind, WholeKind.kind])
    have hLater : (r₁.object id).content = .array (some m) := by
      rw [hNew.grows.object hHas, hHeld]
    rw [hExecute]
    refine grows_of_setValue hNew (place_array hLater) ?_ hHas
    rw [taken_array hLater, if_pos hSame.1.symm, hSame.2]
  | string text => cases hMatrix
  | object id => cases hMatrix

/-- Any other result is refused there. -/
theorem refuse_array (hFormula : a.equation.formula = some f)
    (hTarget : a.target = some (.whole d .array (some id)))
    (hValue : f.expr.evaluate r a.equation.bindings = .ok v)
    (hHeld : (r.object id).content = .array (some m)) (hMatrix : v.matrixOf? m.dims = none) :
    ∃ e, a.execute r = .error e := by
  by_cases hFits : fits r v.shape (.whole d .array (some id)) = true
  · refine exists_error fun r' hOk => ?_
    rw [fits_array hHeld] at hFits
    cases v with
    | real x =>
      have hScalar : m.isScalar = true := by simpa [Result.isNumeric, Result.dataType, Result.shape,
        Shape.dataType] using hFits
      have hDims : ¬ m.dims = (1, 1) := by simpa [Result.matrixOf?] using hMatrix
      exact hDims (of_decide_eq_true hScalar)
    | matrix k =>
      have hFits : fits r (Result.matrix k).shape (.whole d .array (some id)) = true := by
        rw [fits_array hHeld]
        rfl
      have hDims : ¬ m.dims = k.dims := by
        simpa [Result.matrixOf?, eq_comm] using hMatrix
      have hFilled : k.Filled := by
        rw [execute_of_evaluate hFormula hTarget hValue, if_pos hFits] at hOk
        obtain ⟨⟨source, r₁⟩, hHold, -⟩ := bind_eq_ok.mp hOk
        exact filled_of_hold (CommandError.liftMath_eq_ok.mp hHold)
      obtain ⟨r₁, hNew, hExecute⟩ := execute_matrix hFormula hTarget hValue hFilled hFits
        (by simp [Accessor.kind, WholeKind.kind])
      have hLater : (r₁.object id).content = .array (some m) := by
        rw [hNew.grows.object (has_of_content (by rw [hHeld]; simp)), hHeld]
      obtain ⟨place, w, hPlace, hTaken, -⟩ :=
        Accessor.setValue_eq_ok.mp (CommandError.liftAccess_eq_ok.mp (hExecute ▸ hOk))
      cases (place_array hLater).symm.trans hPlace
      rw [taken_array hLater, if_neg hDims] at hTaken
      cases hTaken
    | string text => cases hFits
    | object other => cases hFits
  · rw [execute_of_evaluate hFormula hTarget hValue, if_neg hFits]
    exact ⟨_, rfl⟩

end Whole

end Assignment

end Mission
