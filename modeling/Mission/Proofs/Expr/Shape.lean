import Mission.Catalog
import Mission.Expr.Evaluate
import Mission.Proofs.Outcome

/-! The static shape of an expression and its value agree. Every operation is compared once, on the
shapes of its operands and on the operands themselves; the two recursions over an expression then run
in step. Only a leaf can have a shape and no value, since reading it may fail. -/
namespace Mission

open Outcome Shape Result

theorem Shape.requireNumeric_eq_ok {operation : String} {v : Result} {s : Shape} :
    v.shape.requireNumeric operation = .ok s ↔ v.isNumeric = true ∧ s = v.shape := by
  cases v <;> simp [shape, isNumeric, requireNumeric, eq_comm]

namespace Result

/-- The size of a matrix. All else is of size 1x1. -/
def dims : Result → Nat × Nat
  | matrix m => m.dims
  | _ => (1, 1)

theorem dims_shape (v : Result) : v.shape.dims = v.dims := by
  cases v <;> rfl

/-- A value can be taken as a single number exactly if its shape can. -/
theorem scalar_eq_ok_iff {operation : String} {v : Result} (hNumeric : v.isNumeric = true) :
    (∃ x, v.scalar operation = .ok x) ↔ v.shape.requireScalar operation = .ok () := by
  cases v with
  | real x => simp [scalar, shape, requireScalar]
  | matrix m =>
    by_cases hScalar : m.isScalar = true
    · have hDims : (m.rows, m.cols) = (1, 1) := by simpa [Matrix.isScalar, Matrix.dims] using hScalar
      simp [scalar, shape, requireScalar, hScalar, hDims]
    · have hDims : (m.rows, m.cols) ≠ (1, 1) := by simpa [Matrix.isScalar, Matrix.dims] using hScalar
      simp only [scalar, shape, requireScalar, if_neg hScalar, if_neg hDims]
      simp
  | string text => cases hNumeric
  | object id => cases hNumeric

theorem isNumeric_of_scalar {operation : String} {v : Result} {x : Float}
    (h : v.scalar operation = .ok x) : v.isNumeric = true := by
  cases v with
  | real y => rfl
  | matrix m => rfl
  | string text => cases h
  | object id => cases h

end Result

namespace BinaryOp

/-- A binary operation is defined on two numeric shapes exactly if it is defined on the values, and
gives the shape of the result. -/
theorem shape_eq_ok_iff (op : BinaryOp) {x y : Result} (hx : x.isNumeric = true)
    (hy : y.isNumeric = true) (s : Shape) :
    op.shape x.shape y.shape = .ok s ↔ ∃ v, op.evaluate x y = .ok v ∧ v.shape = s := by
  cases x with
  | string text => cases hx
  | object id => cases hx
  | real a =>
    cases y with
    | string text => cases hy
    | object id => cases hy
    | real b => simp [shape, evaluate, Result.shape]
    | matrix n => cases op <;> simp [shape, evaluate, Result.shape, Matrix.map]
  | matrix m =>
    cases y with
    | string text => cases hy
    | object id => cases hy
    | real b => cases op <;> simp [shape, evaluate, Result.shape, Matrix.map]
    | matrix n =>
      have hZip (symbol : String) (f : Float → Float → Float) :
          (if (m.rows, m.cols) = (n.rows, n.cols) then .ok (.matrix m.rows m.cols)
            else .error (.dimension ⟨symbol, (m.rows, m.cols), (n.rows, n.cols)⟩) :
              Except MathError Shape) = .ok s ↔
            ∃ v, (MathError.liftDimension (Matrix.zipWith symbol f m n) >>= fun z =>
              pure (Result.matrix z)) = .ok v ∧ v.shape = s := by
        by_cases hDims : (m.rows, m.cols) = (n.rows, n.cols)
        · rw [if_pos hDims]
          simp [Matrix.zipWith, Matrix.dims, hDims, MathError.liftDimension, Result.shape,
            Matrix.ofFn, pure, Except.pure, bind, Except.bind]
        · rw [if_neg hDims]
          simp [Matrix.zipWith, Matrix.dims, hDims, MathError.liftDimension, bind, Except.bind]
      cases op with
      | add => exact hZip _ _
      | subtract => exact hZip _ _
      | multiply =>
        by_cases hInner : m.cols = n.rows
        · simp [shape, evaluate, Result.shape, Matrix.mul, hInner, MathError.liftDimension,
            Matrix.ofFn, pure, Except.pure, bind, Except.bind]
        · simp [shape, evaluate, Result.shape, Matrix.mul, hInner, MathError.liftDimension,
            bind, Except.bind]
      | divide | power => simp [shape, evaluate, Result.shape]

/-- No operation is defined on text or on objects. -/
theorem isNumeric_of_evaluate (op : BinaryOp) {x y v : Result} (h : op.evaluate x y = .ok v) :
    x.isNumeric = true ∧ y.isNumeric = true := by
  cases x <;> cases y <;> first | exact ⟨rfl, rfl⟩ | cases h

end BinaryOp

namespace UnaryFunction

/-- A function is defined on a numeric shape exactly if it is defined on the value, and gives the
shape of the result. -/
theorem shape_eq_ok_iff (f : UnaryFunction) {x : Result} (hx : x.isNumeric = true) (s : Shape) :
    f.shape x.shape = .ok s ↔ ∃ v, f.evaluate x = .ok v ∧ v.shape = s := by
  have hScalar (operation : String) (g : Float → Float) :
      (x.shape.requireScalar operation >>= fun _ => pure Shape.real) = .ok s ↔
        ∃ v, (x.scalar operation >>= fun a => pure (real (g a))) = .ok v ∧ v.shape = s := by
    rw [bind_eq_ok]
    constructor
    · rintro ⟨_, hShape, hs⟩
      obtain ⟨a, ha⟩ := (scalar_eq_ok_iff hx).mpr hShape
      refine ⟨.real (g a), bind_eq_ok.mpr ⟨a, ha, rfl⟩, ?_⟩
      cases hs
      rfl
    · rintro ⟨v, hv, rfl⟩
      obtain ⟨a, ha, hReal⟩ := bind_eq_ok.mp hv
      cases hReal
      exact ⟨(), (scalar_eq_ok_iff hx).mp ⟨a, ha⟩, rfl⟩
  cases f with
  | transpose =>
    cases x with
    | real a => simp [shape, evaluate, Result.shape]
    | matrix m => simp [shape, evaluate, Result.shape, Matrix.transpose, Matrix.ofFn]
    | string text => cases hx
    | object id => cases hx
  | norm =>
    cases x with
    | real a | matrix m => simp [shape, evaluate, Result.shape]
    | string text => cases hx
    | object id => cases hx
  | _ => exact hScalar _ _

theorem isNumeric_of_evaluate (f : UnaryFunction) {x v : Result} (h : f.evaluate x = .ok v) :
    x.isNumeric = true := by
  cases x with
  | real a => rfl
  | matrix m => rfl
  | string text => cases f <;> cases h
  | object id => cases f <;> cases h

end UnaryFunction

namespace Expr

variable {r : Registry} {b : Bindings}

/-- The value of a leaf has the shape that was found for the leaf. -/
theorem leafShape_of_leafValue {name : String} {v : Result} (h : leafValue r b name = .ok v) :
    leafShape r b name = .ok v.shape := by
  unfold leafValue at h
  unfold leafShape
  obtain ⟨a, ha, h⟩ := bind_eq_ok.mp h
  obtain ⟨t, ht, h⟩ := bind_eq_ok.mp h
  refine bind_eq_ok.mpr ⟨a, ha, bind_eq_ok.mpr ⟨t, ht, ?_⟩⟩
  cases t with
  | matrix =>
    obtain ⟨m, hm, hv⟩ := bind_eq_ok.mp h
    cases hv
    exact bind_eq_ok.mpr ⟨m, hm, rfl⟩
  | _ =>
    obtain ⟨x, -, hv⟩ := bind_eq_ok.mp h
    cases hv
    rfl

theorem shape_of_evaluate {e : Expr} {v : Result} (h : e.evaluate r b = .ok v) :
    e.shape r b = .ok v.shape := by
  induction e generalizing v with
  | number x =>
    cases h
    rfl
  | string text =>
    cases h
    rfl
  | element name => exact leafShape_of_leafValue h
  | negate e ih =>
    obtain ⟨x, hx, h⟩ := bind_eq_ok.mp h
    refine bind_eq_ok.mpr ⟨x.shape, ih hx, ?_⟩
    cases x with
    | real a | matrix m =>
      cases h
      rfl
    | string text => cases h
    | object id => cases h
  | binary op left right ihLeft ihRight =>
    obtain ⟨x, hx, h⟩ := bind_eq_ok.mp h
    obtain ⟨y, hy, h⟩ := bind_eq_ok.mp h
    obtain ⟨hxNumeric, hyNumeric⟩ := op.isNumeric_of_evaluate h
    refine bind_eq_ok.mpr ⟨x.shape, ihLeft hx, bind_eq_ok.mpr ⟨x.shape, ?_, ?_⟩⟩
    · exact requireNumeric_eq_ok.mpr ⟨hxNumeric, rfl⟩
    refine bind_eq_ok.mpr ⟨y.shape, ihRight hy, bind_eq_ok.mpr ⟨y.shape, ?_, ?_⟩⟩
    · exact requireNumeric_eq_ok.mpr ⟨hyNumeric, rfl⟩
    · exact (op.shape_eq_ok_iff hxNumeric hyNumeric _).mpr ⟨v, h, rfl⟩
  | call f e ih =>
    obtain ⟨x, hx, h⟩ := bind_eq_ok.mp h
    have hNumeric := f.isNumeric_of_evaluate h
    refine bind_eq_ok.mpr ⟨x.shape, ih hx, bind_eq_ok.mpr ⟨x.shape, ?_, ?_⟩⟩
    · exact requireNumeric_eq_ok.mpr ⟨hNumeric, rfl⟩
    · exact (f.shape_eq_ok_iff hNumeric _).mpr ⟨v, h, rfl⟩
  | atan2 y x ihY ihX =>
    obtain ⟨p, hp, h⟩ := bind_eq_ok.mp h
    obtain ⟨q, hq, h⟩ := bind_eq_ok.mp h
    obtain ⟨a, ha, h⟩ := bind_eq_ok.mp h
    obtain ⟨c, hc, h⟩ := bind_eq_ok.mp h
    cases h
    have hpNumeric := isNumeric_of_scalar ha
    have hqNumeric := isNumeric_of_scalar hc
    refine bind_eq_ok.mpr ⟨p.shape, ihY hp, bind_eq_ok.mpr ⟨p.shape, ?_, ?_⟩⟩
    · exact requireNumeric_eq_ok.mpr ⟨hpNumeric, rfl⟩
    refine bind_eq_ok.mpr ⟨q.shape, ihX hq, bind_eq_ok.mpr ⟨q.shape, ?_, ?_⟩⟩
    · exact requireNumeric_eq_ok.mpr ⟨hqNumeric, rfl⟩
    refine bind_eq_ok.mpr ⟨(), (scalar_eq_ok_iff hpNumeric).mp ⟨a, ha⟩, ?_⟩
    exact bind_eq_ok.mpr ⟨(), (scalar_eq_ok_iff hqNumeric).mp ⟨c, hc⟩, rfl⟩

/-- An expression that has a shape can be evaluated as soon as its leaves can be read. -/
theorem evaluate_of_shape {e : Expr} {s : Shape} (hShape : e.shape r b = .ok s)
    (hLeaves : ∀ name ∈ e.leaves, ∃ v, (element name).evaluate r b = .ok v) :
    ∃ v, e.evaluate r b = .ok v := by
  induction e generalizing s with
  | number x => exact ⟨_, rfl⟩
  | string text => exact ⟨_, rfl⟩
  | element name => exact hLeaves name (by simp [leaves])
  | negate e ih =>
    obtain ⟨s, hs, hShape⟩ := bind_eq_ok.mp hShape
    obtain ⟨x, hx⟩ := ih hs hLeaves
    obtain rfl : s = x.shape := Except.ok.inj (hs.symm.trans (shape_of_evaluate hx))
    obtain ⟨hNumeric, -⟩ := requireNumeric_eq_ok.mp hShape
    cases x with
    | real a => exact ⟨.real (-a), bind_eq_ok.mpr ⟨_, hx, rfl⟩⟩
    | matrix m => exact ⟨.matrix (m.map fun a => -a), bind_eq_ok.mpr ⟨_, hx, rfl⟩⟩
    | string text => cases hNumeric
    | object id => cases hNumeric
  | binary op left right ihLeft ihRight =>
    obtain ⟨s, hs, hShape⟩ := bind_eq_ok.mp hShape
    obtain ⟨s', hs', hShape⟩ := bind_eq_ok.mp hShape
    obtain ⟨t, ht, hShape⟩ := bind_eq_ok.mp hShape
    obtain ⟨t', ht', hShape⟩ := bind_eq_ok.mp hShape
    obtain ⟨x, hx⟩ := ihLeft hs fun name hName => hLeaves name (by simp [leaves, hName])
    obtain ⟨y, hy⟩ := ihRight ht fun name hName => hLeaves name (by simp [leaves, hName])
    obtain rfl : s = x.shape := Except.ok.inj (hs.symm.trans (shape_of_evaluate hx))
    obtain rfl : t = y.shape := Except.ok.inj (ht.symm.trans (shape_of_evaluate hy))
    obtain ⟨hxNumeric, rfl⟩ := requireNumeric_eq_ok.mp hs'
    obtain ⟨hyNumeric, rfl⟩ := requireNumeric_eq_ok.mp ht'
    obtain ⟨v, hv, -⟩ := (op.shape_eq_ok_iff hxNumeric hyNumeric _).mp hShape
    exact ⟨v, bind_eq_ok.mpr ⟨x, hx, bind_eq_ok.mpr ⟨y, hy, hv⟩⟩⟩
  | call f e ih =>
    obtain ⟨s, hs, hShape⟩ := bind_eq_ok.mp hShape
    obtain ⟨s', hs', hShape⟩ := bind_eq_ok.mp hShape
    obtain ⟨x, hx⟩ := ih hs hLeaves
    obtain rfl : s = x.shape := Except.ok.inj (hs.symm.trans (shape_of_evaluate hx))
    obtain ⟨hNumeric, rfl⟩ := requireNumeric_eq_ok.mp hs'
    obtain ⟨v, hv, -⟩ := (f.shape_eq_ok_iff hNumeric _).mp hShape
    exact ⟨v, bind_eq_ok.mpr ⟨x, hx, hv⟩⟩
  | atan2 y x ihY ihX =>
    obtain ⟨s, hs, hShape⟩ := bind_eq_ok.mp hShape
    obtain ⟨s', hs', hShape⟩ := bind_eq_ok.mp hShape
    obtain ⟨t, ht, hShape⟩ := bind_eq_ok.mp hShape
    obtain ⟨t', ht', hShape⟩ := bind_eq_ok.mp hShape
    obtain ⟨_, hyScalar, hShape⟩ := bind_eq_ok.mp hShape
    obtain ⟨_, hxScalar, -⟩ := bind_eq_ok.mp hShape
    obtain ⟨p, hp⟩ := ihY hs fun name hName => hLeaves name (by simp [leaves, hName])
    obtain ⟨q, hq⟩ := ihX ht fun name hName => hLeaves name (by simp [leaves, hName])
    obtain rfl : s = p.shape := Except.ok.inj (hs.symm.trans (shape_of_evaluate hp))
    obtain rfl : t = q.shape := Except.ok.inj (ht.symm.trans (shape_of_evaluate hq))
    obtain ⟨hpNumeric, rfl⟩ := requireNumeric_eq_ok.mp hs'
    obtain ⟨hqNumeric, rfl⟩ := requireNumeric_eq_ok.mp ht'
    obtain ⟨a, ha⟩ := (scalar_eq_ok_iff hpNumeric).mpr hyScalar
    obtain ⟨c, hc⟩ := (scalar_eq_ok_iff hqNumeric).mpr hxScalar
    refine ⟨.real (a.atan2 c), bind_eq_ok.mpr ⟨p, hp, bind_eq_ok.mpr ⟨q, hq, ?_⟩⟩⟩
    exact bind_eq_ok.mpr ⟨a, ha, bind_eq_ok.mpr ⟨c, hc, rfl⟩⟩

/-- Shape and value of an expression agree, for every table of accessors and every state of the
objects. A value has the type and size that was found without computing it, and an expression with a
shape has a value unless one of its leaves cannot be read. -/
theorem shape_agrees (r : Registry) (b : Bindings) (e : Expr) :
    (∀ v, e.evaluate r b = .ok v →
      ∃ s, e.shape r b = .ok s ∧ s.dataType = v.dataType ∧ s.dims = v.dims) ∧
    ((∃ s, e.shape r b = .ok s) →
      (∀ name ∈ e.leaves, ∃ v, (element name).evaluate r b = .ok v) →
      ∃ v, e.evaluate r b = .ok v) := by
  constructor
  · intro v hv
    exact ⟨v.shape, shape_of_evaluate hv, rfl, v.dims_shape⟩
  · rintro ⟨s, hs⟩ hLeaves
    exact evaluate_of_shape hs hLeaves

/-- The product of a transposed 2x3 array and the array itself is found to be 3x3, and has a value of
that size. -/
theorem shape_agrees_gram :
    let r := (Registry.install {} (Catalog.userArray "A" 2 3)).2
    let b : Bindings := ⟨[("A", some (.whole "A" .array (some ⟨0⟩)))]⟩
    let e := binary .multiply (call .transpose (element "A")) (element "A")
    e.shape r b = .ok (.matrix 3 3) ∧
      ∃ v, e.evaluate r b = .ok v ∧ v.dataType = .matrix ∧ v.dims = (3, 3) := by
  intro r b e
  have hShape : e.shape r b = .ok (.matrix 3 3) := rfl
  have hLeaf : ∃ v, (element "A").evaluate r b = .ok v := ⟨_, rfl⟩
  obtain ⟨v, hv⟩ := (shape_agrees r b e).2 ⟨_, hShape⟩ (by simpa [e, leaves] using hLeaf)
  obtain ⟨s, hs, hType, hDims⟩ := (shape_agrees r b e).1 v hv
  cases hShape.symm.trans hs
  exact ⟨hShape, v, hv, hType.symm, hDims.symm⟩

end Expr

end Mission
