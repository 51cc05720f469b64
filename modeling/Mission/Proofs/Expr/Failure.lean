import Mission.Expr.Evaluate
import Mission.Proofs.Outcome

/-! Why an expression has no shape or no value. Either one of its leaves has none, or operands do
not fit; no other reason arises between the leaves and the top. -/
namespace Mission

open Outcome Shape List

namespace MathError

/-- Whether the error is that operands do not fit an operation. -/
def isOperand : MathError → Bool
  | invalidOperand _ _ | dimension _ => true
  | _ => false

end MathError

namespace Shape

theorem requireNumeric_eq_error {operation : String} {s : Shape} {e : MathError}
    (h : s.requireNumeric operation = .error e) : e.isOperand = true := by
  cases s <;> cases h <;> rfl

theorem requireScalar_eq_error {operation : String} {s : Shape} {e : MathError}
    (h : s.requireScalar operation = .error e) : e.isOperand = true := by
  cases s with
  | matrix rows cols =>
    rw [requireScalar] at h
    split at h
    · cases h
    · cases h
      rfl
  | _ => cases h

end Shape

theorem Result.scalar_eq_error {operation : String} {v : Result} {e : MathError}
    (h : v.scalar operation = .error e) : e.isOperand = true := by
  cases v with
  | real x => cases h
  | matrix m =>
    rw [scalar] at h
    split at h
    · cases h
    · cases h
      rfl
  | string text =>
    cases h
    rfl
  | object id =>
    cases h
    rfl

namespace BinaryOp

theorem shape_eq_error {op : BinaryOp} {s t : Shape} {e : MathError} (h : op.shape s t = .error e) :
    e.isOperand = true := by
  cases s <;> cases t <;> cases op <;> simp only [shape] at h <;> (try split at h) <;> cases h <;> rfl

theorem evaluate_eq_error {op : BinaryOp} {x y : Result} {e : MathError}
    (h : op.evaluate x y = .error e) : e.isOperand = true := by
  have hDimension : ∀ {m : Except DimensionError Matrix},
      (MathError.liftDimension m >>= fun m => pure (Result.matrix m)) = .error e → e.isOperand = true := by
    intro m hm
    cases m with
    | ok m => cases hm
    | error d =>
      cases hm
      rfl
  cases x <;> cases y <;> cases op <;> first | exact hDimension h | cases h <;> rfl

end BinaryOp

namespace UnaryFunction

theorem shape_eq_error {f : UnaryFunction} {s : Shape} {e : MathError} (h : f.shape s = .error e) :
    e.isOperand = true := by
  have hScalar : ∀ {operation : String},
      (s.requireScalar operation >>= fun _ => pure real) = .error e → e.isOperand = true := by
    intro operation hs
    rcases bind_eq_error.mp hs with hs | ⟨_, _, hs⟩
    · exact requireScalar_eq_error hs
    · cases hs
  cases f with
  | transpose => cases s <;> cases h
  | norm => cases h
  | _ => exact hScalar h

theorem evaluate_eq_error {f : UnaryFunction} {v : Result} {e : MathError}
    (h : f.evaluate v = .error e) : e.isOperand = true := by
  have hScalar : ∀ {operation : String} {g : Float → Float},
      (v.scalar operation >>= fun x => pure (Result.real (g x))) = .error e → e.isOperand = true := by
    intro operation g hv
    rcases bind_eq_error.mp hv with hv | ⟨_, _, hv⟩
    · exact Result.scalar_eq_error hv
    · cases hv
  cases f with
  | transpose | norm => cases v <;> cases h <;> rfl
  | _ => exact hScalar h

end UnaryFunction

namespace Expr

variable {r : Registry} {b : Bindings} {e : Expr} {error : MathError}

/-- An expression without a shape has a leaf without one, or operands that do not fit. -/
theorem shape_eq_error (h : e.shape r b = .error error) :
    error.isOperand = true ∨ ∃ name ∈ e.leaves, leafShape r b name = .error error := by
  induction e with
  | number x => cases h
  | string text => cases h
  | element name => exact .inr ⟨name, mem_singleton.mpr rfl, h⟩
  | negate e ih =>
    rcases bind_eq_error.mp h with h | ⟨s, -, h⟩
    · exact ih h
    · exact .inl (requireNumeric_eq_error h)
  | binary op left right ihLeft ihRight =>
    rcases bind_eq_error.mp h with h | ⟨s, -, h⟩
    · exact (ihLeft h).imp_right fun ⟨name, hName, h⟩ => ⟨name, mem_append_left _ hName, h⟩
    rcases bind_eq_error.mp h with h | ⟨s', -, h⟩
    · exact .inl (requireNumeric_eq_error h)
    rcases bind_eq_error.mp h with h | ⟨t, -, h⟩
    · exact (ihRight h).imp_right fun ⟨name, hName, h⟩ => ⟨name, mem_append_right _ hName, h⟩
    rcases bind_eq_error.mp h with h | ⟨t', -, h⟩
    · exact .inl (requireNumeric_eq_error h)
    · exact .inl (BinaryOp.shape_eq_error h)
  | call f e ih =>
    rcases bind_eq_error.mp h with h | ⟨s, -, h⟩
    · exact ih h
    rcases bind_eq_error.mp h with h | ⟨s', -, h⟩
    · exact .inl (requireNumeric_eq_error h)
    · exact .inl (UnaryFunction.shape_eq_error h)
  | atan2 y x ihY ihX =>
    rcases bind_eq_error.mp h with h | ⟨s, -, h⟩
    · exact (ihY h).imp_right fun ⟨name, hName, h⟩ => ⟨name, mem_append_left _ hName, h⟩
    rcases bind_eq_error.mp h with h | ⟨s', -, h⟩
    · exact .inl (requireNumeric_eq_error h)
    rcases bind_eq_error.mp h with h | ⟨t, -, h⟩
    · exact (ihX h).imp_right fun ⟨name, hName, h⟩ => ⟨name, mem_append_right _ hName, h⟩
    rcases bind_eq_error.mp h with h | ⟨t', -, h⟩
    · exact .inl (requireNumeric_eq_error h)
    rcases bind_eq_error.mp h with h | ⟨_, -, h⟩
    · exact .inl (requireScalar_eq_error h)
    rcases bind_eq_error.mp h with h | ⟨_, -, h⟩
    · exact .inl (requireScalar_eq_error h)
    · cases h

/-- An expression without a value has a leaf without one, or operands that do not fit. -/
theorem evaluate_eq_error (h : e.evaluate r b = .error error) :
    error.isOperand = true ∨ ∃ name ∈ e.leaves, leafValue r b name = .error error := by
  induction e with
  | number x => cases h
  | string text => cases h
  | element name => exact .inr ⟨name, mem_singleton.mpr rfl, h⟩
  | negate e ih =>
    rcases bind_eq_error.mp h with h | ⟨v, -, h⟩
    · exact ih h
    · cases v with
      | real x => cases h
      | matrix m => cases h
      | string text | object id =>
        cases h
        exact .inl rfl
  | binary op left right ihLeft ihRight =>
    rcases bind_eq_error.mp h with h | ⟨x, -, h⟩
    · exact (ihLeft h).imp_right fun ⟨name, hName, h⟩ => ⟨name, mem_append_left _ hName, h⟩
    rcases bind_eq_error.mp h with h | ⟨y, -, h⟩
    · exact (ihRight h).imp_right fun ⟨name, hName, h⟩ => ⟨name, mem_append_right _ hName, h⟩
    · exact .inl (BinaryOp.evaluate_eq_error h)
  | call f e ih =>
    rcases bind_eq_error.mp h with h | ⟨v, -, h⟩
    · exact ih h
    · exact .inl (UnaryFunction.evaluate_eq_error h)
  | atan2 y x ihY ihX =>
    rcases bind_eq_error.mp h with h | ⟨p, -, h⟩
    · exact (ihY h).imp_right fun ⟨name, hName, h⟩ => ⟨name, mem_append_left _ hName, h⟩
    rcases bind_eq_error.mp h with h | ⟨q, -, h⟩
    · exact (ihX h).imp_right fun ⟨name, hName, h⟩ => ⟨name, mem_append_right _ hName, h⟩
    rcases bind_eq_error.mp h with h | ⟨_, -, h⟩
    · exact .inl (Result.scalar_eq_error h)
    rcases bind_eq_error.mp h with h | ⟨_, -, h⟩
    · exact .inl (Result.scalar_eq_error h)
    · cases h

end Expr

end Mission
