/-! How a computation that can fail comes to succeed: every step of it has succeeded. A computation
that also has a state keeps what it did before it failed, so it is described by what holds of the
state where it fails and of the state and the result where it succeeds. -/
namespace Mission.Outcome

variable {ε α β σ : Type}
variable {x : Except ε α} {f : ExceptT ε (StateM σ) α} {b : β} {e : ε} {a : α}
  {g : α → ExceptT ε (StateM σ) β}
  {s s' : σ}

/-- Two steps have succeeded if each of them has. -/
theorem bind_eq_ok {f : α → Except ε β} : (x >>= f) = .ok b ↔ ∃ a, x = .ok a ∧ f a = .ok b := by
  cases x with
  | error e =>
    constructor
    · intro h
      cases h
    · rintro ⟨a, ha, -⟩
      cases ha
  | ok a =>
    constructor
    · intro h
      exact ⟨a, rfl, h⟩
    · rintro ⟨a', ha, h⟩
      cases ha
      exact h

/-- Two steps have failed if one of them has, the second one behind the first. -/
theorem bind_eq_error {f : α → Except ε β} :
    (x >>= f) = .error e ↔ x = .error e ∨ ∃ a, x = .ok a ∧ f a = .error e := by
  cases x with
  | error e' =>
    constructor
    · intro h
      cases h
      exact .inl rfl
    · rintro (h | ⟨a, ha, -⟩)
      · cases h
        rfl
      · cases ha
  | ok a =>
    constructor
    · intro h
      exact .inr ⟨a, rfl, h⟩
    · rintro (h | ⟨a', ha, h⟩)
      · cases h
      · cases ha
        exact h

theorem toOption_eq_some : x.toOption = some a ↔ x = .ok a := by
  cases x <;> simp [Except.toOption]

theorem run_bind_of_ok (h : f s = (.ok a, s')) : (f >>= g) s = g a s' := by
  change (match f s with | (x, s') => ExceptT.bindCont g x s') = _
  rw [h]
  rfl

theorem run_bind_of_error (h : f s = (.error e, s')) : (f >>= g) s = (.error e, s') := by
  change (match f s with | (x, s') => ExceptT.bindCont g x s') = _
  rw [h]
  rfl

/-- With a state, the second step starts where the first one ended. -/
theorem run_bind_eq_ok : (f >>= g) s = (.ok b, s') ↔ ∃ a s₁, f s = (.ok a, s₁) ∧ g a s₁ = (.ok b, s') := by
  constructor
  · intro h
    cases hStep : f s with
    | mk x s₁ =>
      cases x with
      | ok a =>
        rw [run_bind_of_ok hStep] at h
        exact ⟨a, s₁, rfl, h⟩
      | error e =>
        rw [run_bind_of_error hStep] at h
        cases h
  · rintro ⟨a, s₁, hStep, h⟩
    rw [run_bind_of_ok hStep, h]

/-- Where the computation fails, its error is not one of these. -/
def Excludes (bad : ε → Bool) (x : Except ε α) : Prop :=
  ∀ e, x = .error e → bad e = false

namespace Excludes

variable {bad : ε → Bool}

theorem ok (a : α) : Excludes bad (.ok a : Except ε α) := by
  intro e he
  cases he

theorem error {e : ε} (h : bad e = false) : Excludes bad (.error e : Except ε α) := by
  rintro _ ⟨⟩
  exact h

theorem bind {x : Except ε α} {f : α → Except ε β} (hx : Excludes bad x)
    (hf : ∀ a, x = .ok a → Excludes bad (f a)) : Excludes bad (x >>= f) := by
  intro e he
  rcases bind_eq_error.mp he with he | ⟨a, ha, he⟩
  · exact hx e he
  · exact hf a ha e he

theorem ite {c : Prop} {_ : Decidable c} {x y : Except ε α} (hx : c → Excludes bad x)
    (hy : ¬ c → Excludes bad y) : Excludes bad (if c then x else y) := by
  split
  · exact hx ‹c›
  · exact hy ‹¬ c›

theorem mapM {f : α → Except ε β} {xs : List α} (h : ∀ x ∈ xs, Excludes bad (f x)) :
    Excludes bad (xs.mapM f) := by
  induction xs with
  | nil => exact .ok _
  | cons x xs ih =>
    rw [List.mapM_cons]
    refine .bind (h x List.mem_cons_self) fun _ _ => .bind (ih fun y hy => ?_) fun _ _ => .ok _
    exact h y (List.mem_cons_of_mem x hy)

end Excludes

/-- From the state `s` on, the error and the state satisfy `E` where the computation fails, and the
state and the result satisfy `Q` where it succeeds. -/
structure Ends (f : ExceptT ε (StateM σ) α) (s : σ) (E : ε → σ → Prop) (Q : σ → α → Prop) : Prop where
  failed : ∀ {e}, (f s).1 = .error e → E e (f s).2
  result : ∀ {a}, (f s).1 = .ok a → Q (f s).2 a

namespace Ends

variable {s : σ} {E E' : ε → σ → Prop} {P P' : σ → α → Prop} {Q : σ → β → Prop}
variable {f : ExceptT ε (StateM σ) α} {s' : σ} {e : ε} {g : α → ExceptT ε (StateM σ) β} {x : Except ε α}

theorem of_ok {a : α} (h : f s = (.ok a, s')) : Ends f s E P ↔ P s' a := by
  constructor
  · intro hEnds
    have hResult := @hEnds.result
    rw [h] at hResult
    exact hResult rfl
  · intro hP
    refine ⟨?_, ?_⟩
    · intro e he
      rw [h] at he
      cases he
    · rw [h]
      rintro _ ⟨⟩
      exact hP

theorem of_error (h : f s = (.error e, s')) : Ends f s E P ↔ E e s' := by
  constructor
  · intro hEnds
    have hFailed := @hEnds.failed
    rw [h] at hFailed
    exact hFailed rfl
  · intro hE
    refine ⟨?_, ?_⟩
    · rw [h]
      rintro _ ⟨⟩
      exact hE
    · intro a ha
      rw [h] at ha
      cases ha

theorem pure {a : α} (hP : P s a) : Ends (Pure.pure a : ExceptT ε (StateM σ) α) s E P :=
  (of_ok rfl).mpr hP

theorem throw_bind (hE : E e s) : Ends ((MonadExcept.throw e : ExceptT ε (StateM σ) α) >>= g) s E Q :=
  (of_error rfl).mpr hE

theorem get {g : σ → ExceptT ε (StateM σ) β} (h : Ends (g s) s E Q) :
    Ends (MonadState.get >>= g) s E Q :=
  ⟨h.failed, h.result⟩

theorem set_bind {g : PUnit → ExceptT ε (StateM σ) β} (h : Ends (g ⟨⟩) s' E Q) : Ends (set s' >>= g) s E Q :=
  ⟨h.failed, h.result⟩

theorem ite {c : Prop} {_ : Decidable c} {g : ExceptT ε (StateM σ) α} (hf : c → Ends f s E P)
    (hg : ¬ c → Ends g s E P) : Ends (if c then f else g) s E P := by
  split
  · exact hf ‹c›
  · exact hg ‹¬ c›

/-- The second step is described from wherever the first may end. -/
theorem bind (hf : Ends f s E P) (hg : ∀ a s', P s' a → Ends (g a) s' E Q) : Ends (f >>= g) s E Q := by
  cases hStep : f s with
  | mk x s' =>
    have hRun : (f >>= g) s = ExceptT.bindCont g x s' := by
      change (match f s with | (x, s') => ExceptT.bindCont g x s') = _
      rw [hStep]
    cases x with
    | ok a =>
      have hNext := hg a s' ((of_ok hStep).mp hf)
      refine ⟨?_, ?_⟩
      · rw [hRun]
        exact hNext.failed
      · rw [hRun]
        exact hNext.result
    | error e => exact (of_error hRun).mpr ((of_error hStep).mp hf)

theorem lift (hE : ∀ e, x = .error e → E e s) (hP : ∀ a, x = .ok a → P s a) :
    Ends (liftM x : ExceptT ε (StateM σ) α) s E P :=
  ⟨fun h => hE _ h, fun h => hP _ h⟩

theorem lift_bind (hE : ∀ e, x = .error e → E e s) (hg : ∀ a, x = .ok a → Ends (g a) s E Q) :
    Ends (liftM x >>= g) s E Q := by
  cases x with
  | ok a => exact ⟨(hg a rfl).failed, (hg a rfl).result⟩
  | error e => exact (of_error rfl).mpr (hE e rfl)

/-- A computation ends no worse than it has been shown to. -/
theorem mono (h : Ends f s E P) (hE : ∀ e s, E e s → E' e s) (hP : ∀ s a, P s a → P' s a) : Ends f s E' P' :=
  ⟨fun he => hE _ _ (h.failed he), fun ha => hP _ _ (h.result ha)⟩

end Ends

/-- As `Ends`, but where the computation fails only the state counts. -/
structure Meets (f : ExceptT ε (StateM σ) α) (s : σ) (E : σ → Prop) (Q : σ → α → Prop) : Prop where
  failed : ∀ {e}, (f s).1 = .error e → E (f s).2
  result : ∀ {a}, (f s).1 = .ok a → Q (f s).2 a

namespace Meets

variable {s : σ} {E E' : σ → Prop} {P P' : σ → α → Prop} {Q : σ → β → Prop}
variable {f : ExceptT ε (StateM σ) α} {g : α → ExceptT ε (StateM σ) β} {x : Except ε α}

/-- Where only the state matters, the error may be any. -/
theorem iff_ends : Meets f s E P ↔ Ends f s (fun _ => E) P :=
  ⟨fun h => ⟨h.failed, h.result⟩, fun h => ⟨h.failed, h.result⟩⟩

theorem of_ok {f : ExceptT ε (StateM σ) α} {s' : σ} {a : α} (h : f s = (.ok a, s')) :
    Meets f s E P ↔ P s' a :=
  iff_ends.trans (Ends.of_ok h)

theorem of_error {f : ExceptT ε (StateM σ) α} {s' : σ} {e : ε} (h : f s = (.error e, s')) :
    Meets f s E P ↔ E s' :=
  iff_ends.trans (Ends.of_error h)

theorem pure {a : α} (hP : P s a) : Meets (Pure.pure a : ExceptT ε (StateM σ) α) s E P :=
  (of_ok rfl).mpr hP

theorem throw (e : ε) (hE : E s) : Meets (throw e : ExceptT ε (StateM σ) α) s E P :=
  (of_error rfl).mpr hE

theorem throw_bind (e : ε) (hE : E s) : Meets ((MonadExcept.throw e : ExceptT ε (StateM σ) α) >>= g) s E Q :=
  (of_error rfl).mpr hE

theorem get {g : σ → ExceptT ε (StateM σ) β} (h : Meets (g s) s E Q) :
    Meets (MonadState.get >>= g) s E Q :=
  ⟨h.failed, h.result⟩

theorem set_bind {s' : σ} {g : PUnit → ExceptT ε (StateM σ) β} (h : Meets (g ⟨⟩) s' E Q) :
    Meets (set s' >>= g) s E Q :=
  ⟨h.failed, h.result⟩

theorem ite {c : Prop} {_ : Decidable c} {g : ExceptT ε (StateM σ) α} (hf : c → Meets f s E P)
    (hg : ¬ c → Meets g s E P) : Meets (if c then f else g) s E P := by
  split
  · exact hf ‹c›
  · exact hg ‹¬ c›

theorem bind {f : ExceptT ε (StateM σ) α} {g : α → ExceptT ε (StateM σ) β} (hf : Meets f s E P)
    (hg : ∀ a s', P s' a → Meets (g a) s' E Q) : Meets (f >>= g) s E Q :=
  iff_ends.mpr ((iff_ends.mp hf).bind fun a s' hP => iff_ends.mp (hg a s' hP))

theorem lift (hE : E s) (hP : ∀ a, x = .ok a → P s a) : Meets (liftM x : ExceptT ε (StateM σ) α) s E P :=
  ⟨fun _ => hE, fun h => hP _ h⟩

theorem lift_bind (hE : E s) (hg : ∀ a, x = .ok a → Meets (g a) s E Q) : Meets (liftM x >>= g) s E Q := by
  cases x with
  | ok a => exact ⟨(hg a rfl).failed, (hg a rfl).result⟩
  | error e => exact (of_error rfl).mpr hE

theorem mono (h : Meets f s E P) (hE : ∀ s, E s → E' s) (hP : ∀ s a, P s a → P' s a) : Meets f s E' P' :=
  ⟨fun he => hE _ (h.failed he), fun ha => hP _ _ (h.result ha)⟩

end Meets

end Mission.Outcome
