import Mission.Command.Assignment
import Mission.Proofs.Outcome
import Mission.Proofs.Registry.Evolution
import Mission.Proofs.Table

/-! What writing does to the registry. A value is written into an object that is there and keeps its
shape, whatever accessor it is written through. A whole object is written over another only through
an accessor of an object as a whole. -/
namespace Mission

open Registry Outcome Object

variable {α : Type}

namespace Object

variable {o o' : Object}

theorem getAt?_of_property {i : Nat} {p : Property} (h : o.property i = .ok p) :
    o.properties.getAt? i = some p := by
  unfold property at h
  split at h
  · next hAt =>
      cases h
      exact hAt
  · cases h

theorem getAt_of_setAt {i : Nat} {v : Value} (h : o.setAt i v = .ok o') :
    ∃ p stored, o.property i = .ok p ∧ p.convert o.name v = .ok stored ∧ o'.getAt i = .ok stored := by
  obtain ⟨p, hProperty, h⟩ := bind_eq_ok.mp h
  split at h
  · cases h
  · obtain ⟨stored, hConvert, h⟩ := bind_eq_ok.mp h
    cases h
    refine ⟨p, stored, hProperty, hConvert, ?_⟩
    dsimp only [getAt, property]
    rw [Table.getAt?_modifyAt, getAt?_of_property hProperty]
    rfl

/-- The system Parameter that the object is. -/
def parameter? (o : Object) : Option SystemParameter :=
  match o.content with
  | .parameter p => some p
  | _ => none

/-- What an object becomes when a value is written into it. A property gets the value converted to
its type, or what the object holds gives way to something of its form. -/
inductive Takes (o : Object) : Object → Prop
  | property {i : Nat} {p : Property} {v stored : Value} (there : o.properties.getAt? i = some p)
      (converted : p.convert o.name v = .ok stored) :
      Takes o { o with properties := o.properties.modifyAt i fun p => { p with value := stored } }
  | real {x : Float} (y : Float) (held : o.content = .variable x) : Takes o { o with content := .variable y }
  | text {s : String} (t : String) (held : o.content = .text s) : Takes o { o with content := .text t }
  | array {m m' : Matrix} (held : o.content = .array (some m)) (dims : m'.dims = m.dims) :
      Takes o { o with content := .array (some m') }

theorem takes_setAt {i : Nat} {v : Value} (h : o.setAt i v = .ok o') : o.Takes o' := by
  obtain ⟨p, hProperty, h⟩ := bind_eq_ok.mp h
  split at h
  · cases h
  · obtain ⟨stored, hConvert, h⟩ := bind_eq_ok.mp h
    cases h
    exact .property (getAt?_of_property hProperty) hConvert

theorem takes_set {property : String} {v : Value} (h : o.set property v = .ok o') : o.Takes o' := by
  obtain ⟨i, -, h⟩ := bind_eq_ok.mp h
  exact takes_setAt h

theorem takes_store {v : Value} (h : o.store v = .ok o') : o.Takes o' := by
  unfold store at h
  split at h
  · next hContent =>
      split at h
      · cases h
        exact .real _ hContent
      · cases h
  · next hContent =>
      split at h
      · cases h
      · cases h
      · split at h
        · next hDims =>
            cases h
            exact .array hContent hDims.symm
        · cases h
  · next hContent =>
      split at h
      · cases h
        exact .text _ hContent
      · cases h
  · cases h
  · cases h

theorem dims_set (m : Matrix) (row col : Nat) (x : Float) : (m.set row col x).dims = m.dims := by
  unfold Matrix.set
  split <;> rfl

theorem takes_setElement {row col : Nat} {x : Float} (h : o.setElement row col x = .ok o') : o.Takes o' := by
  obtain ⟨m, hValues, h⟩ := bind_eq_ok.mp h
  have hContent : o.content = .array (some m) := by
    unfold arrayValues at hValues
    split at hValues
    · next hContent =>
        cases hValues
        exact hContent
    · cases hValues
    · cases hValues
  split at h
  · cases h
    exact .array hContent (dims_set m row col x)
  · cases h

theorem Takes.sameShape (h : o.Takes o') : o.SameShape o' := by
  cases h with
  | property => exact ⟨rfl, Table.keys_modifyAt ..⟩
  | _ => exact ⟨rfl, rfl⟩

end Object

namespace Registry

variable {r r' : Registry} {id : ObjectId}

/-- A value that is written is converted to the type of the property and is then there. -/
theorem getAt_of_setProperty {i : Nat} {v : Value} (h : r.setProperty id i v = .ok r') :
    ∃ p stored, (r.object id).property i = .ok p ∧ p.convert (r.object id).name v = .ok stored ∧
      (r'.object id).getAt i = .ok stored := by
  obtain ⟨o, hSet, h⟩ := bind_eq_ok.mp h
  cases h
  obtain ⟨p, stored, hProperty, hConvert, hStored⟩ := getAt_of_setAt hSet
  have hId : r.Has id := by
    refine Classical.byContradiction fun hId => ?_
    rw [object, entry_of_not_has hId] at hProperty
    cases hProperty
  refine ⟨p, stored, hProperty, hConvert, ?_⟩
  rw [object, setObject, entry_modify_self hId]
  exact hStored

end Registry

theorem liftObject_eq_ok {x : Except ObjectError α} {a : α} : liftObject x = .ok a ↔ x = .ok a := by
  cases x <;> simp [liftObject]

theorem CommandError.liftAccess_eq_ok {x : Except AccessError α} {a : α} :
    liftAccess x = .ok a ↔ x = .ok a := by
  cases x <;> simp [liftAccess]

theorem CommandError.liftMath_eq_ok {x : Except MathError α} {a : α} : liftMath x = .ok a ↔ x = .ok a := by
  cases x <;> simp [liftMath]

theorem CommandError.liftObject_eq_ok {x : Except ObjectError α} {a : α} :
    liftObject x = .ok a ↔ x = .ok a := by
  cases x <;> simp [liftObject]

theorem MathError.liftObject_eq_ok {x : Except ObjectError α} {a : α} : liftObject x = .ok a ↔ x = .ok a := by
  cases x <;> simp [liftObject]

namespace Accessor

variable {r r' : Registry} {a : Accessor}
variable {d : String} {id source : ObjectId} {v : Value} {system : Option ObjectId}

/-- The objects that writing through the accessor changes: the object behind it, or the owner of the
system Parameter behind it. -/
def written (r : Registry) : Accessor → List ObjectId
  | property _ p => p.target.toList.map Prod.fst
  | whole _ _ target =>
    target.toList.flatMap fun id =>
      match (r.object id).parameter? with
      | some p => p.owner.toList
      | none => [id]
  | element _ _ array _ _ => array.toList
  | number _ _ | string _ _ | boolean _ _ | onOff _ _ => []

theorem written_whole {k : WholeKind} (h : (r.object id).parameter? = none) :
    (whole d k (some id)).written r = [id] := by
  simp [written, h]

theorem boundTo_eq_ok {α : Type} {target : Option α} {x : α} (h : boundTo d target = .ok x) :
    target = some x := by
  cases target with
  | none => cases h
  | some y =>
    cases h
    rfl

/-- A value is written into an object itself, or into the owner of a Parameter. -/
theorem takes_of_assign (h : r.assign id v = .ok r') :
    ∃ other o, (r.object other).Takes o ∧ r' = r.setObject other o ∧
      ∀ d k, other ∈ (whole d k (some id)).written r := by
  dsimp only [Registry.assign] at h
  split at h
  · next p hContent =>
      have hParameter : (r.object id).parameter? = some p := by rw [parameter?, hContent]
      split at h
      · cases h
      · obtain ⟨owner, hOwner, h⟩ := bind_eq_ok.mp h
        obtain ⟨o, hSet, h⟩ := bind_eq_ok.mp h
        cases h
        have hBound : p.owner = some owner := by
          unfold ownerOf at hOwner
          split at hOwner
          · next hBound =>
              cases hOwner
              exact hBound
          · cases hOwner
        exact ⟨owner, o, takes_set hSet, rfl, fun d k => by simp [written, hParameter, hBound]⟩
  · next hContent =>
      have hNone : (r.object id).parameter? = none := by
        unfold parameter?
        split
        · next p hParameter => exact absurd hParameter (hContent p)
        · rfl
      obtain ⟨o, hStore, h⟩ := bind_eq_ok.mp h
      cases h
      refine ⟨id, o, takes_store hStore, rfl, fun d k => ?_⟩
      rw [written_whole hNone]
      exact List.mem_singleton.mpr rfl

/-- Whatever the accessor, one object takes the value. -/
theorem takes_of_setValue (h : a.setValue r v = .ok r') :
    ∃ id o, (r.object id).Takes o ∧ r' = r.setObject id o ∧ id ∈ a.written r := by
  unfold setValue at h
  split at h
  · obtain ⟨⟨id, i⟩, hBound, h⟩ := bind_eq_ok.mp h
    obtain ⟨o, hSet, h⟩ := bind_eq_ok.mp (liftObject_eq_ok.mp h)
    cases h
    exact ⟨id, o, takes_setAt hSet, rfl, by simp [written, boundTo_eq_ok hBound]⟩
  · obtain ⟨id, hBound, h⟩ := bind_eq_ok.mp h
    cases boundTo_eq_ok hBound
    split at h
    · cases h
    · obtain ⟨other, o, hTakes, hDone, hWritten⟩ := takes_of_assign (liftObject_eq_ok.mp h)
      exact ⟨other, o, hTakes, hDone, hWritten _ _⟩
  · obtain ⟨id, hBound, h⟩ := bind_eq_ok.mp h
    obtain ⟨i, -, h⟩ := bind_eq_ok.mp h
    obtain ⟨j, -, h⟩ := bind_eq_ok.mp h
    obtain ⟨x, -, h⟩ := bind_eq_ok.mp h
    obtain ⟨o, hSet, h⟩ := bind_eq_ok.mp (liftObject_eq_ok.mp h)
    cases h
    exact ⟨id, o, takes_setElement hSet, rfl, by simp [written, boundTo_eq_ok hBound]⟩
  · cases h

theorem evolves_setValue (system : Option ObjectId) (h : a.setValue r v = .ok r') : Evolves system r r' := by
  obtain ⟨id, o, hTakes, rfl, -⟩ := takes_of_setValue h
  exact evolves_setObject system hTakes.sameShape

/-- The value that a real is written as. -/
def ofReal (a : Accessor) (x : Float) : Value :=
  if a.kind = .array then .matrix (.scalar x) else .real x

/-- The value that an integer is written as. -/
def ofInteger (a : Accessor) (n : Int64) : Value :=
  if a.kind = .objectProperty then .integer n else a.ofReal (Real.ofInteger n)

/-- The value is written in one of the ways there are, and this is the outcome. -/
inductive Puts (r : Registry) (a : Accessor) : Value → Except AccessError Registry → Prop
  | value (v : Value) : Puts r a v (a.setValue r v)
  | real (x : Float) : Puts r a (a.ofReal x) (a.setReal r x)
  | integer (n : Int64) : Puts r a (a.ofInteger n) (a.setInteger r n)
  | string (text : String) : Puts r a (.string text) (a.setString r text)
  | boolean (flag : Bool) : Puts r a (.boolean flag) (a.setBoolean r flag)
  | onOff (flag : Bool) : Puts r a (.onOff flag) (a.setOnOff r flag)
  | matrix (m : Matrix) : Puts r a (.matrix m) (a.setMatrix r m)

theorem setValue_of_setReal {x : Float} (h : a.setReal r x = .ok r') :
    a.setValue r (a.ofReal x) = .ok r' := by
  obtain ⟨-, -, h⟩ := bind_eq_ok.mp h
  split at h
  · cases h
  · next hKind => rwa [ofReal, if_pos hKind]
  · next hOther => rwa [ofReal, if_neg hOther]

/-- Every way of writing comes to writing the value. -/
theorem Puts.setValue {x : Except AccessError Registry} (h : a.Puts r v x) (hOk : x = .ok r') :
    a.setValue r v = .ok r' := by
  cases h with
  | value => exact hOk
  | real x => exact setValue_of_setReal hOk
  | integer n =>
    obtain ⟨-, -, hOk⟩ := bind_eq_ok.mp hOk
    split at hOk
    · cases hOk
    · next hKind => rwa [ofInteger, if_pos hKind]
    · next hOther =>
        rw [ofInteger, if_neg hOther]
        exact setValue_of_setReal hOk
  | string text | boolean flag | onOff flag =>
    obtain ⟨-, -, hOk⟩ := bind_eq_ok.mp hOk
    split at hOk
    · cases hOk
    · exact hOk
  | matrix m =>
    obtain ⟨-, -, hOk⟩ := bind_eq_ok.mp hOk
    exact hOk

/-- An object that the accessor stands for can be written as a whole. -/
structure Writable (a : Accessor) (system : Option ObjectId) (r : Registry) : Prop where
  whole : ∀ {d k id}, a = .whole d k (some id) → Whole system r id

theorem Writable.later (hWritable : a.Writable system r) (h : Evolves system r r') : a.Writable system r' :=
  ⟨fun ha => (hWritable.whole ha).later h⟩

/-- An object is copied into itself, or into one of its type. -/
theorem setObject_eq_ok (h : a.setObject r source = .ok r') :
    ∃ d id, a = .whole d .object (some id) ∧
      (r' = r ∨ (r.object source).typeName = (r.object id).typeName ∧ r' =
      r.overwrite id (r.assembly source)) := by
  unfold setObject at h
  split at h
  · next d target =>
      obtain ⟨id, hBound, hRest⟩ := bind_eq_ok.mp h
      cases target with
      | none => cases hBound
      | some target =>
        cases hBound
        refine ⟨d, id, rfl, ?_⟩
        dsimp only at hRest
        split at hRest
        · cases hRest
          exact .inl rfl
        · split at hRest
          · cases hRest
          · next hType =>
              cases hRest
              exact .inr ⟨Decidable.not_not.mp hType, rfl⟩
  · cases h

theorem evolves_setObject (hWritable : a.Writable system r) (h : a.setObject r source = .ok r') :
    Evolves system r r' := by
  obtain ⟨d, id, rfl, rfl | ⟨-, rfl⟩⟩ := setObject_eq_ok h
  · exact .refl _ _
  · exact evolves_overwrite (hWritable.whole rfl) _

end Accessor

namespace Assignment

variable {system : Option ObjectId} {r r' : Registry}
variable {source : Accessor} {c : Assignment}

/-- A whole object is copied, or a value is written. -/
theorem transfer_eq_ok {target : Accessor} (h : transfer r target source = .ok r') :
    (∃ id, source.evaluateObject = .ok id ∧ target.setObject r id = .ok r') ∨
      target.kind ≠ .object ∧ ∃ v, target.setValue r v = .ok r' := by
  unfold transfer at h
  split at h
  · exact .inl (bind_eq_ok.mp h)
  · next hKind =>
      refine .inr ⟨hKind, ?_⟩
      split at h
      · obtain ⟨x, -, h⟩ := bind_eq_ok.mp h
        exact ⟨_, Accessor.setValue_of_setReal h⟩
      · obtain ⟨v, -, h⟩ := bind_eq_ok.mp h
        exact ⟨v, h⟩

/-- The output is the accessor of a name, or it holds the value of an expression. -/
theorem output_cases (h : c.output r = .ok (source, r')) :
    (c.source = some source ∧ r' = r) ∨
      ∃ e v, Expr.evaluate r c.equation.bindings e = .ok v ∧ Equation.hold r v = .ok (source, r') := by
  unfold output at h
  split at h
  · obtain ⟨f, -, h⟩ := bind_eq_ok.mp (CommandError.liftMath_eq_ok.mp h)
    obtain ⟨s, -, h⟩ := bind_eq_ok.mp h
    refine .inr ⟨f.expr, ?_⟩
    split at h
    · split at h
      · cases h
      · exact bind_eq_ok.mp h
    · exact bind_eq_ok.mp h
  · split at h
    · next hSource =>
        cases h
        exact .inl ⟨hSource, rfl⟩
    · cases h

/-- A right-hand side leaves the objects as they are, or adds a copy of an object or an array for
its value. -/
theorem output_eq_ok (h : c.output r = .ok (source, r')) :
    r' = r ∨ (∃ id, r' = (r.install (r.assembly id)).2) ∨
      ∃ name rows cols v, (r.install (Catalog.userArray name rows cols)).2.assign
        (r.install (Catalog.userArray name rows cols)).1 v = .ok r' := by
  rcases output_cases h with ⟨-, rfl⟩ | ⟨_, result, -, hHold⟩
  · exact .inl rfl
  · cases result with
    | real x | string text =>
      cases hHold
      exact .inl rfl
    | matrix m =>
      obtain ⟨r₁, hAssign, hDone⟩ := bind_eq_ok.mp hHold
      cases hDone
      exact .inr (.inr ⟨_, _, _, _, MathError.liftObject_eq_ok.mp hAssign⟩)
    | object id =>
      cases hHold
      exact .inr (.inl ⟨id, rfl⟩)

theorem execute_eq_ok (h : c.execute r = .ok r') :
    ∃ source r₁ target, c.output r = .ok (source, r₁) ∧ c.target = some target ∧
      transfer r₁ target source = .ok r' := by
  obtain ⟨⟨source, r₁⟩, hOutput, h⟩ := bind_eq_ok.mp h
  cases hTarget : c.target with
  | none =>
    rw [hTarget] at h
    cases h
  | some target =>
    rw [hTarget] at h
    exact ⟨source, r₁, target, hOutput, rfl, CommandError.liftAccess_eq_ok.mp h⟩

theorem evolves_output (system : Option ObjectId) (h : c.output r = .ok (source, r')) :
    Evolves system r r' := by
  rcases output_eq_ok h with rfl | ⟨id, rfl⟩ | ⟨name, rows, cols, v, hAssign⟩
  · exact .refl _ _
  · exact evolves_install system r _
  · obtain ⟨other, o, hTakes, rfl, -⟩ := Accessor.takes_of_assign hAssign
    exact (evolves_install system r _).trans (evolves_setObject system hTakes.sameShape)

/-- An assignment to a property writes a value through the accessor of the property. -/
theorem setValue_of_execute {d : String} {p : PropertyRef} (hTarget : c.target = some (.property d p))
    (h : c.execute r = .ok r') : ∃ before v, (Accessor.property d p).setValue before v = .ok r' := by
  obtain ⟨⟨source, before⟩, -, h⟩ := bind_eq_ok.mp h
  rw [hTarget] at h
  have hTransfer := CommandError.liftAccess_eq_ok.mp h
  unfold transfer at hTransfer
  rw [if_neg (show ¬ (Accessor.property d p).kind = .object from nofun)] at hTransfer
  split at hTransfer
  · obtain ⟨x, -, hTransfer⟩ := bind_eq_ok.mp hTransfer
    obtain ⟨_, -, hSet⟩ := bind_eq_ok.mp hTransfer
    exact ⟨before, .real x, hSet⟩
  · obtain ⟨v, -, hSet⟩ := bind_eq_ok.mp hTransfer
    exact ⟨before, v, hSet⟩

end Assignment

end Mission
