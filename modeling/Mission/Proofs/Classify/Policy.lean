import Mission.Proofs.Classify.Locality
import Mission.Proofs.Classify.Stability
import Mission.Proofs.Parameter.Order
import Mission.Proofs.Session.Binding

/-! Parameters first or properties first. The option decides what a dotted name means and nothing
else: whatever the scope, a text without indices is classified with either policy or with neither.
The two accessors differ only where an ordinary owner has a property of the name of a Parameter
type, and then one stands for the Parameter and the other for the property. Among the objects of the
catalogue both read and write the same value. -/
namespace Mission

open Registry Outcome DottedName List Text Option Table Object

/-! ### Texts without an index -/

theorem Text.not_mem_strip {c : Char} {cs : List Char} (h : c ∉ cs) : c ∉ strip cs :=
  fun hMem => h ((dropWhile_suffix _).subset ((stripEnd_isPrefix _).subset hMem))

theorem Literal.unparenthesise_of_not_mem {text : String} (h : '(' ∉ text.toList) :
    unparenthesise text = trim text := by
  have hStrip := not_mem_strip h
  have hPlain : ¬ isParenthesised (strip text.toList) = true := by
    intro hParentheses
    rw [isParenthesised, Bool.and_eq_true, decide_eq_true_eq] at hParentheses
    exact hStrip (mem_of_head? hParentheses.1)
  rw [unparenthesise, unparenthesiseChars, trim, dif_neg hPlain]

theorem ArrayIndex.parse_of_not_mem {text : String} (h : '(' ∉ text.toList) : parse text = .ok none := by
  have hStrip := not_mem_strip h
  have hNone : (strip text.toList).dropWhile (· ≠ '(') = [] := by
    refine dropWhile_eq_nil_iff.mpr fun c hc => decide_eq_true ?_
    rintro rfl
    exact hStrip hc
  unfold parse
  dsimp only
  rw [hNone]

theorem Phrase.parse_eq_of_not_mem {text : String} (h : '(' ∉ text.toList) :
    parse text = ((literal? (trim text)).map .literal).getD (.identifier (trim text)) := by
  have hTrim : '(' ∉ (trim text).toList := by
    rw [trim, String.toList_ofList]
    exact not_mem_strip h
  rw [parse, Literal.unparenthesise_of_not_mem h, ofBare]
  cases literal? (trim text) with
  | some a => rfl
  | none =>
    have hIndex := ArrayIndex.parse_of_not_mem hTrim
    dsimp only
    split
    · next e hParse =>
        rw [hIndex] at hParse
        cases hParse
    · next index hParse =>
        rw [hIndex] at hParse
        cases hParse
    · rfl

/-- A text without parentheses is a literal or a name. -/
theorem Phrase.parse_of_not_mem {text : String} (h : '(' ∉ text.toList) :
    (∃ a, parse text = .literal a) ∨ parse text = .identifier (trim text) := by
  rw [parse_eq_of_not_mem h]
  cases literal? (trim text) with
  | some a => exact .inl ⟨a, rfl⟩
  | none => exact .inr rfl

/-- The object is a system Parameter of one of the types, under the dotted name it was made for. -/
structure Parameter.Made (kinds : ParameterKinds) (r : Registry) (name : String) (id : ObjectId) : Prop where
  dotted : '.' ∈ name.toList
  unindexed : '(' ∉ name.toList ∧ '[' ∉ name.toList
  named : (r.object id).name = name
  type : (r.object id).objectType = .parameter
  parameter : ∃ p, (r.object id).parameter? = some p ∧
    Table.get? kinds (DottedName.parse name).field = some p.kind

/-- The objects of the store have identifiers as their names, apart from system Parameters. No body
of the solar system poses as a Parameter under a dotted name. -/
structure Store.Named (kinds : ParameterKinds) (s : Store) (r : Registry) : Prop where
  objects : ∀ {name id}, (name, id) ∈ s.objects.entries →
    Name.isValid name = true ∨ Parameter.Made kinds r name id
  bodies : ∀ {system id}, s.solarSystem = some system → id ∈ r.owned system →
    Name.isValid (r.object id).name = true ∨ (r.object id).objectType ≠ .parameter

/-- The objects in scope have identifiers as their names, apart from system Parameters. -/
structure Workspace.Named (kinds : ParameterKinds) (w : Workspace) : Prop where
  store : w.scope.store.Named kinds w.registry
  outer : ∀ {outer}, w.scope.outer = some outer → outer.Named kinds w.registry

section

variable {kinds : ParameterKinds} {r : Registry} {w w' : Workspace} {d : String} {id : ObjectId}

namespace Parameter

end Parameter

end

/-! ### The two policies -/

namespace Classify

/-- On an object of such a type a dotted name is always a property. -/
def plainOwners : List ObjectType :=
  [.solarSystem, .forceModel, .propSetup, .coordinateSystem]

/-- What a dotted name gives with Parameters first and with properties first: the same, or nothing,
or a Parameter and a property of an ordinary owner. -/
inductive Policies (kinds : ParameterKinds) (d : String) (w : Workspace) :
    Except ClassifyError Accessor × Workspace → Except ClassifyError Accessor × Workspace → Prop
  | same (x : Except ClassifyError Accessor × Workspace) : Policies kinds d w x x
  | failed (e e' : ClassifyError) : Policies kinds d w (.error e, w) (.error e', w)
  | apart {owner id : ObjectId} {target : ObjectId × Nat} {w₁ : Workspace} (dots : DottedName.dots d = 1)
      (found : w.find? (DottedName.parse d).owner = some owner)
      (ordinary : (w.registry.object owner).objectType ∉ plainOwners)
      (property : w.registry.findProperty owner "" (DottedName.parse d).field = some target)
      (given : Parameter.createFrom kinds d w = (.ok id, w₁)) :
      Policies kinds d w (.ok (.ofObject w₁.registry d id), w₁)
        (.ok (.property d ⟨(DottedName.parse d).owner, "", (DottedName.parse d).field, some target⟩), w)

variable {kinds : ParameterKinds} {w : Workspace} {d : String} {owner : ObjectId}

end Classify

/-! ### The same value -/

namespace Catalog

variable {given : String → Prop} {m : Assembly}

/-- The Parameter types that compute something else than the property of their own name. -/
def computedTypes : List String :=
  (ParameterKind.builtin.filter fun k => k.writes.isNone).map ParameterKind.typeName

/-- No property of the object has the name of a Parameter type that computes something else. -/
def Uncomputed (o : Object) : Prop :=
  ∀ key ∈ o.properties.keys, key ∉ computedTypes

theorem Uncomputed.keep {o o' : Object} (h : Uncomputed o) (hKeys : o'.properties.keys = o.properties.keys) :
    Uncomputed o' := by
  unfold Uncomputed
  rw [hKeys]
  exact h

end Catalog

namespace Parameter

/-- The Parameter of the dotted name is bound to the owner, and the owner has the properties that it
had. -/
structure Bound (kinds : ParameterKinds) (d : String) (before r : Registry) (id owner : ObjectId) : Prop where
  parameter : ∃ p, (r.object id).parameter? = some p ∧
    Table.get? kinds (DottedName.parse d).field = some p.kind ∧ p.owner = some owner
  keys : (r.object owner).properties.keys = (before.object owner).properties.keys

variable {d : String} {before r r' : Registry} {id owner : ObjectId} {i : Nat}

/-- The property is where it was. -/
theorem Bound.index? {kinds : ParameterKinds} (h : Bound kinds d before r id owner)
    (hIndex : (before.object owner).properties.index? (parse d).field = some i) :
    (r.object owner).properties.index? (parse d).field = some i := by
  rw [index?_eq, h.keys, ← index?_eq, hIndex]

/-- Writing the property of the owner leaves the Parameter bound. -/
theorem Bound.setProperty {kinds : ParameterKinds} (h : Bound kinds d before r id owner) {v : Value}
    (hWrite : r.setProperty owner i v = .ok r') : Bound kinds d before r' id owner := by
  obtain ⟨o, hSet, hWrite⟩ := bind_eq_ok.mp hWrite
  cases hWrite
  refine ⟨?_, ?_⟩
  · rcases object_setObject_cases r owner id o with hSame | ⟨rfl, hNew⟩
    · rw [hSame]
      exact h.parameter
    · rw [hNew, (takes_setAt hSet).sameKind.parameter]
      exact h.parameter
  · rcases object_setObject_cases r owner owner o with hSame | ⟨-, hNew⟩
    · rw [hSame, h.keys]
    · rw [hNew, (takes_setAt hSet).sameShape.keys, h.keys]

end Parameter

namespace Classify

variable {kinds : ParameterKinds} {w : Workspace} {d : String}

theorem Policies.isOk {x y : Except ClassifyError Accessor × Workspace} (h : Policies kinds d w x y) :
    x.1.isOk = y.1.isOk := by
  cases h <;> rfl

end Classify

end Mission
