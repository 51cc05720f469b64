import Mathlib.Data.List.Forall2
import Mission.Catalog
import Mission.Proofs.Accessor.Writing
import Mission.Proofs.Name.Mention
import Mission.Proofs.Outcome
import Mission.Proofs.Registry.Evolution
import Mission.Proofs.Table

/-! Registries that differ in names only. Two objects are alike if they have the same type, the same
properties and the same contents, where texts may differ if the first one mentions a given name.
Numbers and flags are the same, so what is computed from alike objects is alike, and writes keep
them so. A text that mentions the name must not be a word that the language or an enumeration knows,
since such a word is told from others. -/
namespace Mission

open Property List

namespace Outcome

variable {ε α β : Type}

/-- What the first computation gives, the second one gives too, up to the relation. -/
def Carries {ε' α' : Type} (R : α → α' → Prop) (x : Except ε α) (x' : Except ε' α') : Prop :=
  ∀ a, x = .ok a → ∃ a', x' = .ok a' ∧ R a a'

namespace Carries

variable {ε' α' β' : Type} {R R' : α → α' → Prop} {S : β → β' → Prop} {x : Except ε α} {x' : Except ε' α'}

theorem ok {a : α} {a' : α'} (h : R a a') : Carries R (.ok a : Except ε α) (.ok a' : Except ε' α') := by
  rintro _ ⟨⟩
  exact ⟨a', rfl, h⟩

theorem error (e : ε) (x' : Except ε' α') : Carries R (.error e) x' := by
  intro a ha
  cases ha

theorem bind {f : α → Except ε β} {f' : α' → Except ε' β'} (hx : Carries R x x')
    (hf : ∀ {a a'}, R a a' → Carries S (f a) (f' a')) : Carries S (x >>= f) (x' >>= f') := by
  intro b hb
  obtain ⟨a, ha, hb⟩ := bind_eq_ok.mp hb
  obtain ⟨a', ha', hRel⟩ := hx a ha
  obtain ⟨b', hb', hRel'⟩ := hf hRel b hb
  exact ⟨b', bind_eq_ok.mpr ⟨a', ha', hb'⟩, hRel'⟩

theorem self (x : Except ε α) : Carries Eq x x :=
  fun a ha => ⟨a, ha, rfl⟩

/-- The computations begin in the same way. -/
theorem same_bind (x : Except ε α) {f f' : α → Except ε β} {S : β → β → Prop}
    (h : ∀ a, Carries S (f a) (f' a)) : Carries S (x >>= f) (x >>= f') :=
  (self x).bind fun {a _} hSame => hSame ▸ h a

theorem imp (h : Carries R x x') (hR : ∀ {a a'}, R a a' → R' a a') : Carries R' x x' := by
  intro a ha
  obtain ⟨a', ha', hRel⟩ := h a ha
  exact ⟨a', ha', hR hRel⟩

/-- Naming the error in another way changes no result. -/
theorem lift {ε₁ ε₁' : Type} {f : Except ε α → Except ε₁ α} {f' : Except ε' α' → Except ε₁' α'}
    (h : Carries R x x') (hOk : ∀ a, f (.ok a) = .ok a) (hOk' : ∀ a, f' (.ok a) = .ok a)
    (hError : ∀ e, ∃ e', f (.error e) = .error e') : Carries R (f x) (f' x') := by
  cases x with
  | error e =>
    obtain ⟨e', he⟩ := hError e
    rw [he]
    exact error e' _
  | ok a =>
    obtain ⟨a', rfl, hRel⟩ := h a rfl
    rw [hOk, hOk']
    exact ok hRel

/-- The relation together with what was computed. -/
theorem keep (h : Carries R x x') : Carries (fun a a' => x = .ok a ∧ R a a') x x' := by
  intro a ha
  obtain ⟨a', ha', hRel⟩ := h a ha
  exact ⟨a', ha', ha, hRel⟩

theorem ite {c c' : Prop} {_ : Decidable c} {_ : Decidable c'} {y : Except ε α} {y' : Except ε' α'}
    (hIff : c ↔ c') (hx : c → Carries R x x') (hy : ¬ c → Carries R y y') :
    Carries R (if c then x else y) (if c' then x' else y') := by
  by_cases hc : c
  · rw [if_pos hc, if_pos (hIff.mp hc)]
    exact hx hc
  · rw [if_neg hc, if_neg fun hc' => hc (hIff.mpr hc')]
    exact hy hc

theorem mapM {f : α → Except ε β} {f' : α' → Except ε' β'} {xs : List α} {xs' : List α'}
    (h : List.Forall₂ (fun a a' => Carries S (f a) (f' a')) xs xs') :
    Carries (List.Forall₂ S) (xs.mapM f) (xs'.mapM f') := by
  induction h with
  | nil => exact .ok .nil
  | cons hHead _ ih =>
    rw [mapM_cons, mapM_cons]
    exact hHead.bind fun hFirst => ih.bind fun hRest => .ok (.cons hFirst hRest)

end Carries

end Outcome

open Outcome

/-- The name can stand for no truth value and no flag. -/
structure Name.Wordless (old : String) : Prop where
  identifier : Name.IsIdentifier old.toList
  truth : Value.truthWord? old = none
  flag : Value.flagWord? old = none

/-! ### Values -/

/-- Values that are the same up to texts that mention the name. -/
inductive Value.Alike (old : String) : Value → Value → Prop
  | same (v : Value) : Alike old v v
  | string {text text' : String} (h : Name.Alike old text text') : Alike old (.string text) (.string text')
  | object {text text' : String} (h : Name.Alike old text text') : Alike old (.object text) (.object text')
  | stringArray {items items' : List String}
      (h : items' = items ∨ ∃ item ∈ items, old ∈ Name.identifiers item) :
      Alike old (.stringArray items) (.stringArray items')

namespace Value

variable {old : String} {v v' : Value}

theorem Alike.asReal (h : Alike old v v') : Carries Eq v.asReal v'.asReal := by
  cases h with
  | same => exact .self _
  | _ => exact .error _ _

theorem Alike.asInteger (h : Alike old v v') : Carries Eq v.asInteger v'.asInteger := by
  cases h with
  | same => exact .self _
  | _ => exact .error _ _

theorem Alike.asMatrix (h : Alike old v v') : Carries Eq v.asMatrix v'.asMatrix := by
  cases h with
  | same => exact .self _
  | _ => exact .error _ _

theorem Alike.asString (h : Alike old v v') : Carries (Name.Alike old) v.asString v'.asString := by
  cases h with
  | same => exact fun text ht => ⟨text, ht, .refl old text⟩
  | string hText => exact .ok hText
  | object hText => exact .ok hText
  | stringArray => exact .error _ _

/-- The text of a value, unless it is one that mentions the name. -/
theorem Alike.toText (hName : Name.IsIdentifier old.toList) (h : Alike old v v') :
    Name.Alike old v.toText v'.toText := by
  cases h with
  | same => exact .refl old _
  | string hText => exact hText
  | object hText => exact hText
  | stringArray hItems =>
    rcases hItems with rfl | hItems
    · exact .refl old _
    · exact .inr (Name.mem_identifiers_toText hName hItems)

theorem Alike.asOnOff (hName : Name.Wordless old) (h : Alike old v v') : Carries Eq v.asOnOff v'.asOnOff := by
  cases h with
  | same => exact .self _
  | @string text text' hText =>
    rcases hText with rfl | hMentions
    · exact .self _
    · rw [Value.asOnOff]
      split
      · next flag hWord =>
          rw [← eq_of_flagWord? hWord hMentions, hName.flag] at hWord
          cases hWord
      · exact .error _ _
  | object => exact .error _ _
  | stringArray => exact .error _ _

end Value

/-! ### Properties -/

/-- Properties that are the same up to their values. The words that they admit do not mention the
name. -/
structure Property.Alike (old : String) (p p' : Property) : Prop where
  same : p' = { p with value := p'.value }
  value : Value.Alike old p.value p'.value
  words : ∀ word ∈ p.accepted, old ∉ Name.identifiers word

namespace Property

variable {old : String} {p p' : Property} {v v' : Value}

/-- A value that has been read is given back as one. -/
theorem carries_typed {α : Type} {R : α → α → Prop} {x x' : Except TypeError α} {f : α → Value}
    (h : Carries R x x') (hf : ∀ {a a'}, R a a' → Value.Alike old (f a) (f a')) :
    Carries (Value.Alike old)
      (match x with | .ok a => .ok (f a) | .error e => .error (ObjectError.valueType e))
      (match x' with | .ok a => .ok (f a) | .error e => .error (ObjectError.valueType e)) := by
  cases hx : x with
  | error e => exact .error _ _
  | ok a =>
    obtain ⟨a', hx', hRel⟩ := h a hx
    rw [hx']
    exact .ok (hf hRel)

theorem Alike.dataType (h : p.Alike old p') : p'.dataType = p.dataType := by
  rw [h.same]

theorem Alike.convert_enumeration (h : p.Alike old p') (hv : Value.Alike old v v')
    (hType : p.dataType = .enumeration) (object object' : String) :
    Carries (Value.Alike old) (p.convert object v) (p'.convert object' v') := by
  rw [h.same]
  simp only [convert, hType]
  cases hText : v.asString with
  | error e => exact .error _ _
  | ok text =>
    obtain ⟨text', hText', hAlike⟩ := hv.asString text hText
    rw [hText']
    dsimp only
    by_cases hEmpty : p.accepted.isEmpty = true
    · simp only [hEmpty, Bool.true_or, if_true]
      exact .ok (.string hAlike)
    · simp only [hEmpty, Bool.false_or]
      split
      · next hAccepted =>
          rcases hAlike with rfl | hMentions
          · rw [if_pos hAccepted]
            exact .ok (.same _)
          · exact absurd hMentions (h.words text (contains_iff_mem.mp hAccepted))
      · exact .error _ _

theorem Alike.convert_boolean (hName : Name.Wordless old) (h : p.Alike old p')
    (hv : Value.Alike old v v') (hType : p.dataType = .boolean) (object object' : String) :
    Carries (Value.Alike old) (p.convert object v) (p'.convert object' v') := by
  rw [h.same]
  simp only [convert, hType]
  cases hv with
  | same v =>
    cases v with
    | boolean flag => exact .ok (.same _)
    | string text =>
      dsimp only
      split
      · exact .ok (.same _)
      · exact .error _ _
    | _ => exact .error _ _
  | @string text text' hText =>
    dsimp only
    split
    · next flag hWord =>
        rcases hText with rfl | hMentions
        · rw [hWord]
          exact .ok (.same _)
        · rw [← Value.eq_of_truthWord? hWord hMentions, hName.truth] at hWord
          cases hWord
    · exact .error _ _
  | object => exact .error _ _
  | stringArray => exact .error _ _

theorem Alike.convert_list (hName : Name.Wordless old) (h : p.Alike old p') (hv : Value.Alike old v v')
    (hType : p.dataType = .stringArray ∨ p.dataType = .objectArray) (object object' : String) :
    Carries (Value.Alike old) (p.convert object v) (p'.convert object' v') := by
  rw [h.same]
  cases hv with
  | same v =>
    rcases hType with hType | hType <;>
    · simp only [convert, hType]
      cases v with
      | stringArray items => exact .ok (.same _)
      | string text => exact .ok (.same _)
      | _ => exact .error _ _
  | @string text text' hText =>
    have hItems : Value.Alike old (.stringArray (nameList text)) (.stringArray (nameList text')) := by
      rcases hText with rfl | hMentions
      · exact .same _
      · exact .stringArray (.inr (Name.exists_mem_nameList hName.identifier hMentions))
    rcases hType with hType | hType <;>
    · simp only [convert, hType]
      exact .ok hItems
  | object =>
    rcases hType with hType | hType <;>
    · simp only [convert, hType]
      exact .error _ _
  | stringArray hItems =>
    rcases hType with hType | hType <;>
    · simp only [convert, hType]
      exact .ok (.stringArray hItems)

/-- Alike values are converted to alike values. -/
theorem Alike.convert (hName : Name.Wordless old) (h : p.Alike old p') (hv : Value.Alike old v v')
    (object object' : String) :
    Carries (Value.Alike old) (p.convert object v) (p'.convert object' v') := by
  cases hType : p.dataType
  case enumeration => exact h.convert_enumeration hv hType object object'
  case boolean => exact h.convert_boolean hName hv hType object object'
  case stringArray => exact h.convert_list hName hv (.inl hType) object object'
  case objectArray => exact h.convert_list hName hv (.inr hType) object object'
  all_goals
    rw [h.same]
    simp only [Property.convert, hType]
  case onOff =>
    cases hFlag : v.asOnOff with
    | error e => exact .error _ _
    | ok flag =>
      obtain ⟨_, hFlag', rfl⟩ := hv.asOnOff hName flag hFlag
      rw [hFlag']
      exact .ok (.same _)
  case unsignedInt =>
    cases hInteger : v.asInteger with
    | error e => exact .error _ _
    | ok n =>
      obtain ⟨_, hInteger', rfl⟩ := hv.asInteger n hInteger
      rw [hInteger']
      exact .ite Iff.rfl (fun _ => .ok (.same _)) fun _ => .error _ _
  case unknown => exact .ok hv
  case real => exact carries_typed hv.asReal fun hEq => hEq ▸ .same _
  case integer => exact carries_typed hv.asInteger fun hEq => hEq ▸ .same _
  case string | filename => exact carries_typed hv.asString .string
  case object => exact carries_typed hv.asString .object
  case vector | matrix => exact carries_typed hv.asMatrix fun hEq => hEq ▸ .same _

end Property

/-! ### Objects -/

/-- Contents that are the same up to texts that mention the name. System Parameters are of one type
and bound to the same objects. -/
inductive Content.Alike (old : String) : Content → Content → Prop
  | plain : Alike old .plain .plain
  | number (x : Float) : Alike old (.variable x) (.variable x)
  | array (m : Option Matrix) : Alike old (.array m) (.array m)
  | text {text text' : String} (h : Name.Alike old text text') : Alike old (.text text) (.text text')
  | parameter {p p' : SystemParameter} (kind : p'.kind = p.kind) (owner : p'.owner = p.owner)
      (dependency : p'.dependencyObject = p.dependencyObject) : Alike old (.parameter p) (.parameter p')

/-- Objects of one type that are the same up to texts that mention the name. -/
structure Object.Alike (old : String) (o o' : Object) : Prop where
  name : Name.Alike old o.name o'.name
  typeName : o'.typeName = o.typeName
  objectType : o'.objectType = o.objectType
  properties : List.Forall₂ (fun e e' => e'.1 = e.1 ∧ Property.Alike old e.2 e'.2) o.properties.entries
    o'.properties.entries
  content : Content.Alike old o.content o'.content

namespace Object

variable {old : String} {o o' : Object}

section

variable (h : o.Alike old o')
include h

theorem Alike.isOfType (t : ObjectType) : o'.isOfType t = o.isOfType t := by
  rw [Object.isOfType, h.objectType]
  rfl

theorem Alike.isParameter : o'.isParameter = o.isParameter := by
  rw [Object.isParameter, h.objectType]
  rfl

theorem Alike.kindOf : o'.isVariable = o.isVariable ∧ o'.isArray = o.isArray ∧
    o'.isStringObject = o.isStringObject ∧ o'.returnType = o.returnType := by
  have hContent := h.content
  unfold isVariable isArray isStringObject returnType
  generalize o.content = c, o'.content = c' at hContent
  cases hContent with
  | parameter kind => simp [kind]
  | _ => exact ⟨rfl, rfl, rfl, rfl⟩

theorem Alike.keys : o'.properties.keys = o.properties.keys := by
  have hProperties := h.properties
  unfold Table.keys
  generalize o.properties.entries = entries, o'.properties.entries = entries' at hProperties
  induction hProperties with
  | nil => rfl
  | cons hHead _ ih => rw [map_cons, map_cons, ih, hHead.1]

theorem Alike.index? (property : String) :
    o'.properties.index? property = o.properties.index? property := by
  rw [Table.index?_eq, Table.index?_eq, h.keys]

theorem Alike.getAt? (i : Nat) :
    Option.Rel (Property.Alike old) (o.properties.getAt? i) (o'.properties.getAt? i) := by
  have hProperties := h.properties
  unfold Table.getAt?
  generalize o.properties.entries = entries, o'.properties.entries = entries' at hProperties
  induction hProperties generalizing i with
  | nil => exact .none
  | cons hHead _ ih =>
    cases i with
    | zero => exact .some hHead.2
    | succ i => simpa using ih i

theorem Alike.property (i : Nat) :
    Carries (Property.Alike old) (o.property i) (o'.property i) := by
  have hGet := h.getAt? i
  unfold Object.property
  revert hGet
  generalize o.properties.getAt? i = x, o'.properties.getAt? i = x'
  intro hGet
  cases hGet with
  | none => exact .error _ _
  | some hProperty => exact .ok hProperty

theorem Alike.propertyIndex (property : String) :
    Carries Eq (o.propertyIndex property) (o'.propertyIndex property) := by
  unfold Object.propertyIndex
  rw [h.index?]
  cases o.properties.index? property with
  | none => exact .error _ _
  | some i => exact .ok rfl

theorem Alike.getAt (i : Nat) : Carries (Value.Alike old) (o.getAt i) (o'.getAt i) :=
  (h.property i).bind fun hProperty => .ok hProperty.value

theorem Alike.get (property : String) :
    Carries (Value.Alike old) (o.get property) (o'.get property) :=
  (h.propertyIndex property).bind fun hIndex => hIndex ▸ h.getAt _

theorem Alike.getReal (property : String) :
    Carries Eq (o.getReal property) (o'.getReal property) := by
  refine (h.get property).bind fun {v v'} hv => ?_
  cases hReal : v.asReal with
  | error e => exact .error _ _
  | ok x =>
    obtain ⟨_, hReal', rfl⟩ := hv.asReal x hReal
    rw [hReal']
    exact .ok rfl

end

theorem forall₂_modify {α β : Type} {R : α → β → Prop} {xs : List α} {ys : List β} {f : α → α} {g : β → β}
    (h : List.Forall₂ R xs ys) (hf : ∀ {a b}, R a b → R (f a) (g b)) (i : Nat) :
    List.Forall₂ R (xs.modify i f) (ys.modify i g) := by
  induction h generalizing i with
  | nil => simp
  | cons hHead hTail ih =>
    cases i with
    | zero => exact .cons (hf hHead) hTail
    | succ i => exact .cons hHead (ih i)

theorem Alike.setAt (hName : Name.Wordless old) (h : o.Alike old o') (i : Nat) {v v' : Value}
    (hv : Value.Alike old v v') : Carries (Object.Alike old) (o.setAt i v) (o'.setAt i v') := by
  refine (h.property i).bind fun {p p'} hp => ?_
  have hReadOnly : p'.readOnly = p.readOnly := by rw [hp.same]
  refine .ite (by rw [hReadOnly]) (fun _ => .error _ _) fun _ => ?_
  refine (hp.convert hName hv o.name o'.name).bind fun {c c'} hc => .ok ?_
  refine ⟨h.name, h.typeName, h.objectType, forall₂_modify h.properties (fun {e e'} he => ?_) i, h.content⟩
  refine ⟨he.1, ?_, hc, he.2.words⟩
  rw [he.2.same]

theorem Alike.set (hName : Name.Wordless old) (h : o.Alike old o') (property : String) {v v' : Value}
    (hv : Value.Alike old v v') : Carries (Object.Alike old) (o.set property v) (o'.set property v') :=
  (h.propertyIndex property).bind fun hIndex => hIndex ▸ h.setAt hName _ hv

/-- The same object with other contents. -/
theorem Alike.withContent (h : o.Alike old o') {c c' : Content} (hc : c.Alike old c') :
    Object.Alike old { o with content := c } { o' with content := c' } :=
  ⟨h.name, h.typeName, h.objectType, h.properties, hc⟩

theorem Alike.stored (h : o.Alike old o') : Carries (Value.Alike old) o.stored o'.stored := by
  have hContent := h.content
  unfold Object.stored
  generalize o.content = c, o'.content = c' at hContent
  cases hContent with
  | plain => exact .error _ _
  | number x => exact .ok (.same _)
  | array m =>
    cases m with
    | none => exact .error _ _
    | some m => exact .ok (.same _)
  | text hText => exact .ok (.string hText)
  | parameter => exact .error _ _

theorem Alike.store (h : o.Alike old o') {v v' : Value} (hv : Value.Alike old v v') :
    Carries (Object.Alike old) (o.store v) (o'.store v') := by
  have hContent := h.content
  have hWith := @h.withContent
  unfold Object.store
  generalize o.content = c, o'.content = c' at hContent
  cases hContent with
  | plain => exact .error _ _
  | number x =>
    dsimp only
    cases hReal : v.asReal with
    | error e => exact .error _ _
    | ok y =>
      obtain ⟨_, hReal', rfl⟩ := hv.asReal y hReal
      rw [hReal']
      exact .ok (hWith (.number y))
  | array m =>
    dsimp only
    cases hMatrix : v.asMatrix with
    | error e => exact .error _ _
    | ok values =>
      obtain ⟨_, hMatrix', rfl⟩ := hv.asMatrix values hMatrix
      rw [hMatrix']
      cases m with
      | none => exact .error _ _
      | some current => exact .ite Iff.rfl (fun _ => .ok (hWith (.array _))) fun _ => .error _ _
  | text =>
    dsimp only
    cases hText : v.asString with
    | error e => exact .error _ _
    | ok text =>
      obtain ⟨text', hText', hAlike⟩ := hv.asString text hText
      rw [hText']
      exact .ok (hWith (.text hAlike))
  | parameter => exact .error _ _

theorem Alike.arrayValues (h : o.Alike old o') : Carries Eq o.arrayValues o'.arrayValues := by
  have hContent := h.content
  unfold Object.arrayValues
  generalize o.content = c, o'.content = c' at hContent
  cases hContent with
  | array m =>
    cases m with
    | none => exact .error _ _
    | some m => exact .ok rfl
  | _ => exact .error _ _

theorem Alike.element (h : o.Alike old o') (row col : Nat) :
    Carries Eq (o.element row col) (o'.element row col) := by
  refine h.arrayValues.bind fun {m m'} hValues => ?_
  subst hValues
  cases m.get? row col with
  | none => exact .error _ _
  | some x => exact .ok rfl

theorem Alike.setElement (h : o.Alike old o') (row col : Nat) (x : Float) :
    Carries (Object.Alike old) (o.setElement row col x) (o'.setElement row col x) := by
  refine h.arrayValues.bind fun {m m'} hValues => ?_
  subst hValues
  cases m.get? row col with
  | none => exact .error _ _
  | some x => exact .ok (h.withContent (.array _))

end Object

/-! ### Quantities -/

section

variable {old : String} {owner owner' : Object} {body body' : Option Object}

theorem carries_state (h : owner.Alike old owner') :
    Carries Eq (Orbit.State.of owner) (Orbit.State.of owner') := by
  refine (h.getReal "X").bind fun hx => hx ▸ (h.getReal "Y").bind fun hy => hy ▸ ?_
  refine (h.getReal "Z").bind fun hz => hz ▸ (h.getReal "VX").bind fun hvx => hvx ▸ ?_
  refine (h.getReal "VY").bind fun hvy => hvy ▸ (h.getReal "VZ").bind fun hvz => hvz ▸ ?_
  exact .ok rfl

theorem carries_elements (h : owner.Alike old owner') (hBody : Option.Rel (Object.Alike old) body body') :
    Carries Eq (Orbit.Elements.of owner body) (Orbit.Elements.of owner' body') := by
  have hMu : Carries Eq (Orbit.mu body) (Orbit.mu body') := by
    cases hBody with
    | none => exact .ok rfl
    | some hBody => exact .ite (by rw [hBody.isOfType]) (fun _ => hBody.getReal "Mu") fun _ => .ok rfl
  exact hMu.bind fun hSame => hSame ▸ (carries_state h).bind fun hState => hState ▸ .ok rfl

theorem carries_daysElapsed (h : owner.Alike old owner') :
    Carries Eq (daysElapsed owner) (daysElapsed owner') :=
  (h.getReal "Epoch").bind fun hEpoch => hEpoch ▸ (h.getReal "InitialEpoch").bind fun hInitial =>
    hInitial ▸ .ok rfl

/-- A quantity of alike objects is computed from numbers, which are the same. -/
theorem carries_compute (q : Quantity) (h : owner.Alike old owner')
    (hBody : Option.Rel (Object.Alike old) body body') :
    Carries (Value.Alike old) (q.compute owner body) (q.compute owner' body') := by
  cases q with
  | field property => exact h.get property
  | radius | speed => exact (carries_state h).bind fun hState => hState ▸ .ok (.same _)
  | semiMajorAxis | eccentricity | inclination | energy =>
    exact (carries_elements h hBody).bind fun hElements => hElements ▸ .ok (.same _)
  | elapsedDays | elapsedSeconds => exact (carries_daysElapsed h).bind fun hDays => hDays ▸ .ok (.same _)
  | calendarDate =>
    refine (h.getReal "Epoch").bind fun {x x'} hEpoch => ?_
    subst hEpoch
    cases Calendar.ofModJulian x with
    | none => exact .error _ _
    | some text => exact .ok (.same _)

end

/-! ### Registries -/

mutual

/-- Assemblies of alike objects. The names of parts mention neither name. -/
inductive Assembly.Alike (old new : String) : Assembly → Assembly → Prop
  | mk {o o' : Object} {parts parts' : List Assembly} (object : o.Alike old o')
      (owned : Assembly.AllAlike old new parts parts') : Alike old new (.mk o parts) (.mk o' parts')

inductive Assembly.AllAlike (old new : String) : List Assembly → List Assembly → Prop
  | nil : AllAlike old new [] []
  | cons {a a' : Assembly} {rest rest' : List Assembly} (name : Name.Neither old new a.object.name)
      (first : Assembly.Alike old new a a') (others : AllAlike old new rest rest') :
      AllAlike old new (a :: rest) (a' :: rest')

end

/-- Alike objects that own the same parts. -/
structure Entry.Alike (old : String) (e e' : Entry) : Prop where
  object : e.object.Alike old e'.object
  owned : e'.owned = e.owned

/-- An object whose name mentions neither name. -/
def Registry.Plain (old new : String) (r : Registry) (id : ObjectId) : Prop :=
  r.Has id ∧ Name.Neither old new (r.object id).name

/-- Registries of alike objects. The names of parts mention neither name. -/
structure Registry.Alike (old new : String) (r r' : Registry) : Prop where
  size : r'.entries.size = r.entries.size
  entry : ∀ id, (r.entry id).Alike old (r'.entry id)
  parts : ∀ {id part}, part ∈ r.owned id → r.Plain old new part

namespace Assembly

variable {old new : String} {a a' : Assembly}

theorem Alike.object (h : a.Alike old new a') : a.object.Alike old a'.object := by
  cases h with
  | mk object owned => exact object

theorem Alike.parts (h : a.Alike old new a') : AllAlike old new a.parts a'.parts := by
  cases h with
  | mk object owned => exact owned

theorem alike_holder {name name' : String} (hName : Name.Alike old name name') (typeName : String)
    {c c' : Content} (h : c.Alike old c') :
    (Catalog.holder name typeName c).Alike old new (Catalog.holder name' typeName c') :=
  .mk ⟨hName, rfl, rfl, .nil, h⟩ .nil

end Assembly

namespace Registry

variable {old new : String} {r r' : Registry}

theorem Plain.later {r₁ : Registry} {id : ObjectId} (h : r.Plain old new id) (hGrows : Grows r r₁) :
    r₁.Plain old new id :=
  ⟨hGrows.has h.1, by rw [Registry.object, hGrows.entry h.1]; exact h.2⟩

theorem Alike.object (h : r.Alike old new r') (id : ObjectId) : (r.object id).Alike old (r'.object id) :=
  (h.entry id).object

theorem Alike.owned (h : r.Alike old new r') (id : ObjectId) : r'.owned id = r.owned id :=
  (h.entry id).owned

theorem Alike.has (h : r.Alike old new r') {id : ObjectId} : r'.Has id ↔ r.Has id := by
  rw [Has, Has, h.size]

/-- A plain object stays plain if it keeps its name or gets one that mentions neither name. -/
theorem Plain.modify {id other : ObjectId} {f : Entry → Entry} (h : r.Plain old new other)
    (hName : (f (r.entry id)).object.name = (r.object id).name ∨
      Name.Neither old new (f (r.entry id)).object.name) : (r.modify id f).Plain old new other := by
  refine ⟨by simpa [Has, Registry.modify] using h.1, ?_⟩
  by_cases hSame : other = id
  · subst hSame
    rw [Registry.object, entry_modify_self h.1]
    rcases hName with hName | hName
    · rw [hName]
      exact h.2
    · exact hName
  · rw [Registry.object, entry_modify_ne hSame]
    exact h.2

/-- An entry changes in both registries, and its parts are plain. -/
theorem Alike.modify (h : r.Alike old new r') (id : ObjectId) {f f' : Entry → Entry}
    (hf : (f (r.entry id)).Alike old (f' (r'.entry id)))
    (hName : (f (r.entry id)).object.name = (r.object id).name ∨
      Name.Neither old new (f (r.entry id)).object.name)
    (hParts : ∀ part ∈ (f (r.entry id)).owned, r.Plain old new part) :
    (r.modify id f).Alike old new (r'.modify id f') where
  size := by simpa [Registry.modify] using h.size
  entry other := by
    by_cases hHas : r.Has id
    · by_cases hSame : other = id
      · subst hSame
        rw [entry_modify_self hHas, entry_modify_self (h.has.mpr hHas)]
        exact hf
      · rw [entry_modify_ne hSame, entry_modify_ne hSame]
        exact h.entry other
    · rw [modify_of_not_has hHas, modify_of_not_has fun hHas' => hHas (h.has.mp hHas')]
      exact h.entry other
  parts {other part} hPart := by
    refine Plain.modify ?_ hName
    by_cases hSame : other = id
    · subst hSame
      rw [Registry.owned, entry_modify_self (has_modify.mp (has_of_mem_owned hPart))] at hPart
      exact hParts part hPart
    · rw [Registry.owned, entry_modify_ne hSame] at hPart
      exact h.parts hPart

theorem Alike.setObject (h : r.Alike old new r') (id : ObjectId) {o o' : Object} (ho : o.Alike old o')
    (hName : o.name = (r.object id).name) : (r.setObject id o).Alike old new (r'.setObject id o') :=
  h.modify id ⟨ho, h.owned id⟩ (.inl hName) fun _ hPart => h.parts hPart

theorem Alike.push (h : r.Alike old new r') {e e' : Entry} (he : e.Alike old e')
    (hParts : ∀ part ∈ e.owned, r.Plain old new part) :
    (r'.push e').1 = (r.push e).1 ∧ (r.push e).2.Alike old new (r'.push e').2 := by
  have hId : (r'.push e').1 = (r.push e).1 := congrArg ObjectId.mk h.size
  have hSize : (r'.push e').2.entries.size = (r.push e).2.entries.size := by
    simpa [Registry.push] using h.size
  have hEntry : ∀ id, ((r.push e).2.entry id).Alike old ((r'.push e').2.entry id) := by
    intro id
    by_cases hNew : id = (r.push e).1
    · subst hNew
      rw [entry_push_id, ← hId, entry_push_id]
      exact he
    · rw [entry_push_ne hNew, entry_push_ne (hId ▸ hNew)]
      exact h.entry id
  refine ⟨hId, hSize, hEntry, fun {id part} hPart => ?_⟩
  have hPlain : r.Plain old new part := by
    by_cases hNew : id = (r.push e).1
    · subst hNew
      rw [Registry.owned, entry_push_id] at hPart
      exact hParts part hPart
    · rw [Registry.owned, entry_push_ne hNew] at hPart
      exact h.parts hPart
  refine ⟨has_push.mpr (.inl hPlain.1), ?_⟩
  rw [Registry.object, entry_push_of_has hPlain.1]
  exact hPlain.2

mutual

theorem Alike.install {r r' : Registry} {a a' : Assembly} (h : r.Alike old new r') (ha : a.Alike old new a') :
    (r'.install a').1 = (r.install a).1 ∧ (r.install a).2.Alike old new (r'.install a').2 := by
  cases ha with
  | mk object owned =>
    obtain ⟨hIds, hAlike, hParts⟩ := Alike.installAll h owned
    rw [Registry.install, Registry.install]
    exact hAlike.push ⟨object, hIds⟩ hParts

theorem Alike.installAll {r r' : Registry} {as as' : List Assembly} (h : r.Alike old new r')
    (hAs : Assembly.AllAlike old new as as') :
    (r'.installAll as').1 = (r.installAll as).1 ∧ (r.installAll as).2.Alike old new (r'.installAll as').2 ∧
      ∀ part ∈ (r.installAll as).1, (r.installAll as).2.Plain old new part := by
  cases hAs with
  | nil =>
    rw [Registry.installAll, Registry.installAll]
    exact ⟨rfl, h, fun _ hPart => absurd hPart not_mem_nil⟩
  | @cons a a' rest rest' name first others =>
    obtain ⟨hId, hFirst⟩ := Alike.install h first
    obtain ⟨hIds, hRest, hParts⟩ := Alike.installAll hFirst others
    have hPlain : (r.install a).2.Plain old new (r.install a).1 :=
      ⟨(install_grows r a).2.has, by rw [object_install]; exact name⟩
    rw [Registry.installAll, Registry.installAll]
    refine ⟨congrArg₂ List.cons hId hIds, hRest, fun part hPart => ?_⟩
    rcases mem_cons.mp hPart with rfl | hPart
    · exact hPlain.later (installAll_grows _ rest).1
    · exact hParts part hPart

end

theorem Alike.assemblyTo (h : r.Alike old new r') (depth : Nat) (id : ObjectId) :
    (r.assemblyTo depth id).Alike old new (r'.assemblyTo depth id) := by
  induction depth generalizing id with
  | zero => exact .mk (h.object id) .nil
  | succ depth ih =>
    rw [Registry.assemblyTo, Registry.assemblyTo, h.owned]
    refine .mk (h.object id) ?_
    have hParts : ∀ part ∈ r.owned id, r.Plain old new part := fun _ hPart => h.parts hPart
    generalize r.owned id = parts at hParts
    induction parts with
    | nil => exact .nil
    | cons part rest ihParts =>
      refine .cons ?_ (ih part) (ihParts fun other hOther => hParts other (mem_cons_of_mem part hOther))
      have hObject : (r.assemblyTo depth part).object = r.object part := by cases depth <;> rfl
      rw [hObject]
      exact (hParts part mem_cons_self).2

theorem Alike.assembly (h : r.Alike old new r') (id : ObjectId) :
    (r.assembly id).Alike old new (r'.assembly id) := by
  rw [Registry.assembly, Registry.assembly, h.size]
  exact h.assemblyTo _ id

theorem Alike.overwrite (h : r.Alike old new r') (target : ObjectId) {a a' : Assembly}
    (ha : a.Alike old new a') : (r.overwrite target a).Alike old new (r'.overwrite target a') := by
  obtain ⟨hIds, hAlike, hParts⟩ := h.installAll ha.parts
  have hObject := ha.object
  refine hAlike.modify target ⟨?_, hIds⟩ ?_ hParts
  · exact ⟨(h.object target).name, hObject.typeName, hObject.objectType, hObject.properties, hObject.content⟩
  · by_cases hHas : r.Has target
    · exact .inl (congrArg (fun e => e.object.name) ((installAll_grows r a.parts).1.entry hHas).symm)
    · refine .inr ?_
      change Name.Neither old new (r.object target).name
      rw [Registry.object, entry_of_not_has hHas]
      exact Name.neither_empty old new

/-! ### Reading and writing -/

theorem carries_ownerOf {p p' : SystemParameter} (h : p'.owner = p.owner) (name name' : String) :
    Carries Eq (ownerOf p name) (ownerOf p' name') := by
  unfold ownerOf
  rw [h]
  cases p.owner with
  | none => exact .error _ _
  | some o => exact .ok rfl

theorem Alike.evaluate (h : r.Alike old new r') (id : ObjectId) :
    Carries (Value.Alike old) (r.evaluate id) (r'.evaluate id) := by
  have hContent := (h.object id).content
  have hStored := (h.object id).stored
  unfold Registry.evaluate
  dsimp only
  generalize (r.object id).content = c, (r'.object id).content = c' at hContent
  cases hContent with
  | @parameter p p' kind owner dependency =>
    dsimp only
    have hDependency : Option.Rel (Object.Alike old) (p.dependencyObject.map r.object)
        (p'.dependencyObject.map r'.object) := by
      rw [dependency]
      cases p.dependencyObject with
      | none => exact .none
      | some o => exact .some (h.object o)
    rw [kind]
    refine (carries_ownerOf owner _ _).bind fun hSame => ?_
    exact hSame ▸ carries_compute p.kind.quantity (h.object _) hDependency
  | _ => exact hStored

theorem Alike.assign (hName : Name.Wordless old) (h : r.Alike old new r') (id : ObjectId) {v v' : Value}
    (hv : Value.Alike old v v') : Carries (Registry.Alike old new) (r.assign id v) (r'.assign id v') := by
  have hContent := (h.object id).content
  have hStore := ((h.object id).store hv).keep.bind fun ho =>
    .ok (h.setObject id ho.2 (Object.takes_store ho.1).sameShape.name)
  unfold Registry.assign
  dsimp only
  generalize (r.object id).content = c, (r'.object id).content = c' at hContent
  cases hContent with
  | @parameter p p' kind owner dependency =>
    dsimp only
    rw [kind]
    cases p.kind.writes with
    | none => exact .error _ _
    | some property =>
      refine (carries_ownerOf owner _ _).bind fun {o o'} hSame => ?_
      subst hSame
      exact ((h.object o).set hName property hv).keep.bind fun ho =>
        .ok (h.setObject o ho.2 (Object.takes_set ho.1).sameShape.name)
  | _ => exact hStore

theorem Alike.setProperty (hName : Name.Wordless old) (h : r.Alike old new r') (id : ObjectId) (i : Nat)
    {v v' : Value} (hv : Value.Alike old v v') :
    Carries (Registry.Alike old new) (r.setProperty id i v) (r'.setProperty id i v') :=
  ((h.object id).setAt hName i hv).keep.bind fun ho =>
    .ok (h.setObject id ho.2 (Object.takes_setAt ho.1).sameShape.name)

theorem Alike.setElement (h : r.Alike old new r') (id : ObjectId) (row col : Nat) (x : Float) :
    Carries (Registry.Alike old new) (r.setElement id row col x) (r'.setElement id row col x) :=
  ((h.object id).setElement row col x).keep.bind fun ho =>
    .ok (h.setObject id ho.2 (Object.takes_setElement ho.1).sameShape.name)

end Registry

end Mission
