import Mission.Proofs.Accessor.Typing

/-! Where values are written. A value that is written through an accessor ends up at one place: a
property of an object, what a Variable, an Array or a String holds, or an entry of an Array. The
place is known before the write, and so is the value as the place takes it. All the rest of the
registry stays as it is, and to write what is read changes nothing. -/
namespace Mission

open Registry Outcome Object Option

/-! ### Changing one item -/

namespace ItemTree

variable {α : Type} {f g : α → α}

theorem modify_modify (f g : α → α) (t : ItemTree α) (i : Nat) :
    (t.modify g i).modify f i = t.modify (fun x => f (g x)) i := by
  induction t generalizing i with
  | leaf => rfl
  | node item left right ihLeft ihRight => cases i <;> grind [modify]

theorem modify_congr {t : ItemTree α} {i : Nat} (h : ∀ x, t.get? i = some x → f x = g x) :
    t.modify f i = t.modify g i := by
  induction t generalizing i with
  | leaf => rfl
  | node item left right ihLeft ihRight => cases i <;> grind [modify, get?]

theorem modify_id (t : ItemTree α) (i : Nat) : t.modify (fun x => x) i = t := by
  induction t generalizing i with
  | leaf => rfl
  | node item left right ihLeft ihRight => cases i <;> grind [modify]

end ItemTree

namespace Registry

variable {r : Registry} {id : ObjectId}

/-- Registries are equal if the trees of their entries are. -/
theorem modify_eq_of_tree {r' : Registry} {f : Entry → Entry} (hSize : r'.entries.size = r.entries.size)
    (hTree : r'.entries.tree = r.entries.tree.modify f id.index) : r' = r.modify id f := by
  rcases r' with ⟨size, tree, filled⟩
  dsimp only at hSize hTree
  subst hSize hTree
  rfl

theorem modify_modify (r : Registry) (id : ObjectId) (f g : Entry → Entry) :
    (r.modify id g).modify id f = r.modify id fun e => f (g e) :=
  modify_eq_of_tree rfl (ItemTree.modify_modify f g _ _)

theorem modify_congr {f g : Entry → Entry} (h : f (r.entry id) = g (r.entry id)) :
    r.modify id f = r.modify id g := by
  refine modify_eq_of_tree rfl (ItemTree.modify_congr fun e he => ?_)
  have hEntry : r.entry id = e := by
    change (r.entries.tree.get? id.index).getD default = e
    rw [he]
    rfl
  rw [← hEntry]
  exact h

theorem modify_eq_self {f : Entry → Entry} (h : f (r.entry id) = r.entry id) : r.modify id f = r := by
  have hSame : r.modify id (fun e => e) = r := (modify_eq_of_tree rfl (ItemTree.modify_id _ _).symm).symm
  exact (modify_congr h).trans hSame

theorem setObject_eq_modifyObject (f : Object → Object) :
    r.setObject id (f (r.object id)) = r.modifyObject id f :=
  modify_congr rfl

theorem modifyObject_eq_self {f : Object → Object} (h : f (r.object id) = r.object id) :
    r.modifyObject id f = r := by
  refine modify_eq_self ?_
  change ({ r.entry id with object := f (r.object id) } : Entry) = r.entry id
  rw [h]
  rfl

theorem modifyObject_modifyObject (f g : Object → Object) (h : f (g (r.object id)) = f (r.object id)) :
    (r.modifyObject id g).modifyObject id f = r.modifyObject id f := by
  rw [modifyObject, modifyObject, modify_modify]
  exact modify_congr (by rw [show f (g (r.entry id).object) = _ from h]; rfl)

theorem object_modifyObject (h : r.Has id) (f : Object → Object) :
    (r.modifyObject id f).object id = f (r.object id) := by
  rw [object, modifyObject, entry_modify_self h]
  rfl

end Registry

namespace Matrix

variable {m : Matrix} {i j : Nat}

theorem get?_eq_some {x : Float} (h : m.get? i j = some x) :
    (i < m.rows && j < m.cols) = true ∧ m.data[i * m.cols + j]? = some x := by
  unfold get? at h
  split at h
  · next hIn => exact ⟨hIn, h⟩
  · cases h

theorem get?_set (h : (m.get? i j).isSome = true) (x : Float) : (m.set i j x).get? i j = some x := by
  obtain ⟨y, hy⟩ := isSome_iff_exists.mp h
  obtain ⟨hIn, hAt⟩ := get?_eq_some hy
  obtain ⟨hBound, -⟩ := Array.getElem?_eq_some_iff.mp hAt
  rw [set, if_pos hIn, get?, if_pos hIn]
  exact Array.getElem?_setIfInBounds_self_of_lt hBound

theorem set_set (x y : Float) : (m.set i j x).set i j y = m.set i j y := by
  unfold set
  split
  · simp
  · rfl

theorem set_get? {x : Float} (h : m.get? i j = some x) : m.set i j x = m := by
  obtain ⟨hIn, hAt⟩ := get?_eq_some h
  obtain ⟨hBound, rfl⟩ := Array.getElem?_eq_some_iff.mp hAt
  rcases m with ⟨rows, cols, data, hSize⟩
  have hSame : data.setIfInBounds (i * cols + j) data[i * cols + j] = data := by
    rw [Array.setIfInBounds, dif_pos hBound]
    exact Array.set_getElem_self hBound
  rw [set, if_pos hIn]
  simp [hSame]

end Matrix

/-! ### Places -/

/-- A place in an object that holds a value. -/
inductive Spot
  | property (index : Nat)
  /-- What a Variable, an Array or a String holds. -/
  | content
  /-- An entry of a sized Array, counted from zero. -/
  | element (row column : Nat)
deriving DecidableEq, Repr

/-- A place in the registry that holds a value. -/
structure Place where
  object : ObjectId
  spot : Spot
deriving DecidableEq, Repr

/-- Something of the same form, whatever it held. -/
def Content.blank : Content → Content
  | .variable _ => .variable 0
  | .array (some m) => .array (some (.zero m.rows m.cols))
  | .text _ => .text ""
  | content => content

/-- A value as it is held in place of another, converted to the type of that one. -/
def Content.taken (v : Value) : Content → Option Value
  | .variable _ => v.asReal.toOption.map .real
  | .array (some m) => (v.asMatrix.toOption.filter fun m' => m.dims = m'.dims).map .matrix
  | .text _ => v.asString.toOption.map .string
  | _ => none

namespace Object

variable {o o' : Object} {v w : Value} {spot : Spot}

/-- What stands at a spot. -/
def read? (o : Object) : Spot → Option Value
  | .property i => (o.properties.getAt? i).map Property.value
  | .content => o.stored.toOption
  | .element i j => (o.element i j).toOption.map .real

/-- A value as the object takes it at a spot, converted to the type of what stands there. There is
none if the value is refused. -/
def taken (o : Object) (v : Value) : Spot → Option Value
  | .property i =>
    (o.properties.getAt? i).bind fun p => if p.readOnly then none else (p.convert o.name v).toOption
  | .content => o.content.taken v
  | .element i j => (o.element i j).toOption.bind fun _ => v.asReal.toOption.map .real

/-- Puts a value at a spot as it is. -/
def put (o : Object) (v : Value) : Spot → Object
  | .property i => { o with properties := o.properties.modifyAt i fun p => { p with value := v } }
  | .content =>
    match v with
    | .real x => { o with content := .variable x }
    | .matrix m => { o with content := .array (some m) }
    | .string s => { o with content := .text s }
    | _ => o
  | .element i j =>
    match o.content, v with
    | .array (some m), .real x => { o with content := .array (some (m.set i j x)) }
    | _, _ => o

/-- The object without what stands at a spot. -/
def blank (o : Object) : Spot → Object
  | .property i => o.put .absent (.property i)
  | .content => { o with content := o.content.blank }
  | .element i j => o.put (.real 0) (.element i j)

theorem setAt_eq_ok {i : Nat} :
    o.setAt i v = .ok o' ↔ ∃ w, o.taken v (.property i) = some w ∧ o.put w (.property i) = o' := by
  unfold setAt property taken
  cases hAt : o.properties.getAt? i with
  | none => simp [hAt, Bind.bind, Except.bind]
  | some p =>
    cases hReadOnly : p.readOnly with
    | true => simp [hAt, hReadOnly, Bind.bind, Except.bind, throw, throwThe, MonadExceptOf.throw]
    | false =>
      cases hConvert : p.convert o.name v with
      | error e => simp [hAt, hReadOnly, hConvert, Bind.bind, Except.bind, Except.toOption]
      | ok w =>
        simp [hAt, hReadOnly, hConvert, Bind.bind, Except.bind, pure, Except.pure, Except.toOption, put]

theorem store_eq_ok :
    o.store v = .ok o' ↔ ∃ w, o.taken v .content = some w ∧ o.put w .content = o' := by
  unfold store taken Content.taken
  cases o.content with
  | plain => simp
  | parameter p => simp
  | «variable» x => cases v.asReal <;> simp [Except.toOption, put]
  | text s => cases v.asString <;> simp [Except.toOption, put]
  | array values =>
    cases hMatrix : v.asMatrix with
    | error e => cases values <;> simp [Except.toOption]
    | ok m =>
      cases values with
      | none => simp
      | some current =>
        by_cases hDims : current.dims = m.dims
        · simp [Except.toOption, put, hDims]
        · simp [Except.toOption, hDims]

theorem content_of_element {i j : Nat} {x : Float} (h : o.element i j = .ok x) :
    ∃ m, o.content = .array (some m) ∧ m.get? i j = some x := by
  obtain ⟨m, hValues, h⟩ := bind_eq_ok.mp h
  refine ⟨m, ?_, ?_⟩
  · unfold arrayValues at hValues
    split at hValues
    · next hContent =>
        cases hValues
        exact hContent
    · cases hValues
    · cases hValues
  · split at h
    · next hAt =>
        cases h
        exact hAt
    · cases h

theorem element_of_content {i j : Nat} {m : Matrix} {x : Float} (hContent : o.content = .array (some m))
    (hAt : m.get? i j = some x) : o.element i j = .ok x := by
  simp [element, arrayValues, hContent, hAt, Bind.bind, Except.bind, pure, Except.pure]

/-- An entry can be written if it can be read. -/
theorem setElement_eq_ok {i j : Nat} {x : Float} (hReal : v.asReal = .ok x) :
    o.setElement i j x = .ok o' ↔ ∃ w, o.taken v (.element i j) = some w ∧ o.put w (.element i j) = o' := by
  have hTaken : o.taken v (.element i j) = (o.element i j).toOption.map fun _ => .real x := by
    rw [taken, hReal]
    cases o.element i j <;> rfl
  rw [hTaken]
  unfold setElement element arrayValues
  split
  · next m hContent =>
      cases hAt : m.get? i j <;> simp [hContent, hAt, put, Bind.bind, Except.bind, pure, Except.pure, throw,
        throwThe, MonadExceptOf.throw, Except.toOption]
  · simp [Bind.bind, Except.bind, Except.toOption]
  · simp [Bind.bind, Except.bind, Except.toOption]

theorem read?_put (h : o.taken v spot = some w) : (o.put w spot).read? spot = some w := by
  cases spot with
  | property i =>
    obtain ⟨p, hAt, -⟩ := bind_eq_some_iff.mp h
    rw [put, read?, Table.getAt?_modifyAt, hAt]
    rfl
  | content =>
    change o.content.taken v = some w at h
    unfold Content.taken at h
    split at h
    · obtain ⟨x, -, rfl⟩ := map_eq_some_iff.mp h
      rfl
    · obtain ⟨m, -, rfl⟩ := map_eq_some_iff.mp h
      rfl
    · obtain ⟨s, -, rfl⟩ := map_eq_some_iff.mp h
      rfl
    · cases h
  | element i j =>
    obtain ⟨y, hElement, h⟩ := bind_eq_some_iff.mp h
    obtain ⟨x, -, rfl⟩ := map_eq_some_iff.mp h
    obtain ⟨m, hContent, hAt⟩ := content_of_element (toOption_eq_some.mp hElement)
    have hSome : (m.get? i j).isSome = true := by rw [hAt]; rfl
    have hNow : (o.put (.real x) (.element i j)).content = .array (some (m.set i j x)) := by
      simp [put, hContent]
    rw [read?, element_of_content hNow (Matrix.get?_set hSome x)]
    rfl

/-- Nothing but the spot is written. -/
theorem blank_put (h : o.taken v spot = some w) : (o.put w spot).blank spot = o.blank spot := by
  cases spot with
  | property i =>
    dsimp only [blank, put]
    rw [Table.modifyAt_modifyAt]
  | content =>
    change o.content.taken v = some w at h
    unfold Content.taken at h
    split at h
    · next hContent =>
        obtain ⟨x, -, rfl⟩ := map_eq_some_iff.mp h
        simp [put, blank, hContent, Content.blank]
    · next m hContent =>
        obtain ⟨m', hMatrix, rfl⟩ := map_eq_some_iff.mp h
        have hDims : m.rows = m'.rows ∧ m.cols = m'.cols := by
          simpa [Matrix.dims] using (filter_eq_some_iff.mp hMatrix).2
        simp [put, blank, hContent, Content.blank, hDims]
    · next hContent =>
        obtain ⟨s, -, rfl⟩ := map_eq_some_iff.mp h
        simp [put, blank, hContent, Content.blank]
    · cases h
  | element i j =>
    obtain ⟨y, hElement, h⟩ := bind_eq_some_iff.mp h
    obtain ⟨x, -, rfl⟩ := map_eq_some_iff.mp h
    obtain ⟨m, hContent, -⟩ := content_of_element (toOption_eq_some.mp hElement)
    simp [put, blank, hContent, Matrix.set_set]

/-- What does not exist takes nothing. -/
theorem taken_default : (default : Object).taken v spot = none := by
  cases spot <;> rfl

/-- What stands at a spot is put there again. -/
theorem put_read? (h : o.read? spot = some v) : o.put v spot = o := by
  cases spot with
  | property i =>
    obtain ⟨p, hAt, rfl⟩ := map_eq_some_iff.mp h
    have hSame : o.properties.modifyAt i (fun q => { q with value := p.value }) = o.properties :=
      Table.modifyAt_eq_self hAt rfl
    rw [put, hSame]
  | content =>
    have hStored : o.stored = .ok v := toOption_eq_some.mp h
    unfold stored at hStored
    split at hStored
    · next hContent =>
        cases hStored
        simp [put, ← hContent]
    · next hContent =>
        cases hStored
        simp [put, ← hContent]
    · cases hStored
    · next hContent =>
        cases hStored
        simp [put, ← hContent]
    · cases hStored
    · cases hStored
  | element i j =>
    obtain ⟨x, hElement, rfl⟩ := map_eq_some_iff.mp h
    obtain ⟨m, hContent, hAt⟩ := content_of_element (toOption_eq_some.mp hElement)
    rcases o with ⟨name, typeName, objectType, properties, content⟩
    cases hContent
    simp [put, Matrix.set_get? hAt]

end Object

namespace Registry

variable {r : Registry} {v w : Value} {place : Place}

def read? (r : Registry) (place : Place) : Option Value :=
  (r.object place.object).read? place.spot

def taken (r : Registry) (v : Value) (place : Place) : Option Value :=
  (r.object place.object).taken v place.spot

def put (r : Registry) (v : Value) (place : Place) : Registry :=
  r.modifyObject place.object fun o => o.put v place.spot

/-- The registry without what stands at a place. Registries that differ there at most are equal
without it. -/
def blank (r : Registry) (place : Place) : Registry :=
  r.modifyObject place.object fun o => o.blank place.spot

theorem has_of_taken (h : r.taken v place = some w) : r.Has place.object := by
  refine Classical.byContradiction fun hNot => ?_
  rw [taken, object, entry_of_not_has hNot] at h
  cases taken_default.symm.trans h

theorem read?_put (h : r.taken v place = some w) : (r.put w place).read? place = some w := by
  rw [read?, put, object_modifyObject (has_of_taken h)]
  exact Object.read?_put h

theorem blank_put (h : r.taken v place = some w) : (r.put w place).blank place = r.blank place :=
  modifyObject_modifyObject _ _ (Object.blank_put h)

theorem put_read? (h : r.read? place = some v) : r.put v place = r :=
  modifyObject_eq_self (Object.put_read? h)

/-- Where a value that is assigned to an object goes: to what the object holds, or through a
settable Parameter to the property of its owner. -/
def valuePlace (r : Registry) (id : ObjectId) : Option Place :=
  match (r.object id).parameter? with
  | none => some ⟨id, .content⟩
  | some p =>
    p.kind.writes.bind fun property => p.owner.bind fun owner =>
      ((r.object owner).properties.index? property).map fun i => ⟨owner, .property i⟩

/-- An object gives way to the same object with a value at a spot. -/
theorem replaced_eq_ok {r' : Registry} {id : ObjectId} {spot : Spot} {x : Except ObjectError Object}
    (h : ∀ o', x = .ok o' ↔ ∃ w, (r.object id).taken v spot = some w ∧ (r.object id).put w spot = o') :
    (do return r.setObject id (← x)) = Except.ok (ε := ObjectError) r' ↔
      ∃ w, r.taken v ⟨id, spot⟩ = some w ∧ r.put w ⟨id, spot⟩ = r' := by
  constructor
  · intro hDone
    obtain ⟨o', hx, hDone⟩ := bind_eq_ok.mp hDone
    cases hDone
    obtain ⟨w, hTaken, rfl⟩ := (h o').mp hx
    exact ⟨w, hTaken, (setObject_eq_modifyObject _).symm⟩
  · rintro ⟨w, hTaken, rfl⟩
    have hx := (h _).mpr ⟨w, hTaken, rfl⟩
    rw [hx]
    exact congrArg Except.ok (setObject_eq_modifyObject fun o => o.put w spot)

/-- Assigning a value succeeds if there is a place for it that takes it. -/
theorem assign_eq_ok {r' : Registry} {id : ObjectId} :
    r.assign id v = .ok r' ↔
      ∃ place w, r.valuePlace id = some place ∧ r.taken v place = some w ∧ r.put w place = r' := by
  unfold assign valuePlace
  dsimp only
  split
  · next p hContent =>
      have hParameter : (r.object id).parameter? = some p := by rw [parameter?, hContent]
      cases hWrites : p.kind.writes with
      | none => simp [hParameter, hWrites]
      | some property =>
        cases hOwner : p.owner with
        | none => simp [hParameter, hWrites, hOwner, ownerOf, Bind.bind, Except.bind]
        | some owner =>
          cases hIndex : (r.object owner).properties.index? property with
          | none =>
            simp [hParameter, hWrites, hOwner, hIndex, ownerOf, Object.set, propertyIndex, Bind.bind,
              Except.bind]
          | some i =>
            have hSet : (r.object owner).set property v = (r.object owner).setAt i v := by
              rw [Object.set, propertyIndex, hIndex]
              rfl
            rw [ownerOf, hOwner]
            change (do return r.setObject owner (← (r.object owner).set property v)) = _ ↔ _
            rw [hSet]
            refine (replaced_eq_ok fun _ => setAt_eq_ok).trans ?_
            simp [hParameter, hWrites, hOwner, hIndex]
  · next hContent =>
      have hParameter : (r.object id).parameter? = none := by
        unfold parameter?
        split
        · next p hIs => exact absurd hIs (hContent p)
        · rfl
      refine (replaced_eq_ok fun _ => store_eq_ok).trans ?_
      simp [hParameter]

end Registry

namespace Accessor

variable {r r' : Registry} {a : Accessor} {v : Value}

/-- Where a value that is written through the accessor goes. The indices of an entry are evaluated
first. -/
def place (r : Registry) : Accessor → Option Place
  | property _ p => p.target.map fun found => ⟨found.1, .property found.2⟩
  | whole _ k target =>
    target.bind fun id => if k = .object && !(r.object id).isParameter then none else r.valuePlace id
  | element _ _ array row column =>
    array.bind fun id => (indexOf row (row.evaluate r)).toOption.bind fun i =>
      (indexOf column (column.evaluate r)).toOption.map fun j => ⟨id, .element i j⟩
  | _ => none

/-- Writing a value succeeds if there is a place for it that takes it, and puts it there. -/
theorem setValue_eq_ok :
    a.setValue r v = .ok r' ↔
      ∃ place w, a.place r = some place ∧ r.taken v place = some w ∧ r.put w place = r' := by
  cases a with
  | number d x | string d s | boolean d b | onOff d b => simp [setValue, place]
  | property d p =>
    cases hTarget : p.target with
    | none => simp [setValue, place, hTarget, boundTo, Bind.bind, Except.bind]
    | some found =>
      have hSet : (property d p).setValue r v = liftObject (r.setProperty found.1 found.2 v) := by
        rw [setValue, hTarget]
        rfl
      rw [hSet, liftObject_eq_ok]
      refine (replaced_eq_ok fun _ => Object.setAt_eq_ok).trans ?_
      simp [place, hTarget]
  | whole d k target =>
    cases target with
    | none => simp [setValue, place, boundTo, Bind.bind, Except.bind]
    | some id =>
      by_cases hPlain : (k = .object && !(r.object id).isParameter) = true
      · have hSet : (whole d k (some id)).setValue r v = .error ((whole d k (some id)).invalid "Set") := by
          simp only [setValue, boundTo, Bind.bind, Except.bind]
          rw [if_pos hPlain]
          rfl
        rw [hSet, place, Option.bind_some, if_pos hPlain]
        simp
      · have hSet : (whole d k (some id)).setValue r v = liftObject (r.assign id v) := by
          simp only [setValue, boundTo, Bind.bind, Except.bind]
          rw [if_neg hPlain]
        rw [hSet, liftObject_eq_ok, assign_eq_ok, place, Option.bind_some, if_neg hPlain]
  | element d name array row column =>
    cases array with
    | none => simp [setValue, place, boundTo, Bind.bind, Except.bind]
    | some id =>
      cases hRow : indexOf row (row.evaluate r) with
      | error e => simp [setValue, place, hRow, boundTo, Bind.bind, Except.bind, Except.toOption]
      | ok i =>
        cases hColumn : indexOf column (column.evaluate r) with
        | error e => simp [setValue, place, hRow, hColumn, boundTo, Bind.bind, Except.bind, Except.toOption]
        | ok j =>
          have hPlace : (element d name (some id) row column).place r = some ⟨id, .element i j⟩ := by
            simp [place, hRow, hColumn, Except.toOption]
          cases hReal : v.asReal with
          | error e =>
            simp [setValue, hPlace, hRow, hColumn, hReal, boundTo, liftType, Registry.taken, Object.taken,
              Bind.bind, Except.bind, Except.toOption]
          | ok x =>
            have hSet : (element d name (some id) row column).setValue r v =
                liftObject (r.setElement id i j x) := by
              simp only [setValue, boundTo, hRow, hColumn, hReal]
              rfl
            rw [hSet, liftObject_eq_ok]
            refine (replaced_eq_ok fun _ => Object.setElement_eq_ok hReal).trans ?_
            simp [hPlace]

end Accessor

/-! ### Writing what is read -/

variable {given : String → Prop}

/-- A property takes the value that it holds, unless it is an enumeration that was given another
unchecked. -/
theorem Property.Typed.convert_value {p : Property} {key : String} (hp : p.Typed given key)
    (hAccepted : p.dataType = .enumeration → ∃ text ∈ p.accepted, p.value = .string text) (object : String) :
    p.convert object p.value = .ok p.value := by
  rcases p with ⟨name, dataType, value, readOnly, refType, texts⟩
  have hAdmits : dataType.carrier = some value.dataType := hp.admits
  cases dataType with
  | unsignedInt => exact absurd rfl hp.signed
  | enumeration =>
    obtain ⟨text, hText, rfl⟩ := hAccepted rfl
    simp [convert, Value.asString, hText]
  | objectArray | vector | unknown => cases hAdmits
  | real | integer | string | filename | boolean | onOff | object | stringArray | matrix =>
    cases value <;> cases hAdmits
    rfl

namespace Object

variable {o : Object} {v : Value} {spot : Spot}

/-- A property that is read by name stands where the name is found. -/
theorem exists_of_get {key : String} (h : o.get key = .ok v) :
    ∃ i p, o.properties.index? key = some i ∧ o.properties.getAt? i = some p ∧
      (key, p) ∈ o.properties.entries ∧ p.value = v := by
  obtain ⟨i, hIndex, h⟩ := bind_eq_ok.mp h
  obtain ⟨p, hProperty, h⟩ := bind_eq_ok.mp h
  cases h
  have hFound : o.properties.index? key = some i := by
    unfold propertyIndex at hIndex
    split at hIndex
    · next hFound =>
        cases hIndex
        exact hFound
    · cases hIndex
  have hAt := getAt?_of_property hProperty
  obtain ⟨entry, hEntry, hValue⟩ := map_eq_some_iff.mp hAt
  obtain ⟨hBound, hKey, -⟩ := List.findIdx?_eq_some_iff_getElem.mp hFound
  obtain ⟨_, hSame⟩ := List.getElem?_eq_some_iff.mp hEntry
  have hPair : entry = (key, p) := by
    rw [hSame] at hKey
    rw [← of_decide_eq_true hKey, ← hValue]
  exact ⟨i, p, hFound, hAt, hPair ▸ List.mem_of_getElem? hEntry, rfl⟩

/-- What stands at a spot of an object of the catalogue is taken there. -/
theorem Catalogued.taken_read? (ho : o.Catalogued given) (h : o.read? spot = some v)
    (hAccepted : ∀ {i p}, spot = .property i → o.properties.getAt? i = some p → p.dataType = .enumeration →
      ∃ text ∈ p.accepted, v = .string text) : o.taken v spot = some v := by
  cases spot with
  | property i =>
    obtain ⟨p, hAt, rfl⟩ := map_eq_some_iff.mp h
    obtain ⟨entry, hEntry, rfl⟩ := map_eq_some_iff.mp hAt
    have hTyped := ho.properties entry (List.mem_of_getElem? hEntry)
    rw [taken, hAt, bind_some, hTyped.writable, hTyped.convert_value (hAccepted rfl hAt) o.name]
    rfl
  | content =>
    have hStored : o.stored = .ok v := toOption_eq_some.mp h
    unfold stored at hStored
    split at hStored
    · next hContent =>
        cases hStored
        rw [taken, hContent]
        rfl
    · next hContent =>
        cases hStored
        simp [taken, hContent, Content.taken, Value.asMatrix, Except.toOption]
    · cases hStored
    · next hContent =>
        cases hStored
        rw [taken, hContent]
        rfl
    · cases hStored
    · cases hStored
  | element i j =>
    obtain ⟨x, hElement, rfl⟩ := map_eq_some_iff.mp h
    rw [taken, hElement]
    rfl

end Object

theorem Registry.ownerOf_eq_ok {p : SystemParameter} {name : String} {id : ObjectId}
    (h : ownerOf p name = .ok id) : p.owner = some id := by
  unfold ownerOf at h
  split at h
  · next hOwner =>
      cases h
      exact hOwner
  · cases h

/-- What a settable Parameter reads is what it writes. -/
theorem ParameterKind.field_of_settable :
    ∀ k ∈ builtin, ∀ property ∈ k.writes, k.quantity = .field property := by
  decide

/-- The value of an object that can be set stands at the place where values are assigned to it. -/
theorem Registry.Catalogued.exists_valuePlace {r : Registry} (h : r.Catalogued given) {id : ObjectId}
    {v : Value} (hSettable : ((r.object id).parameter?.all fun p => p.kind.isSettable) = true)
    (hValue : r.evaluate id = .ok v) :
    ∃ place, r.valuePlace id = some place ∧ r.read? place = some v ∧ r.taken v place = some v := by
  unfold valuePlace
  cases hParameter : (r.object id).parameter? with
  | none =>
    have hRead : r.read? ⟨id, .content⟩ = some v := by
      refine toOption_eq_some.mpr ?_
      unfold evaluate at hValue
      dsimp only at hValue
      split at hValue
      · next p hContent => simp [parameter?, hContent] at hParameter
      · exact hValue
    exact ⟨_, rfl, hRead, (h.object id).taken_read? hRead fun hSpot => by cases hSpot⟩
  | some p =>
    have hContent : (r.object id).content = .parameter p := by
      unfold parameter? at hParameter
      split at hParameter
      · next hContent =>
          cases hParameter
          exact hContent
      · cases hParameter
    have hBuiltin := (h.object id).kind hContent
    rw [hParameter] at hSettable
    obtain ⟨property, hWrites⟩ := isSome_iff_exists.mp hSettable
    have hField := ParameterKind.field_of_settable p.kind hBuiltin property hWrites
    simp only [evaluate, hContent, hField] at hValue
    obtain ⟨owner, hOwner, hGet⟩ := bind_eq_ok.mp hValue
    obtain ⟨i, q, hIndex, hAt, hMem, rfl⟩ := exists_of_get hGet
    have hRead : r.read? ⟨owner, .property i⟩ = some q.value := by
      rw [Registry.read?, Object.read?, hAt]
      rfl
    refine ⟨⟨owner, .property i⟩, ?_, hRead, (h.object owner).taken_read? hRead ?_⟩
    · simp [hWrites, ownerOf_eq_ok hOwner, hIndex]
    · rintro _ p' ⟨⟩ hAt' hType
      cases hAt.symm.trans hAt'
      have hReal := ((h.object owner).properties _ hMem).measured
        (ParameterKind.field_of_builtin hBuiltin hField)
      cases hReal.symm.trans hType

namespace Accessor

variable {r r' : Registry} {a : Accessor} {v : Value}

/-- The accessor is neither a literal nor an object as a whole that is read as its name, its
property can be written, and its Parameter can be set. -/
def isSettable (r : Registry) : Accessor → Bool
  | property _ p =>
    p.target.any fun found => ((r.object found.1).properties.getAt? found.2).all fun q => !q.readOnly
  | whole _ k target =>
    target.any fun id => k ≠ .object && (r.object id).parameter?.all fun p => p.kind.isSettable
  | element _ _ _ _ _ => true
  | _ => false

/-- What is read through an accessor that can be set stands at the place where values are written,
and is taken there. -/
theorem exists_place (h : r.Catalogued given) (hSettable : a.isSettable r = true)
    (hValue : a.evaluate r = .ok v)
    (hAccepted : a.dataType r = .enumeration → ∃ text ∈ a.accepted r, v = .string text) :
    ∃ place, a.place r = some place ∧ r.read? place = some v ∧ r.taken v place = some v := by
  cases a with
  | number d x | string d s | boolean d b | onOff d b => cases hSettable
  | property d p =>
    obtain ⟨⟨id, i⟩, hBound, hValue⟩ := bind_eq_ok.mp hValue
    have hTarget := boundTo_eq_ok hBound
    obtain ⟨q, hProperty, hDone⟩ := bind_eq_ok.mp (liftObject_eq_ok.mp hValue)
    cases hDone
    have hAt := getAt?_of_property hProperty
    have hRead : r.read? ⟨id, .property i⟩ = some q.value := by
      rw [Registry.read?, Object.read?, hAt]
      rfl
    refine ⟨⟨id, .property i⟩, by rw [place, hTarget]; rfl, hRead, (h.object id).taken_read? hRead ?_⟩
    rintro _ p' ⟨⟩ hAt' hType
    cases hAt.symm.trans hAt'
    have hAnnounced : (property d p).dataType r = .enumeration := by
      rw [dataType, hTarget]
      simpa [hAt] using hType
    obtain ⟨text, hText, hSame⟩ := hAccepted hAnnounced
    refine ⟨text, ?_, hSame⟩
    rw [accepted, hTarget] at hText
    simpa [hAt] using hText
  | whole d k target =>
    obtain ⟨id, hBound, hRead⟩ := bind_eq_ok.mp hValue
    cases boundTo_eq_ok hBound
    obtain ⟨hValued, hSet⟩ := Bool.and_eq_true_iff.mp hSettable
    have hKind : ¬ (k = .object && !(r.object id).isParameter) = true := by simp_all
    rw [if_neg hKind] at hRead
    rw [place, bind_some, if_neg hKind]
    exact h.exists_valuePlace hSet (liftObject_eq_ok.mp hRead)
  | element d name array row column =>
    obtain ⟨id, hBound, hValue⟩ := bind_eq_ok.mp hValue
    obtain ⟨i, hRow, hValue⟩ := bind_eq_ok.mp hValue
    obtain ⟨j, hColumn, hValue⟩ := bind_eq_ok.mp hValue
    obtain ⟨x, hElement, hDone⟩ := bind_eq_ok.mp hValue
    cases hDone
    have hRead : r.read? ⟨id, .element i j⟩ = some (.real x) := by
      rw [Registry.read?, Object.read?, liftObject_eq_ok.mp hElement]
      rfl
    refine ⟨⟨id, .element i j⟩, ?_, hRead, (h.object id).taken_read? hRead fun hSpot => by cases hSpot⟩
    rw [place, boundTo_eq_ok hBound, hRow, hColumn]
    rfl

end Accessor

end Mission
