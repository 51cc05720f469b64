import Mission.Proofs.Execution.Tracking
import Mission.Proofs.Object.Catalogue

/-! Reading and writing objects of the catalogue. Every write leaves each object of the form it was,
with values of the announced types, and an accessor that stands for an object as a whole knows its
form. So what is read through an accessor is of the type that the accessor announces. -/
namespace Mission

open Registry Outcome Object

variable {given : String → Prop}

theorem Object.catalogued_default : (default : Object).Catalogued given := by
  show (Catalog.plain "" "" .unknown []).Catalogued given
  exact Catalog.catalogued_plain "" (by decide) (by decide) nofun (by simp)

namespace Registry

/-- All objects are as those of the catalogue, and their parts exist. -/
structure Catalogued (given : String → Prop) (r : Registry) : Prop where
  objects : r.Every (Object.Catalogued given)
  parts : ∀ {id c}, c ∈ r.owned id → r.Has c

/-- The second registry has come of the first by writing objects and adding new ones. -/
structure Preserves (given : String → Prop) (r r' : Registry) : Prop where
  has : ∀ {id}, r.Has id → r'.Has id
  form : ∀ {id}, r.Has id → (r.object id).SameForm (r'.object id)
  catalogued : r'.Catalogued given

variable {r r' r'' : Registry} {id : ObjectId}

theorem Catalogued.object (h : r.Catalogued given) (id : ObjectId) : (r.object id).Catalogued given := by
  by_cases hId : r.Has id
  · exact h.objects id hId
  · rw [Registry.object, entry_of_not_has hId]
    exact catalogued_default

theorem Catalogued.assembly (h : r.Catalogued given) (id : ObjectId) : (r.assembly id).Catalogued given :=
  every_assembly h.objects catalogued_default id

theorem catalogued_empty : ({} : Registry).Catalogued given := by
  refine ⟨fun id hId => absurd hId (Nat.not_lt_zero id.index), fun hc => ?_⟩
  rw [owned_of_not_has (Nat.not_lt_zero _)] at hc
  cases hc

theorem Preserves.refl (h : r.Catalogued given) : Preserves given r r :=
  ⟨fun h => h, fun _ => .refl _, h⟩

theorem Preserves.trans (h : Preserves given r r') (h' : Preserves given r' r'') : Preserves given r r'' :=
  ⟨fun hId => h'.has (h.has hId), fun hId => (h.form hId).trans (h'.form (h.has hId)), h'.catalogued⟩

variable (h : r.Catalogued given)
include h

theorem Preserves.of_grows (hGrows : Grows r r')
    (hObjects : r'.Every (Object.Catalogued given)) : Preserves given r r' where
  has := hGrows.has
  form hId := by
    rw [hGrows.object hId]
    exact .refl _
  catalogued := by
    refine ⟨hObjects, fun {id c} hc => ?_⟩
    by_cases hId : r.Has id
    · rw [hGrows.owned hId] at hc
      exact hGrows.has (h.parts hc)
    · exact (hGrows.parts hId hc).2

theorem preserves_modify {f : Entry → Entry}
    (hForm : (r.object id).SameForm (f (r.entry id)).object)
    (hObject : (f (r.entry id)).object.Catalogued given) (hParts : ∀ c ∈ (f (r.entry id)).owned, r.Has c) :
    Preserves given r (r.modify id f) where
  has := has_modify.mpr
  form {other} hOther := by
    by_cases hSame : other = id
    · subst hSame
      rw [object, object, entry_modify_self hOther]
      exact hForm
    · rw [object, object, entry_modify_ne hSame]
      exact .refl _
  catalogued := by
    refine ⟨every_modify h.objects fun _ => hObject, fun {other c} hc => has_modify.mpr ?_⟩
    by_cases hSame : other = id
    · subst hSame
      by_cases hOther : r.Has other
      · rw [owned, entry_modify_self hOther] at hc
        exact hParts c hc
      · rw [owned_of_not_has fun hModified => hOther (has_modify.mp hModified)] at hc
        cases hc
    · rw [owned, entry_modify_ne hSame] at hc
      exact h.parts hc

theorem preserves_modifyObject {f : Object → Object}
    (hForm : (r.object id).SameForm (f (r.object id))) (hObject : (f (r.object id)).Catalogued given) :
    Preserves given r (r.modifyObject id f) :=
  preserves_modify h hForm hObject fun _ hc => h.parts hc

theorem preserves_setObject {o : Object} (hForm : (r.object id).SameForm o)
    (ho : o.Catalogued given) : Preserves given r (r.setObject id o) :=
  preserves_modify h hForm ho fun _ hc => h.parts hc

theorem preserves_push {o : Object} (ho : o.Catalogued given) :
    Preserves given r (r.push { object := o }).2 :=
  .of_grows h (grows_push (.refl r) (by simp)).1 (every_push h.objects ho)

theorem preserves_install {a : Assembly} (ha : a.Catalogued given) :
    Preserves given r (r.install a).2 :=
  .of_grows h (install_grows r a).1 (every_install h.objects a ha)

theorem preserves_installAll {parts : List Assembly}
    (hParts : ∀ part ∈ parts, part.Catalogued given) : Preserves given r (r.installAll parts).2 :=
  .of_grows h (installAll_grows r parts).1 (every_installAll h.objects parts hParts)

/-- An object of the form of the source is overwritten with it. -/
theorem preserves_overwrite {source : ObjectId}
    (hForm : (r.object id).SameForm (r.object source)) (hId : r.Has id) :
    Preserves given r (r.overwrite id (r.assembly source)) := by
  obtain ⟨hGrows, hLoose⟩ := installAll_grows r (r.assembly source).parts
  have hInstall : Preserves given r (r.installAll (r.assembly source).parts).2 :=
    preserves_installAll h (h.assembly source).parts
  have hNamed : (r.object source).SameForm { r.object source with name := (r.object id).name } :=
    ⟨rfl, rfl, .refl _⟩
  unfold overwrite
  rw [object_assembly]
  refine hInstall.trans (preserves_modify hInstall.catalogued ?_ ?_ fun c hc => (hLoose c hc).has)
  · rw [hGrows.object hId]
    exact hForm.trans hNamed
  · exact (h.object source).keep ⟨hNamed, rfl⟩

theorem preserves_replaceOwned (t : ObjectType) {part : Assembly}
    (hPart : part.Catalogued given) : Preserves given r (r.replaceOwned id t part) := by
  obtain ⟨-, hLoose⟩ := install_grows r part
  have hInstall : Preserves given r (r.install part).2 := preserves_install h hPart
  refine hInstall.trans (preserves_modify hInstall.catalogued (.refl _) (hInstall.catalogued.object id) ?_)
  intro c hc
  rcases List.mem_append.mp hc with hKept | hNew
  · exact hInstall.has (h.parts (List.mem_filter.mp hKept).1)
  · rw [List.mem_singleton.mp hNew]
    exact hLoose.has

/-! ### Values of objects -/

theorem preserves_takes {o : Object} (hTakes : (r.object id).Takes o) :
    Preserves given r (r.setObject id o) :=
  preserves_setObject h hTakes.sameForm ((h.object id).takes hTakes)

end Registry

/-! ### The values of Parameters -/

/-- What a Parameter reads from its owner as it is is a real. -/
theorem Object.Catalogued.admits_get {o : Object} (ho : o.Catalogued given) {key : String}
    (hKey : key ∈ ParameterKind.measures) {v : Value} (h : o.get key = .ok v) : DataType.real.Admits v := by
  obtain ⟨i, hIndex, h⟩ := bind_eq_ok.mp h
  obtain ⟨p, hProperty, h⟩ := bind_eq_ok.mp h
  cases h
  have hFound : o.properties.index? key = some i := by
    unfold propertyIndex at hIndex
    split at hIndex
    · next hFound =>
        cases hIndex
        exact hFound
    · cases hIndex
  obtain ⟨hBound, hSame, -⟩ := List.findIdx?_eq_some_iff_getElem.mp hFound
  have hTyped := ho.properties _ (List.getElem_mem hBound)
  have hAt : o.properties.getAt? i = some o.properties.entries[i].2 := by
    rw [Table.getAt?, List.getElem?_eq_getElem hBound]
    rfl
  unfold property at hProperty
  rw [hAt] at hProperty
  cases hProperty
  rw [← hTyped.measured (by simpa [of_decide_eq_true hSame] using hKey)]
  exact hTyped.admits

/-- The type of the values of a quantity. -/
def Quantity.valueType : Quantity → DataType
  | calendarDate => .string
  | _ => .real

theorem Quantity.admits_compute {q : Quantity} {owner : Object} (hOwner : owner.Catalogued given)
    (hField : ∀ {property}, q = .field property → property ∈ ParameterKind.measures)
    {dependency : Option Object} {v : Value} (h : q.compute owner dependency = .ok v) :
    q.valueType.Admits v := by
  cases q with
  | field property => exact hOwner.admits_get (hField rfl) h
  | calendarDate =>
    obtain ⟨epoch, -, h⟩ := bind_eq_ok.mp h
    split at h
    · cases h
      rfl
    · cases h
  | _ =>
    obtain ⟨x, -, h⟩ := bind_eq_ok.mp h
    cases h
    rfl

/-- Builtin Parameters announce the type of the quantity that they compute. -/
theorem ParameterKind.returnType_of_builtin :
    ∀ k ∈ builtin, k.returnType = k.quantity.valueType := by
  decide

theorem ParameterKind.field_of_builtin {k : ParameterKind} (h : k ∈ builtin) {property : String}
    (hField : k.quantity = .field property) : property ∈ measures :=
  List.mem_filterMap.mpr ⟨k, h, by rw [hField]⟩

/-- The value of an object is of the type that the object announces. -/
theorem Registry.admits_evaluate {r : Registry} (h : r.Catalogued given) {id : ObjectId} {v : Value}
    (hValue : r.evaluate id = .ok v) : (r.object id).returnType.Admits v := by
  unfold evaluate at hValue
  unfold returnType
  dsimp only at hValue
  split at hValue
  · next p hContent =>
      obtain ⟨owner, -, hValue⟩ := bind_eq_ok.mp hValue
      have hKind := (h.object id).kind hContent
      rw [hContent]
      change p.kind.returnType.Admits v
      rw [ParameterKind.returnType_of_builtin p.kind hKind]
      exact Quantity.admits_compute (h.object owner) (ParameterKind.field_of_builtin hKind) hValue
  · unfold stored at hValue
    split at hValue
    · next hContent =>
        cases hValue
        rw [hContent]
        rfl
    · next hContent =>
        cases hValue
        rw [hContent]
        rfl
    · cases hValue
    · next hContent =>
        cases hValue
        rw [hContent]
        rfl
    · cases hValue
    · cases hValue

/-! ### Accessors -/

namespace Accessor

variable {r r' : Registry} {a : Accessor} {v : Value}

/-- The object as a whole behind the accessor exists and is of the kind that the accessor was made
for. -/
structure Fits (a : Accessor) (r : Registry) : Prop where
  has : ∀ {d k id}, a = .whole d k (some id) → r.Has id
  kind : ∀ {d k id}, a = .whole d k (some id) → WholeKind.of (r.object id) = k

theorem Fits.later (h : a.Fits r) (hPreserves : Preserves given r r') : a.Fits r' where
  has ha := hPreserves.has (h.has ha)
  kind ha := (hPreserves.form (h.has ha)).kind.trans (h.kind ha)

theorem Fits.rename (h : a.Fits r) (old new : String) : (a.rename old new).Fits r := by
  cases a with
  | whole d k target =>
    refine ⟨fun ha => ?_, fun ha => ?_⟩
    · cases ha
      exact h.has rfl
    · cases ha
      exact h.kind rfl
  | number d x | string d s | boolean d b | onOff d b | property d p | element d name array row column =>
    exact ⟨(fun ha => by cases ha), fun ha => by cases ha⟩

/-- Objects that are read as their names are no Parameters. -/
theorem isParameter_of_kind {o : Object} (h : WholeKind.of o = .object) : o.isParameter = false := by
  unfold WholeKind.of at h
  split at h
  · cases h
  · split at h
    · cases h
    · split at h
      · cases h
      · split at h
        · cases h
        · next hParameter => simpa using hParameter

/-- The type that an accessor for an object as a whole announces is that of its value. -/
theorem dataType_whole {d : String} {k : WholeKind} {id : ObjectId} (hKind : WholeKind.of (r.object id) = k)
    (hValue : k ≠ .object) : (whole d k (some id)).dataType r = (r.object id).returnType := by
  unfold WholeKind.of at hKind
  unfold isVariable isArray isStringObject at hKind
  subst hKind
  unfold returnType
  cases hContent : (r.object id).content with
  | plain =>
    by_cases hParameter : (r.object id).isParameter = true
    · simp [hContent, hParameter, dataType, returnType]
    · simp [hContent, hParameter] at hValue
  | «variable» x => simp [dataType]
  | array values => simp [dataType]
  | text s => simp [dataType]
  | parameter p =>
    by_cases hString : p.kind.returnType = .string
    · simp [hString, dataType]
    · by_cases hParameter : (r.object id).isParameter = true
      · simp [hContent, hString, hParameter, dataType, returnType]
      · simp [hContent, hString, hParameter] at hValue

/-- What is read through an accessor is of the type that it announces. -/
theorem admits_evaluate (h : r.Catalogued given) (hFits : a.Fits r) (hValue : a.evaluate r = .ok v) :
    (a.dataType r).Admits v := by
  cases a with
  | number d x | string d s | boolean d b | onOff d b =>
    cases hValue
    rfl
  | property d p =>
    obtain ⟨⟨id, i⟩, hBound, hValue⟩ := bind_eq_ok.mp hValue
    obtain ⟨q, hProperty, hValue⟩ := bind_eq_ok.mp (liftObject_eq_ok.mp hValue)
    cases hValue
    have hAt := getAt?_of_property hProperty
    have hType : (property d p).dataType r = q.dataType := by
      rw [dataType, boundTo_eq_ok hBound]
      simp [hAt]
    rw [hType]
    exact (h.object id).of_getAt? hAt
  | whole d k target =>
    obtain ⟨id, hBound, hRead⟩ := bind_eq_ok.mp hValue
    cases boundTo_eq_ok hBound
    have hKind := hFits.kind rfl
    split at hRead
    · next hPlain =>
        cases hRead
        simp only [Bool.and_eq_true, decide_eq_true_eq] at hPlain
        rw [hPlain.1]
        rfl
    · next hOther =>
        have hNot : k ≠ .object := by
          rintro rfl
          simp [isParameter_of_kind hKind] at hOther
        rw [dataType_whole hKind hNot]
        exact admits_evaluate h (liftObject_eq_ok.mp hRead)
  | element d name array row column =>
    obtain ⟨id, -, hValue⟩ := bind_eq_ok.mp hValue
    obtain ⟨i, -, hValue⟩ := bind_eq_ok.mp hValue
    obtain ⟨j, -, hValue⟩ := bind_eq_ok.mp hValue
    obtain ⟨x, -, hValue⟩ := bind_eq_ok.mp hValue
    cases hValue
    rfl

/-! ### Writing -/

theorem preserves_setValue (h : r.Catalogued given) (hSet : a.setValue r v = .ok r') :
    Preserves given r r' := by
  obtain ⟨id, o, hTakes, rfl, -⟩ := takes_of_setValue hSet
  exact preserves_takes h hTakes

/-- An object is copied into another of its type. -/
theorem preserves_setObject (h : r.Catalogued given) (hFits : a.Fits r) {source : ObjectId}
    (hSet : a.setObject r source = .ok r') : Preserves given r r' := by
  obtain ⟨d, id, rfl, rfl | ⟨hType, rfl⟩⟩ := setObject_eq_ok hSet
  · exact .refl h
  · have hTarget := (h.object id).content_of_type (isParameter_of_kind (hFits.kind rfl))
    -- The type tells that the source holds nothing but its properties either.
    have hSource : (r.object source).content = .plain := by
      rw [(h.object source).plain, hType, ← (h.object id).plain]
      exact hTarget
    refine preserves_overwrite h ⟨hType, ?_, ?_⟩ (hFits.has rfl)
    · rw [(h.object source).type, (h.object id).type, hType]
    · rw [hSource, hTarget]
      exact .plain

/-- The outcomes of writing through an accessor. -/
inductive Sets (r : Registry) (a : Accessor) : Except AccessError Registry → Prop
  | value (v : Value) : Sets r a (a.setValue r v)
  | real (x : Float) : Sets r a (a.setReal r x)
  | integer (n : Int64) : Sets r a (a.setInteger r n)
  | string (text : String) : Sets r a (a.setString r text)
  | boolean (flag : Bool) : Sets r a (a.setBoolean r flag)
  | onOff (flag : Bool) : Sets r a (a.setOnOff r flag)
  | matrix (m : Matrix) : Sets r a (a.setMatrix r m)
  | object (source : ObjectId) : Sets r a (a.setObject r source)

/-- What is written is a value, or an object is copied. -/
theorem Sets.eq_ok {x : Except AccessError Registry} (h : a.Sets r x) (hOk : x = .ok r') :
    (∃ v, a.setValue r v = .ok r') ∨ ∃ source, a.setObject r source = .ok r' := by
  have hPut : ∀ {v}, a.Puts r v x → ∃ v, a.setValue r v = .ok r' := fun hPuts => ⟨_, hPuts.setValue hOk⟩
  cases h with
  | value v => exact .inl (hPut (.value v))
  | real x => exact .inl (hPut (.real x))
  | integer n => exact .inl (hPut (.integer n))
  | string text => exact .inl (hPut (.string text))
  | boolean flag => exact .inl (hPut (.boolean flag))
  | onOff flag => exact .inl (hPut (.onOff flag))
  | matrix m => exact .inl (hPut (.matrix m))
  | object source => exact .inr ⟨source, hOk⟩

theorem Sets.preserves {x : Except AccessError Registry} (h : a.Sets r x) (hOk : x = .ok r')
    (hr : r.Catalogued given) (hFits : a.Fits r) : Preserves given r r' := by
  rcases h.eq_ok hOk with ⟨v, hSet⟩ | ⟨source, hSet⟩
  · exact preserves_setValue hr hSet
  · exact preserves_setObject hr hFits hSet

/-- The texts that the property behind the accessor accepts. -/
def accepted (r : Registry) : Accessor → List String
  | property _ p =>
    match p.target with
    | some (id, index) => (((r.object id).properties.getAt? index).map Property.accepted).getD []
    | none => []
  | _ => []

/-- What is written through an accessor to an enumeration is a text that it accepts. -/
theorem accepted_setValue (h : r.Catalogued given) (hSet : a.setValue r v = .ok r')
    (hType : a.dataType r = .enumeration) : ∃ text ∈ a.accepted r, a.evaluate r' = .ok (.string text) := by
  cases a with
  | number d x | string d s | boolean d b | onOff d b | element d name array row column => cases hType
  | whole d k target =>
    cases k with
    | parameter =>
      cases target with
      | none => cases hType
      | some id =>
        change (r.object id).returnType = .enumeration at hType
        unfold returnType at hType
        split at hType
        · cases hType
        · cases hType
        · cases hType
        · cases hType
        · next p hContent =>
            rw [ParameterKind.returnType_of_builtin _ ((h.object id).kind hContent)] at hType
            cases hQuantity : p.kind.quantity <;> rw [hQuantity] at hType <;> cases hType
    | _ => cases hType
  | property d p =>
    obtain ⟨⟨id, i⟩, hBound, hSet⟩ := bind_eq_ok.mp hSet
    have hTarget := boundTo_eq_ok hBound
    obtain ⟨q, stored, hProperty, hConvert, hStored⟩ := getAt_of_setProperty (liftObject_eq_ok.mp hSet)
    have hAt := getAt?_of_property hProperty
    have hEnumeration : q.dataType = .enumeration := by
      rw [dataType, hTarget] at hType
      simpa [hAt] using hType
    obtain ⟨entry, hEntry, rfl⟩ := Option.map_eq_some_iff.mp hAt
    have hTyped := (h.object id).properties entry (List.mem_of_getElem? hEntry)
    obtain ⟨text, hText, rfl⟩ :=
      Property.accepted_convert hEnumeration (hTyped.restricted hEnumeration) hConvert
    refine ⟨text, ?_, ?_⟩
    · rw [accepted, hTarget]
      simpa [hAt] using hText
    · rw [evaluate, hTarget]
      exact liftObject_eq_ok.mpr hStored

theorem Sets.accepted {x : Except AccessError Registry} (h : a.Sets r x) (hOk : x = .ok r')
    (hr : r.Catalogued given) (hType : a.dataType r = .enumeration) :
    ∃ text ∈ a.accepted r, a.evaluate r' = .ok (.string text) := by
  rcases h.eq_ok hOk with ⟨v, hSet⟩ | ⟨source, hSet⟩
  · exact accepted_setValue hr hSet hType
  · obtain ⟨d, id, rfl, -⟩ := setObject_eq_ok hSet
    cases hType

end Accessor

/-! ### Assignments and outputs -/

namespace Assignment

variable {r r' : Registry}

theorem preserves_output (h : r.Catalogued given) {a : Assignment} {source : Accessor}
    (hOutput : a.output r = .ok (source, r')) : Preserves given r r' := by
  rcases output_eq_ok hOutput with rfl | ⟨id, rfl⟩ | ⟨name, rows, cols, v, hAssign⟩
  · exact .refl h
  · exact preserves_install h (h.assembly id)
  · have hInstall : Preserves given r (r.install (Catalog.userArray name rows cols)).2 :=
      preserves_install h (Catalog.Builds.userArray name rows cols).catalogued
    obtain ⟨id, o, hTakes, rfl, -⟩ := Accessor.takes_of_assign hAssign
    exact hInstall.trans (preserves_takes hInstall.catalogued hTakes)

end Assignment

theorem keptByWrites_preserves (given : String → Prop) : KeptByWrites (Preserves given) Accessor.Fits where
  trans := .trans
  last h := .refl h.catalogued
  later := .later
  object h hFits := Accessor.preserves_setObject h.catalogued hFits
  value h _ := Accessor.preserves_setValue h.catalogued
  output h := Assignment.preserves_output h.catalogued

end Mission
