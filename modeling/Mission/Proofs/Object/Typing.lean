import Mission.Proofs.Accessor.Footprint

/-! Values of the types that they are announced with. A property of a catalogue object holds a value
of its type from the start, and a value is converted to that type before it is written. What else an
object holds is of one form for good: a Variable stays a Variable, a String a String, and a sized
Array keeps its size. The type name tells which objects hold nothing but their properties. -/
namespace Mission

open Registry Outcome

/-- The type of the values that a property of the type holds. Several types share one. -/
def DataType.carrier : DataType → Option DataType
  | real => some .real
  | integer | unsignedInt => some .integer
  | string | enumeration | filename => some .string
  | stringArray => some .stringArray
  | boolean => some .boolean
  | onOff => some .onOff
  | object => some .object
  | matrix => some .matrix
  | objectArray | vector | unknown => none

/-- The value is of the form that the type demands. -/
def DataType.Admits (t : DataType) (v : Value) : Prop :=
  t.carrier = some v.dataType

instance (t : DataType) (v : Value) : Decidable (t.Admits v) :=
  inferInstanceAs (Decidable (t.carrier = some v.dataType))

/-- The properties that the builtin Parameters read as they are. -/
def ParameterKind.measures : List String :=
  builtin.filterMap fun k =>
    match k.quantity with
    | .field property => some property
    | _ => none

/-! ### Properties -/

namespace Property

variable {given : String → Prop} {p : Property} {v stored : Value} {object : String}

/-- The property can be written and holds a value of its type. An enumeration is restricted to some
texts, and it holds one of them or one that it was given unchecked. What a Parameter reads under the
key is a real. -/
structure Typed (given : String → Prop) (key : String) (p : Property) : Prop where
  admits : p.dataType.Admits p.value
  signed : p.dataType ≠ .unsignedInt
  writable : p.readOnly = false
  restricted : p.dataType = .enumeration → p.accepted ≠ []
  accepted : p.dataType = .enumeration → ∀ text, p.value = .string text → text ∈ p.accepted ∨ given text
  measured : key ∈ ParameterKind.measures → p.dataType = .real

/-- What is converted to the type of a property is of that type. -/
theorem admits_convert (hType : p.dataType.carrier.isSome = true) (h : p.convert object v = .ok stored) :
    p.dataType.Admits stored := by
  cases hCase : p.dataType <;> simp only [convert, hCase] at h
  case objectArray | vector | unknown =>
    rw [hCase] at hType
    cases hType
  case real | integer | string | filename | object | matrix =>
    split at h
    · cases h
      rfl
    · cases h
  case unsignedInt | enumeration =>
    split at h
    · cases h
    · split at h
      · cases h
        rfl
      · cases h
  case onOff =>
    split at h
    · cases h
      rfl
    · cases h
  case stringArray =>
    split at h
    · cases h
      rfl
    · cases h
      rfl
    · cases h
  case boolean =>
    split at h
    · cases h
      rfl
    · split at h
      · cases h
        rfl
      · cases h
    · cases h

/-- What is converted to an enumeration is a text that it accepts. -/
theorem accepted_convert (hType : p.dataType = .enumeration) (hRestricted : p.accepted ≠ [])
    (h : p.convert object v = .ok stored) : ∃ text ∈ p.accepted, stored = .string text := by
  simp only [convert, hType] at h
  split at h
  · cases h
  · next text _ =>
      split at h
      · next hAccepted =>
          cases h
          refine ⟨text, ?_, rfl⟩
          simpa [List.isEmpty_iff, hRestricted] using hAccepted
      · cases h

/-- A value that has been converted is written. -/
theorem Typed.write {key : String} (hp : p.Typed given key) (h : p.convert object v = .ok stored) :
    ({ p with value := stored } : Property).Typed given key where
  admits := admits_convert (by rw [hp.admits]; rfl) h
  signed := hp.signed
  writable := hp.writable
  restricted := hp.restricted
  accepted hType text hText := by
    obtain ⟨written, hWritten, rfl⟩ := accepted_convert hType (hp.restricted hType) h
    cases hText
    exact .inl hWritten
  measured := hp.measured

/-- Following a rename changes names only. -/
theorem Typed.renameReferences {key : String} (hp : p.Typed given key) (old new : String) :
    (p.renameReferences old new).Typed given key := by
  have hKeep : ∀ {v : Value}, v.dataType = p.value.dataType → (∀ text, v ≠ .string text) →
      ({ p with value := v } : Property).Typed given key := by
    intro v hv hText
    refine ⟨?_, hp.signed, hp.writable, hp.restricted, fun _ text hIs => absurd hIs (hText text), hp.measured⟩
    change p.dataType.carrier = some v.dataType
    rw [hv]
    exact hp.admits
  unfold Property.renameReferences
  split
  · next name hValue =>
      split
      · exact hKeep (by rw [hValue]; rfl) nofun
      · exact hp
  · next items hValue => exact hKeep (by rw [hValue]; rfl) nofun
  · exact hp

end Property

/-! ### What objects hold -/

/-- The matrix has entries. -/
def Matrix.Filled (m : Matrix) : Prop :=
  0 < m.rows ∧ 0 < m.cols

/-- What an object holds is of one form with what it held. A size that has been set stays. -/
inductive Content.Becomes : Content → Content → Prop
  | plain : Becomes .plain .plain
  | variable (x y : Float) : Becomes (.variable x) (.variable y)
  | unsized {values : Option Matrix} (filled : ∀ m ∈ values, m.Filled) : Becomes (.array none) (.array values)
  | array {m m' : Matrix} (dims : m'.dims = m.dims) : Becomes (.array (some m)) (.array (some m'))
  | text (s t : String) : Becomes (.text s) (.text t)
  | parameter {p q : SystemParameter} (kind : q.kind = p.kind) : Becomes (.parameter p) (.parameter q)

namespace Content.Becomes

variable {c c' c'' : Content}

theorem refl (c : Content) : c.Becomes c := by
  cases c with
  | plain => exact .plain
  | «variable» x => exact .variable x x
  | array values =>
    cases values with
    | none => exact .unsized (by simp)
    | some m => exact .array rfl
  | text s => exact .text s s
  | parameter p => exact .parameter rfl

theorem trans (h : c.Becomes c') (h' : c'.Becomes c'') : c.Becomes c'' := by
  cases h with
  | plain => exact h'
  | «variable» x y =>
    cases h' with
    | «variable» _ z => exact .variable x z
  | unsized filled =>
    cases h' with
    | unsized filled' => exact .unsized filled'
    | @array m m' dims =>
      refine .unsized fun n hn => ?_
      cases hn
      obtain ⟨hRows, hCols⟩ := Prod.mk.inj dims
      rw [Matrix.Filled, hRows, hCols]
      exact filled m rfl
  | array dims =>
    cases h' with
    | array dims' => exact .array (dims'.trans dims)
  | text s t =>
    cases h' with
    | text _ u => exact .text s u
  | parameter kind =>
    cases h' with
    | parameter kind' => exact .parameter (kind'.trans kind)

theorem plain_iff (h : c.Becomes c') : c' = .plain ↔ c = .plain := by
  cases h <;> simp

end Content.Becomes

namespace Object

variable {given : String → Prop} {o o' o'' : Object}

/-- The two objects are of one type and hold something of one form. -/
structure SameForm (o o' : Object) : Prop where
  typeName : o'.typeName = o.typeName
  objectType : o'.objectType = o.objectType
  content : o.content.Becomes o'.content

theorem SameForm.refl (o : Object) : o.SameForm o :=
  ⟨rfl, rfl, .refl _⟩

theorem SameForm.trans (h : o.SameForm o') (h' : o'.SameForm o'') : o.SameForm o'' :=
  ⟨h'.typeName.trans h.typeName, h'.objectType.trans h.objectType, h.content.trans h'.content⟩

/-- Accessors tell objects of one form apart by nothing. -/
theorem SameForm.kind (h : o.SameForm o') : WholeKind.of o' = WholeKind.of o := by
  have hContent := h.content
  unfold WholeKind.of isVariable isArray isStringObject isParameter
  rw [h.objectType]
  generalize o.content = c at hContent ⊢
  generalize o'.content = c' at hContent ⊢
  cases hContent with
  | parameter hKind => simp [hKind]
  | _ => rfl

/-- The types of the objects that hold something. -/
def holderTypes : List String :=
  "Variable" :: "Array" :: "String" :: ParameterKind.builtin.map ParameterKind.typeName

/-- The category of the objects of a type. -/
def typeOf (typeName : String) : ObjectType :=
  if typeName ∈ holderTypes then .parameter
  else if typeName ∈ Catalog.axisTypes then .axisSystem
  else
    match typeName with
    | "Spacecraft" => .spacecraft
    | "ImpulsiveBurn" => .burn
    | "SolarSystem" => .solarSystem
    | "CelestialBody" => .celestialBody
    | "LibrationPoint" => .calculatedPoint
    | "ForceModel" => .forceModel
    | "GravityField" | "SolarRadiationPressure" => .physicalModel
    | "PropSetup" => .propSetup
    | "RungeKutta89" => .propagator
    | "CoordinateSystem" => .coordinateSystem
    | "ReportFile" => .subscriber
    | _ => .unknown

/-- The types of the properties. -/
def types (o : Object) : Table DataType :=
  o.properties.map Property.dataType

/-- What holds of the objects of the catalogue, and of the Parameters that are made for them, for
good. -/
structure Catalogued (given : String → Prop) (o : Object) : Prop where
  properties : ∀ entry ∈ o.properties.entries, entry.2.Typed given entry.1
  axes : o.objectType = .coordinateSystem → (o.types.index? "Axes").bind o.types.getAt? = some .string
  plain : o.content = .plain ↔ o.typeName ∉ holderTypes
  type : o.objectType = typeOf o.typeName
  kind : ∀ {p}, o.content = .parameter p → p.kind ∈ ParameterKind.builtin
  sized : ∀ {m}, o.content = .array (some m) → m.Filled

theorem Catalogued.sameForm (h : o.Catalogued given) (hForm : o.SameForm o')
    (hTypes : o'.types = o.types)
    (hProperties : ∀ entry ∈ o'.properties.entries, entry.2.Typed given entry.1) : o'.Catalogued given where
  properties := hProperties
  axes hType := by
    rw [hTypes]
    exact h.axes (hForm.objectType ▸ hType)
  plain := by rw [hForm.content.plain_iff, hForm.typeName, h.plain]
  type := by rw [hForm.objectType, hForm.typeName, h.type]
  kind {p} hContent := by
    have hBecomes := hForm.content
    rw [hContent] at hBecomes
    cases hOld : o.content with
    | parameter q =>
      rw [hOld] at hBecomes
      cases hBecomes with
      | parameter hKind =>
        rw [hKind]
        exact h.kind hOld
    | _ => rw [hOld] at hBecomes; cases hBecomes
  sized {m} hContent := by
    have hBecomes := hForm.content
    rw [hContent] at hBecomes
    cases hOld : o.content with
    | array values =>
      rw [hOld] at hBecomes
      cases hBecomes with
      | unsized filled => exact filled m rfl
      | @array n _ dims =>
        obtain ⟨hRows, hCols⟩ := Prod.mk.inj dims
        rw [Matrix.Filled, hRows, hCols]
        exact h.sized hOld
    | _ => rw [hOld] at hBecomes; cases hBecomes

/-- Only Parameters hold something. -/
theorem Catalogued.content_of_type (h : o.Catalogued given) (hType : o.isParameter = false) :
    o.content = .plain := by
  refine h.plain.mpr fun hName => ?_
  have hParameter : typeOf o.typeName = .parameter := if_pos hName
  rw [isParameter, h.type, hParameter] at hType
  cases hType

theorem Catalogued.of_getAt? (h : o.Catalogued given) {i : Nat} {p : Property}
    (hAt : o.properties.getAt? i = some p) : p.dataType.Admits p.value := by
  obtain ⟨entry, hEntry, rfl⟩ := Option.map_eq_some_iff.mp hAt
  exact (h.properties entry (List.mem_of_getElem? hEntry)).admits

/-! ### Writing -/

theorem Takes.sameForm (h : o.Takes o') : o.SameForm o' := by
  cases h with
  | property => exact ⟨rfl, rfl, .refl _⟩
  | real y held => exact ⟨rfl, rfl, held ▸ .variable _ _⟩
  | text t held => exact ⟨rfl, rfl, held ▸ .text _ _⟩
  | array held dims => exact ⟨rfl, rfl, held ▸ .array dims⟩

theorem Takes.types (h : o.Takes o') : o'.types = o.types := by
  cases h with
  | property there converted =>
    refine congrArg Table.mk (List.ext_getElem? fun j => ?_)
    simp only [Table.modifyAt, List.getElem?_map, List.getElem?_modify]
    split <;> cases o.properties.entries[j]? <;> rfl
  | _ => rfl

theorem Catalogued.takes (ho : o.Catalogued given) (h : o.Takes o') : o'.Catalogued given := by
  refine ho.sameForm h.sameForm h.types fun entry hEntry => ?_
  cases h with
  | property there converted =>
    rcases Table.mem_modifyAt hEntry with hOld | ⟨q, hq, hAt, hNew⟩
    · exact ho.properties entry hOld
    · rw [there] at hAt
      cases hAt
      rw [hNew]
      exact (ho.properties _ hq).write converted
  | _ => exact ho.properties entry hEntry

theorem sameForm_resize {rows cols : Nat} (h : o.resize rows cols = .ok o') :
    o.SameForm o' ∧ o'.properties = o.properties := by
  unfold resize at h
  split at h
  · cases h
  · next hContent =>
      split at h
      · cases h
      · next hPositive =>
          cases h
          have hFilled : (Matrix.zero rows cols).Filled := by
            simp only [Bool.or_eq_true, decide_eq_true_eq, not_or] at hPositive
            exact ⟨Nat.pos_of_ne_zero hPositive.1, Nat.pos_of_ne_zero hPositive.2⟩
          refine ⟨⟨rfl, rfl, hContent ▸ .unsized fun m hm => ?_⟩, rfl⟩
          cases hm
          exact hFilled
  · cases h

theorem Catalogued.keep (ho : o.Catalogued given) (h : o.SameForm o' ∧ o'.properties = o.properties) :
    o'.Catalogued given := by
  refine ho.sameForm h.1 (congrArg (Table.map Property.dataType) h.2) ?_
  rw [h.2]
  exact ho.properties

theorem sameForm_renameReferences (o : Object) (old new : String) :
    o.SameForm (o.renameReferences old new) := by
  rcases o with ⟨name, typeName, objectType, properties, content⟩
  cases content with
  | parameter p => exact ⟨rfl, rfl, .parameter rfl⟩
  | _ => exact ⟨rfl, rfl, .refl _⟩

theorem types_renameReferences (o : Object) (old new : String) :
    (o.renameReferences old new).types = o.types := by
  have hType : ∀ p : Property, (p.renameReferences old new).dataType = p.dataType := by
    intro p
    unfold Property.renameReferences
    split
    · split <;> rfl
    · rfl
    · rfl
  simp [types, Object.renameReferences, Table.map, hType]

theorem Catalogued.renameReferences (ho : o.Catalogued given) (old new : String) :
    (o.renameReferences old new).Catalogued given := by
  refine ho.sameForm (sameForm_renameReferences o old new) (types_renameReferences o old new)
    fun entry hEntry => ?_
  obtain ⟨old, hOld, rfl⟩ := List.mem_map.mp hEntry
  exact (ho.properties old hOld).renameReferences _ _

end Object

end Mission
