import Mission.Proofs.Object.Typing

/-! The objects of the catalogue. Every property starts with a value of its type, every enumeration
with a text that it accepts, apart from the point of a libration point, which may be any text.
Objects may be written before they are added to a script. -/
namespace Mission

open Outcome Property Assembly List Object

variable {given : String → Prop}

/-! ### Properties -/

namespace Property

/-- The property can be written and holds a value of its type, a text that it accepts if it is an
enumeration, and a real if a Parameter reads it. -/
def isTyped (p : Property) : Bool :=
  p.dataType.Admits p.value && p.dataType ≠ .unsignedInt && !p.readOnly &&
    (match p.dataType, p.value with
      | .enumeration, .string text => p.accepted.contains text
      | _, _ => true) &&
    (!ParameterKind.measures.contains p.name || p.dataType = .real)

theorem typed_of_isTyped {p : Property} (h : p.isTyped = true) : p.Typed given p.name := by
  simp only [isTyped, Bool.and_eq_true, decide_eq_true_eq] at h
  obtain ⟨⟨⟨⟨hAdmits, hSigned⟩, hWritable⟩, hText⟩, hName⟩ := h
  have hAccepted : p.dataType = .enumeration → ∃ text, p.value = .string text ∧ text ∈ p.accepted := by
    intro hType
    rw [hType] at hAdmits hText
    cases hValue : p.value with
    | string text =>
      rw [hValue] at hText
      exact ⟨text, rfl, by simpa using hText⟩
    | _ => rw [hValue] at hAdmits; cases hAdmits
  refine ⟨hAdmits, hSigned, by simpa using hWritable, fun hType hNone => ?_, fun hType text hIs => ?_,
    fun hKey => ?_⟩
  · obtain ⟨text, -, hMem⟩ := hAccepted hType
    rw [hNone] at hMem
    cases hMem
  · obtain ⟨known, hValue, hMem⟩ := hAccepted hType
    rw [hValue] at hIs
    cases hIs
    exact .inl hMem
  · simpa [hKey] using hName

theorem typed_of_all {properties : List Property} (h : properties.all isTyped = true) :
    ∀ p ∈ properties, p.Typed given p.name :=
  fun p hp => typed_of_isTyped (all_eq_true.mp h p hp)

theorem typed_enumeration {name text : String} {accepted : List String} (hSome : accepted ≠ [])
    (hText : text ∈ accepted ∨ given text) (hName : name ∉ ParameterKind.measures) :
    (enumeration name text accepted).Typed given (enumeration name text accepted).name where
  admits := rfl
  signed := nofun
  writable := rfl
  restricted _ := hSome
  accepted _ other hOther := by
    cases hOther
    exact hText
  measured h := absurd h hName

end Property

/-! ### Objects and assemblies -/

namespace Assembly

/-- All objects of the assembly are as those of the catalogue. -/
def Catalogued (given : String → Prop) (a : Assembly) : Prop :=
  ∀ o ∈ a.objects, o.Catalogued given

variable {a part : Assembly} {o : Object}

theorem catalogued_mk {parts : List Assembly} :
    (mk o parts).Catalogued given ↔ o.Catalogued given ∧ ∀ a ∈ parts, a.Catalogued given :=
  forall_objects_mk

theorem catalogued_ofObject (h : o.Catalogued given) : (ofObject o).Catalogued given :=
  catalogued_mk.mpr ⟨h, by simp⟩

theorem Catalogued.object (h : a.Catalogued given) : a.object.Catalogued given := by
  cases a
  exact (catalogued_mk.mp h).1

theorem Catalogued.parts (h : a.Catalogued given) : ∀ part ∈ a.parts, part.Catalogued given :=
  forall_parts h

theorem Catalogued.withObject (h : a.Catalogued given) (ho : o.Catalogued given) :
    (a.withObject o).Catalogued given :=
  catalogued_mk.mpr ⟨ho, h.parts⟩

theorem Catalogued.withPart (h : a.Catalogued given) (hPart : part.Catalogued given) :
    (a.withPart part).Catalogued given := by
  refine catalogued_mk.mpr ⟨h.object, fun b hb => ?_⟩
  rcases mem_append.mp hb with hOld | hNew
  · exact h.parts b hOld
  · rw [mem_singleton.mp hNew]
    exact hPart

end Assembly

namespace Catalog

variable {typeName name : String} {a : Assembly}

/-- The object that is described by properties has these properties. -/
theorem foldl_withProperty (properties : List Property) (o : Object) :
    (properties.foldl withProperty o).typeName = o.typeName ∧
    (properties.foldl withProperty o).objectType = o.objectType ∧
    (properties.foldl withProperty o).content = o.content ∧
    ∀ entry ∈ (properties.foldl withProperty o).properties.entries,
      entry ∈ o.properties.entries ∨ ∃ p ∈ properties, entry = (p.name, p) := by
  induction properties generalizing o with
  | nil => simp
  | cons p rest ih =>
    obtain ⟨hName, hType, hContent, hEntries⟩ := ih (o.withProperty p)
    refine ⟨hName, hType, hContent, fun entry hEntry => ?_⟩
    rcases hEntries entry hEntry with hFirst | ⟨q, hq, rfl⟩
    · rcases Table.mem_insert hFirst with rfl | hOld
      · exact .inr ⟨p, mem_cons_self, rfl⟩
      · exact .inl hOld
    · exact .inr ⟨q, mem_cons_of_mem p hq, rfl⟩

theorem catalogued_plain (name : String) {typeName : String} {objectType : ObjectType}
    {properties : List Property} (hName : typeName ∉ holderTypes) (hType : objectType = typeOf typeName)
    (hAxes : let types := (plain name typeName objectType properties).types
      objectType = .coordinateSystem → (types.index? "Axes").bind types.getAt? = some .string)
    (hProperties : ∀ p ∈ properties, p.Typed given p.name) :
    (plain name typeName objectType properties).Catalogued given := by
  obtain ⟨hSameName, hSameType, hContent, hEntries⟩ :=
    foldl_withProperty properties { name, typeName, objectType }
  refine ⟨fun entry hEntry => ?_, fun hIs => hAxes (hSameType.symm.trans hIs), ?_, ?_, ?_, ?_⟩
  · rcases hEntries entry hEntry with hNone | ⟨p, hp, rfl⟩
    · cases hNone
    · exact hProperties p hp
  · rw [plain, hContent, hSameName]
    simp [hName]
  · rw [plain, hSameType, hSameName]
    exact hType
  · intro p hParameter
    rw [plain, hContent] at hParameter
    cases hParameter
  · intro m hArray
    rw [plain, hContent] at hArray
    cases hArray

theorem catalogued_holder (name : String) {content : Content} (hName : typeName ∈ holderTypes)
    (hContent : content ≠ .plain) (hKind : ∀ p, content ≠ .parameter p)
    (hSized : ∀ m, content = .array (some m) → m.Filled) :
    (holder name typeName content).Catalogued given := by
  apply catalogued_ofObject
  refine ⟨by simp, nofun, ?_, ?_, fun h => absurd h (hKind _), fun h => hSized _ h⟩
  · simp [hName, hContent]
  · exact (if_pos hName).symm

/-- An assembly of the catalogue, as it may be when it is added to a script. Libration points are at
the points that their type accepts or at those that are given. -/
inductive Builds (given : String → Prop) : Assembly → Prop
  | spacecraft (name : String) : Builds given (spacecraft name)
  | impulsiveBurn (name : String) : Builds given (impulsiveBurn name)
  | userVariable (name : String) (x : Float) : Builds given (userVariable name x)
  | userArray (name : String) (rows cols : Nat) : Builds given (userArray name rows cols)
  | unsizedArray (name : String) : Builds given (unsizedArray name)
  | userString (name text : String) : Builds given (userString name text)
  | celestialBody (name : String) (mu radius : Float) : Builds given (celestialBody name mu radius)
  | solarSystem : Builds given solarSystem
  | forceModel (name : String) : Builds given (forceModel name)
  | propSetup (name : String) : Builds given (propSetup name)
  | axisSystem {axisType : String} {a : Assembly} (known : axisSystem axisType = .ok a) : Builds given a
  | coordinateSystem {name origin : String} {axes : Option String} {a : Assembly}
      (known : coordinateSystem name origin axes = .ok a) : Builds given a
  | librationPoint (name primary secondary : String) {point : String}
      (known : point ∈ ["L1", "L2", "L3", "L4", "L5"] ∨ given point) :
      Builds given (librationPoint name primary secondary point)
  | reportFile (name : String) : Builds given (reportFile name)
  | withPart {a part : Assembly} (whole : Builds given a) (added : Builds given part) :
      Builds given (a.withPart part)
  | set {a : Assembly} (built : Builds given a) {property : String} {v : Value} {o : Object}
      (written : a.object.set property v = .ok o) : Builds given (a.withObject o)
  | store {a : Assembly} (built : Builds given a) {v : Value} {o : Object}
      (written : a.object.store v = .ok o) : Builds given (a.withObject o)
  | resize {a : Assembly} (built : Builds given a) {rows cols : Nat} {o : Object}
      (sized : a.object.resize rows cols = .ok o) : Builds given (a.withObject o)

theorem builds_create (h : create typeName name = .ok a) : Builds given a := by
  unfold create at h
  split at h
  · cases h
    exact .spacecraft name
  · cases h
    exact .impulsiveBurn name
  · cases h
    exact .userVariable name _
  · cases h
    exact .unsizedArray name
  · cases h
    exact .userString name _
  · cases h
    exact .forceModel name
  · cases h
    exact .propSetup name
  · cases h
    exact .propSetup name
  · exact .coordinateSystem h
  · cases h
    exact .librationPoint name _ _ (.inl (by simp))
  · cases h
    exact .reportFile name
  · cases h

theorem catalogued_celestialBody (name : String) (mu radius : Float) :
    (celestialBody name mu radius).Catalogued given := by
  apply catalogued_ofObject
  exact catalogued_plain name (by decide) (by decide) nofun (typed_of_all rfl)

theorem catalogued_axisSystem {axisType : String} (h : axisSystem axisType = .ok a) : a.Catalogued given := by
  unfold axisSystem at h
  split at h
  · next hKnown =>
      cases h
      have hApart : ∀ t ∈ axisTypes, t ∉ holderTypes ∧ .axisSystem = typeOf t := by decide
      obtain ⟨hName, hType⟩ := hApart axisType (by simpa using hKnown)
      exact catalogued_ofObject (catalogued_plain axisType hName hType nofun (typed_of_all rfl))
  · cases h

theorem catalogued_coordinateSystem {origin : String} {axes : Option String}
    (h : coordinateSystem name origin axes = .ok a) : a.Catalogued given := by
  have hSystem (properties : String) : (plain name "CoordinateSystem" .coordinateSystem
      [.reference "Origin" .spacePoint origin, .string "Axes" properties]).Catalogued given :=
    catalogued_plain name (by decide) (by decide) (fun _ => rfl) (typed_of_all rfl)
  unfold coordinateSystem at h
  cases axes with
  | none =>
    cases h
    exact catalogued_mk.mpr ⟨hSystem _, by simp⟩
  | some axisType =>
    obtain ⟨axes, hAxes, h⟩ := bind_eq_ok.mp h
    cases h
    refine catalogued_mk.mpr ⟨hSystem _, fun part hPart => ?_⟩
    rw [mem_singleton.mp hPart]
    exact catalogued_axisSystem hAxes

theorem catalogued_librationPoint (name primary secondary : String) {point : String}
    (h : point ∈ ["L1", "L2", "L3", "L4", "L5"] ∨ given point) :
    (librationPoint name primary secondary point).Catalogued given := by
  apply catalogued_ofObject
  refine catalogued_plain name (by decide) (by decide) nofun ?_
  have hPoint : (enumeration "Point" point ["L1", "L2", "L3", "L4", "L5"]).Typed given "Point" :=
    typed_enumeration (by simp) h (by decide)
  have hBodies : ∀ p ∈ [reference "Primary" .spacePoint primary,
      .reference "Secondary" .spacePoint secondary], p.Typed given p.name :=
    typed_of_all rfl
  simp only [forall_mem_cons] at hBodies ⊢
  exact ⟨hBodies.1, hBodies.2.1, hPoint, by simp⟩

/-- Whatever is taken from the catalogue is as it should be. -/
theorem Builds.catalogued (h : Builds given a) : a.Catalogued given := by
  induction h with
  | spacecraft name | impulsiveBurn name | reportFile name =>
    apply catalogued_ofObject
    exact catalogued_plain name (by decide) (by decide) nofun (typed_of_all rfl)
  | userVariable name x => exact catalogued_holder name (by decide) (by simp) (by simp) (by simp)
  | userArray name rows cols =>
    refine catalogued_holder name (by decide) (by simp) (by simp) fun m hArray => ?_
    split at hArray
    · cases hArray
    · next hPositive =>
        cases hArray
        simp only [Bool.or_eq_true, decide_eq_true_eq, not_or] at hPositive
        exact ⟨Nat.pos_of_ne_zero hPositive.1, Nat.pos_of_ne_zero hPositive.2⟩
  | unsizedArray name | userString name text =>
    exact catalogued_holder name (by decide) (by simp) (by simp) (by simp)
  | celestialBody name mu radius => exact catalogued_celestialBody name mu radius
  | solarSystem =>
    refine catalogued_mk.mpr
      ⟨catalogued_plain _ (by decide) (by decide) nofun (typed_of_all rfl), fun a ha => ?_⟩
    simp only [mem_cons, not_mem_nil, or_false] at ha
    rcases ha with rfl | rfl | rfl | rfl <;> exact catalogued_celestialBody _ _ _
  | forceModel name =>
    refine catalogued_mk.mpr
      ⟨catalogued_plain name (by decide) (by decide) nofun (typed_of_all rfl), fun a ha => ?_⟩
    simp only [mem_cons, not_mem_nil, or_false] at ha
    rcases ha with rfl | rfl
    · apply catalogued_ofObject
      exact catalogued_plain _ (by decide) (by decide) nofun (typed_of_all rfl)
    · apply catalogued_ofObject
      exact catalogued_plain _ (by decide) (by decide) nofun (typed_of_all rfl)
  | propSetup name =>
    refine catalogued_mk.mpr
      ⟨catalogued_plain name (by decide) (by decide) nofun (typed_of_all rfl), fun a ha => ?_⟩
    rw [mem_singleton.mp ha]
    apply catalogued_ofObject
    exact catalogued_plain _ (by decide) (by decide) nofun (typed_of_all rfl)
  | axisSystem known => exact catalogued_axisSystem known
  | coordinateSystem known => exact catalogued_coordinateSystem known
  | librationPoint name primary secondary known =>
    exact catalogued_librationPoint name primary secondary known
  | withPart _ _ ihWhole ihPart => exact ihWhole.withPart ihPart
  | set _ written ih => exact ih.withObject (ih.object.takes (takes_set written))
  | store _ written ih => exact ih.withObject (ih.object.takes (takes_store written))
  | resize _ sized ih => exact ih.withObject (ih.object.keep (sameForm_resize sized))

end Catalog

end Mission
