import Mission.Accessor.Basic
import Mission.Proofs.Registry.Lookup
import Mission.Proofs.Text.Blank
import Mission.Workspace

/-! Bindings of properties and what becomes of them. A property is bound when its text is classified: the
owner is looked up among the names in scope and the property among the properties of the owner and its
parts. Later the same names may lead elsewhere. The main result says when they do not: exactly as long as
the object that was found is still the owner or one of its parts and still has the property there. -/
namespace Mission

open Registry Text Option List Name Workspace

namespace Name

theorem mem_stripIndex {name : String} {c : Char} (h : c ∈ (stripIndex name).toList) : c ∈ name.toList := by
  rw [stripIndex, String.toList_ofList] at h
  have hStart := (stripEnd_isPrefix _).subset h
  exact (List.takeWhile_prefix _).subset ((dropWhile_suffix _).subset hStart)

theorem dot_not_mem_stripIndex {name : String} (h : '.' ∉ name.toList) :
    '.' ∉ (stripIndex name).toList :=
  fun hMem => h (mem_stripIndex hMem)

theorem trim_stripIndex (name : String) : trim (stripIndex name) = stripIndex name := by
  have hTrim : stripIndex name = trim (String.ofList (name.toList.takeWhile fun c => c ≠ '(' && c ≠ '[')) :=
    by rw [stripIndex, trim, String.toList_ofList]
  rw [hTrim, trim_trim]

theorem trim_of_stripIndex {name : String} (h : stripIndex name = name) : trim name = name :=
  h ▸ trim_stripIndex name

/-- A name without blanks around it, of name characters only, has no index to be stripped. -/
theorem stripIndex_trim {text : String} (h : (trim text).toList.all isNameChar = true) :
    stripIndex (trim text) = trim text := by
  have hAll : (trim text).toList.takeWhile (fun c => c ≠ '(' && c ≠ '[') =
      (trim text).toList := by
    refine takeWhile_eq_self_iff.mpr fun c hc => ?_
    have hChar := all_eq_true.mp h c hc
    by_cases hOpen : c = '(' ∨ c = '['
    · rcases hOpen with rfl | rfl <;> cases hChar
    · simpa using hOpen
  calc stripIndex (trim text)
      _ = String.ofList (strip (trim text).toList) := by rw [stripIndex, hAll]
      _ = trim text := trim_trim text

end Name

namespace Store

/-- The names of a store belong to different objects that are part of nothing and know their names.
None of them is the solar system. -/
structure Sound (s : Store) (r : Registry) : Prop where
  root : ∀ {name id}, (name, id) ∈ s.objects.entries → r.Root id
  name : ∀ {name id}, (name, id) ∈ s.objects.entries → (r.object id).name = name
  distinct : s.objects.values.Nodup
  system : ∀ {id}, s.solarSystem = some id → r.Root id ∧ (r.object id).name = "SolarSystem"
  apart : ∀ {id}, s.solarSystem = some id → id ∉ s.objects.values

theorem Sound.later {s : Store} {r r' : Registry} {system : Option ObjectId} (hSound : s.Sound r)
    (h : Evolves system r r') : s.Sound r' where
  root hMem := (hSound.root hMem).later h
  name hMem := (h.name (hSound.root hMem).has).trans (hSound.name hMem)
  distinct := hSound.distinct
  system hSystem :=
    ⟨(hSound.system hSystem).1.later h,
      (h.name (hSound.system hSystem).1.has).trans (hSound.system hSystem).2⟩
  apart := hSound.apart

end Store

namespace Scope

/-- The solar system of the scope. -/
def system (s : Scope) : Option ObjectId :=
  s.store.solarSystem <|> s.outer.bind Store.solarSystem

/-- The object that a store in scope gives exactly this name. -/
def named? (s : Scope) (name : String) : Option ObjectId :=
  s.store.objects.get? name <|> s.outer.bind fun outer => outer.objects.get? name

/-- The stores are sound, and that of a function has no solar system of its own. -/
structure Sound (s : Scope) (r : Registry) : Prop where
  store : s.store.Sound r
  outer : ∀ {outer}, s.outer = some outer → outer.Sound r ∧ s.store.solarSystem = none

theorem Sound.later {s : Scope} {r r' : Registry} {system : Option ObjectId} (hSound : s.Sound r)
    (h : Evolves system r r') : s.Sound r' where
  store := hSound.store.later h
  outer hOuter := ⟨(hSound.outer hOuter).1.later h, (hSound.outer hOuter).2⟩

theorem Sound.system_root {s : Scope} {r : Registry} (hSound : s.Sound r) {id : ObjectId}
    (h : s.system = some id) : r.Root id ∧ (r.object id).name = "SolarSystem" := by
  unfold system at h
  cases hOuter : s.outer with
  | none =>
    exact hSound.store.system (by simpa [hOuter] using h)
  | some outer =>
    obtain ⟨hStore, hNone⟩ := hSound.outer hOuter
    rw [hOuter, hNone] at h
    exact hStore.system h

theorem Sound.named {s : Scope} {r : Registry} (hSound : s.Sound r) {name : String} {id : ObjectId}
    (h : s.named? name = some id) : r.Root id ∧ (r.object id).name = name := by
  unfold named? at h
  cases hHere : s.store.objects.get? name with
  | some here =>
    rw [hHere] at h
    cases h
    exact ⟨hSound.store.root (Table.mem_of_get? hHere), hSound.store.name (Table.mem_of_get? hHere)⟩
  | none =>
    rw [hHere] at h
    obtain ⟨outer, hOuter, hThere⟩ := bind_eq_some_iff.mp h
    have hStore := (hSound.outer hOuter).1
    exact ⟨hStore.root (Table.mem_of_get? hThere), hStore.name (Table.mem_of_get? hThere)⟩

/-- A name leads to the solar system, to an object that a store gives this name, or to a body. -/
theorem Sound.find?_eq {s : Scope} {r : Registry} (hSound : s.Sound r) (name : String) :
    s.find? r name =
      if stripIndex name = "SolarSystem" then s.system
      else s.named? (stripIndex name) <|>
        s.system.bind fun system => r.findOwned system (stripIndex name) := by
  unfold find? Store.find? system named?
  cases hOuter : s.outer with
  | none =>
    by_cases hName : stripIndex name = "SolarSystem"
    · simp [hName]
    · simp [hName]
  | some outer =>
    obtain ⟨-, hNone⟩ := hSound.outer hOuter
    rw [hNone]
    by_cases hName : stripIndex name = "SolarSystem"
    · simp [hName]
    · simp [hName, Option.or_assoc]

end Scope

namespace Workspace

variable {w w' : Workspace} {name : String} {t : ObjectType} {id id' : ObjectId}

/-- The solar system of the workspace. -/
def system (w : Workspace) : Option ObjectId :=
  w.scope.system

structure Sound (w : Workspace) : Prop where
  forest : w.registry.Forest
  scope : w.scope.Sound w.registry

/-- What becomes of a workspace: its objects evolve, and names are added for Parameters only, which have
a dot in their names. -/
structure Extends (w w' : Workspace) : Prop where
  registry : Evolves w.system w.registry w'.registry
  system : w'.system = w.system
  named : ∀ {name : String}, '.' ∉ name.toList → w'.scope.named? name = w.scope.named? name
  outer : w'.scope.outer = w.scope.outer

theorem Extends.refl (w : Workspace) : w.Extends w :=
  ⟨.refl _ _, rfl, fun _ => rfl, rfl⟩

theorem Extends.trans {w'' : Workspace} (h : w.Extends w') (h' : w'.Extends w'') :
    w.Extends w'' where
  registry := h.registry.trans (h.system ▸ h'.registry)
  system := h'.system.trans h.system
  named hName := (h'.named hName).trans (h.named hName)
  outer := h'.outer.trans h.outer

theorem find?_of_findOfType? (h : w.findOfType? name t = some id) : w.find? name = some id := by
  unfold findOfType? Scope.findOfType? at h
  exact (filter_eq_some_iff.mp h).1

theorem isOfType_of_findOfType? (h : w.findOfType? name t = some id) :
    (w.registry.object id).isOfType t = true := by
  unfold findOfType? Scope.findOfType? at h
  exact (filter_eq_some_iff.mp h).2

theorem objectType_of_findOfType? (h : w.findOfType? name .coordinateSystem = some id) :
    (w.registry.object id).objectType = .coordinateSystem := by
  simpa [Object.isOfType, ObjectType.isA] using isOfType_of_findOfType? h

/-- What a name without a dot leads to, now and later. Either it is a name of its own, and then it leads
to the same object for good, or it is that of a body of the solar system. -/
theorem Sound.find?_later (hSound : w.Sound) (h : w.Extends w') (hSound' : w'.Sound)
    (hName : '.' ∉ name.toList) (hFind : w.find? name = some id) (hFind' : w'.find? name = some id') :
    w.registry.Root id ∧ id' = id ∨
      ∃ system, w.registry.Root system ∧ id ∈ w.registry.owned system ∧
        id' ∈ w'.registry.owned system := by
  have hSystem : w'.scope.system = w.scope.system := h.system
  rw [find?, hSound.scope.find?_eq] at hFind
  rw [find?, hSound'.scope.find?_eq, hSystem, h.named (dot_not_mem_stripIndex hName)] at hFind'
  split at hFind
  · next hHere =>
      rw [if_pos hHere, hFind] at hFind'
      cases hFind'
      exact .inl ⟨(hSound.scope.system_root hFind).1, rfl⟩
  · next hElse =>
      rw [if_neg hElse] at hFind'
      cases hNamed : w.scope.named? (stripIndex name) with
      | some x =>
        rw [hNamed] at hFind hFind'
        cases hFind
        cases hFind'
        exact .inl ⟨(hSound.scope.named hNamed).1, rfl⟩
      | none =>
        rw [hNamed] at hFind hFind'
        obtain ⟨system, hIs, hBody⟩ := bind_eq_some_iff.mp hFind
        rw [hIs] at hFind'
        exact .inr ⟨system, (hSound.scope.system_root hIs).1, mem_of_find?_eq_some hBody,
          mem_of_find?_eq_some hFind'⟩

/-- What a name leads to, now or later, is no part of what it leads to now or later. -/
theorem Sound.not_part_later (hSound : w.Sound) (h : w.Extends w')
    (hLater : w.registry.Root id ∧ id' = id ∨ ∃ system, w.registry.Root system ∧
      id ∈ w.registry.owned system ∧ id' ∈ w'.registry.owned system) :
    id ∉ w.registry.owned id ∧ id ∉ w.registry.owned id' ∧ id' ∉ w.registry.owned id := by
  rcases hLater with ⟨hRoot, rfl⟩ | ⟨system, hRoot, hBody, hBody'⟩
  · exact ⟨hRoot.free _, hRoot.free _, hRoot.free _⟩
  · refine ⟨fun hMem => ?_, fun hMem => ?_, fun hMem => ?_⟩
    · rw [hSound.forest.once hMem hBody] at hBody
      exact hRoot.free _ hBody
    · rw [hSound.forest.once hMem hBody] at hBody'
      exact (hRoot.later h.registry).free _ hBody'
    · have hOld := h.registry.old_part (hSound.forest.has hMem) hBody'
      rw [hSound.forest.once hMem hOld] at hBody
      exact hRoot.free _ hBody

/-- Whatever a name leads to can be written as a whole. -/
theorem Sound.find?_whole (hSound : w.Sound) (h : w.find? name = some id) : Whole w.system w.registry id := by
  rw [find?, hSound.scope.find?_eq] at h
  split at h
  · exact (hSound.scope.system_root h).1.whole _
  · cases hNamed : w.scope.named? (stripIndex name) with
    | some x =>
      rw [hNamed] at h
      cases h
      exact (hSound.scope.named hNamed).1.whole _
    | none =>
      rw [hNamed] at h
      obtain ⟨system, hIs, hBody⟩ := bind_eq_some_iff.mp h
      have hMem : id ∈ w.registry.owned system := mem_of_find?_eq_some hBody
      refine ⟨hSound.forest.has hMem, fun owner hOwner => ?_⟩
      rw [hSound.forest.once hOwner hMem]
      exact hIs

/-- An object knows the name that led to it. -/
theorem Sound.name_of_find? (hSound : w.Sound) (h : w.find? name = some id) :
    (w.registry.object id).name = stripIndex name := by
  rw [find?, hSound.scope.find?_eq] at h
  split at h
  · next hName => rw [(hSound.scope.system_root h).2, hName]
  · cases hNamed : w.scope.named? (stripIndex name) with
    | some x =>
      rw [hNamed] at h
      cases h
      exact (hSound.scope.named hNamed).2
    | none =>
      rw [hNamed] at h
      obtain ⟨system, hIs, hBody⟩ := bind_eq_some_iff.mp h
      simpa using List.find?_some hBody

end Workspace

namespace PropertyRef

/-- The names of the reference lead to where it is bound. -/
def Fresh (p : PropertyRef) (s : Scope) (r : Registry) : Prop :=
  p.target.isSome = true ∧
    ((s.find? r p.owner).bind fun owner => r.findProperty owner p.part p.property) = p.target

instance (p : PropertyRef) (s : Scope) (r : Registry) : Decidable (p.Fresh s r) :=
  inferInstanceAs (Decidable (_ ∧ _))

/-- The object the reference is bound to is still the owner or one of its parts and still has the
property at the same place. If it is a body of the solar system, no body in front of it has such a
property. -/
def Attached (p : PropertyRef) (s : Scope) (r : Registry) : Prop :=
  ∃ owner c i, s.find? r p.owner = some owner ∧ p.target = some (c, i) ∧
    (r.object c).properties.index? p.property = some i ∧
    (c = owner ∨ c ∈ r.owned owner ∧
      (s.system = some owner →
        ∀ d ∈ (r.owned owner).takeWhile (· ≠ c), r.partProperty p.part p.property d = none))

theorem Fresh.attached {p : PropertyRef} {s : Scope} {r : Registry} (h : p.Fresh s r) :
    p.Attached s r := by
  obtain ⟨hSome, hBind⟩ := h
  obtain ⟨⟨c, i⟩, hTarget⟩ := isSome_iff_exists.mp hSome
  rw [hTarget] at hBind
  obtain ⟨owner, hOwner, hFound⟩ := bind_eq_some_iff.mp hBind
  rcases findProperty_eq_some hFound with ⟨-, rfl, hIndex⟩ | ⟨-, hPart⟩
  · exact ⟨c, c, i, hOwner, hTarget, hIndex, .inl rfl⟩
  · rw [findOwnedProperty_eq, List.findSome?_eq_some_iff] at hPart
    obtain ⟨front, a, behind, hSplit, ha, hNone⟩ := hPart
    obtain ⟨rfl, -, hIndex⟩ := partProperty_eq_some ha
    refine ⟨owner, a, i, hOwner, hTarget, hIndex, .inr ⟨?_, fun _ d hd => ?_⟩⟩
    · rw [hSplit]
      simp
    · refine hNone d ?_
      have hAhead : ∀ x ∈ front, decide (x ≠ a) = true := by
        intro x hx
        refine decide_eq_true ?_
        rintro rfl
        rw [hNone x hx] at ha
        cases ha
      rw [hSplit, takeWhile_append_of_pos hAhead] at hd
      simpa using hd

/-- A reference that was bound in a workspace is fresh in a later one exactly if it is attached. -/
theorem Fresh.fresh_iff_attached {p : PropertyRef} {w w' : Workspace} (hSound : w.Sound)
    (hSound' : w'.Sound) (h : w.Extends w') (hName : '.' ∉ p.owner.toList)
    (hFresh : p.Fresh w.scope w.registry) :
    p.Fresh w'.scope w'.registry ↔ p.Attached w'.scope w'.registry := by
  refine ⟨Fresh.attached, ?_⟩
  rintro ⟨owner', c, i, hOwner', hTarget, hIndex, hWhere⟩
  obtain ⟨-, hBind⟩ := hFresh
  rw [hTarget] at hBind
  obtain ⟨owner, hOwner, hFound⟩ := bind_eq_some_iff.mp hBind
  have hHas : w.registry.Has owner := (hSound.find?_whole hOwner).has
  obtain ⟨hSelf, hBelow, hAbove⟩ := hSound.not_part_later h
    (hSound.find?_later h hSound' hName hOwner hOwner')
  refine ⟨by rw [hTarget]; rfl, ?_⟩
  rw [hOwner', hTarget, bind_some]
  rcases findProperty_eq_some hFound with ⟨hEmpty, rfl, -⟩ | ⟨-, hPart⟩
  · -- The property is that of the owner itself, which no object of that name can have as a part.
    rcases hWhere with rfl | ⟨hMem, -⟩
    · exact findProperty_of_own hEmpty hIndex
    · exact absurd (h.registry.old_part hHas hMem) hBelow
  · -- The property is that of a part. If an object of that name still has it, it is the same object.
    have hMem : c ∈ w.registry.owned owner := by
      rw [findOwnedProperty_eq, List.findSome?_eq_some_iff] at hPart
      obtain ⟨front, a, behind, hSplit, ha, -⟩ := hPart
      rw [hSplit, (partProperty_eq_some ha).1]
      simp
    rcases hWhere with rfl | ⟨hMem', hFront⟩
    · exact absurd hMem hAbove
    · obtain rfl : owner = owner' :=
        hSound.forest.once hMem (h.registry.old_part (hSound.forest.has hMem) hMem')
      have hne : c ≠ owner := fun hSame => hSelf (hSame ▸ hMem)
      refine h.registry.findProperty_again hSound.forest hHas hne hFound hMem' hIndex fun hSystem => ?_
      exact hFront (h.system.trans hSystem)

end PropertyRef

end Mission
