import Mathlib.Data.List.Forall2
import Mission.Proofs.Classify.Locality
import Mission.Proofs.Parameter.Scoping
import Mission.Proofs.Store.Collision

/-! References under a rename. An object of the store that refers to the renamed object follows the
rename, and the parts of an object do not. So a reference of a part leads on to the object it led to
only where the rename takes no name from that object and gives its name to no other. The same goes
for a reference of an object that is written in another way than by the name alone. -/
namespace Mission

open Name Registry List Option

theorem Name.replace_whole {old new : String} (hOld : IsIdentifier old.toList) :
    replace old old new = new := by
  have hRef : isReference old.toList (List.getLast? []) (old.toList ++ []) = true := by simp [isReference]
  have hWhole : renamedFrom old.toList new.toList [] (old.toList ++ []) = _ := renamedFrom_replace hOld
    hRef rfl
  rw [append_nil] at hWhole
  rw [replace_eq_renamedFrom hOld, hWhole]
  simp [renamedFrom, replaceFrom]

namespace Object

variable {old new : String}

/-- A reference of an object after a rename. -/
def follow (old new : String) (reference : ObjectType × String) : ObjectType × String :=
  (reference.1, if reference.2 = old then new else reference.2)

theorem ne_empty_of_isValid {name : String} (h : isValid name = true) : name.isEmpty = false := by
  refine Bool.eq_false_iff.mpr fun hEmpty => ?_
  rw [String.isEmpty_iff.mp hEmpty] at h
  cases h

theorem reference?_renameReferences (hOld : isValid old = true) (hNew : isValid new = true)
    (p : Property) : (p.renameReferences old new).reference? = p.reference?.map (follow old new) := by
  obtain ⟨name, dataType, value, readOnly, refType, accepted⟩ := p
  cases value with
  | object target =>
    by_cases hTarget : target = old
    · subst hTarget
      cases refType <;>
        simp [Property.renameReferences, Property.reference?, follow, ne_empty_of_isValid hOld,
          ne_empty_of_isValid hNew]
    · cases refType with
      | none => simp [Property.renameReferences, Property.reference?, hTarget]
      | some t =>
        cases hEmpty : target.isEmpty <;>
          simp [Property.renameReferences, Property.reference?, follow, hTarget, hEmpty]
  | stringArray items => cases refType <;> rfl
  | absent | integer n | real x | string text | boolean flag | onOff flag | matrix m =>
    cases refType <;> rfl

theorem references_renamed (hOld : isValid old = true) (hNew : isValid new = true) (o : Object) :
    (o.renamed old new).references = o.references.map (follow old new) := by
  have hValues : (o.renamed old new).properties.values =
      o.properties.values.map fun p => p.renameReferences old new := by
    simp [renamed, renameReferences, Table.map, Table.values]
  rw [references, references, hValues, filterMap_map, map_filterMap]
  refine filterMap_congr fun p _ => ?_
  exact reference?_renameReferences hOld hNew p

end Object

namespace Store

theorem forall₂_map_append {α : Type} {R : α → α → Prop} {f : α → α} {xs ys : List α} :
    List.Forall₂ R (xs ++ ys) (xs.map f ++ ys) ↔ (∀ x ∈ xs, R x (f x)) ∧ ∀ y ∈ ys, R y y := by
  induction xs with
  | nil => simp
  | cons x rest ih => simp [ih, and_assoc]

variable {s s' : Store} {r r' : Registry} {old new name : String} {id target : ObjectId}

/-- The body of a name in the solar system. -/
def body? (s : Store) (r : Registry) (key : String) : Option ObjectId :=
  s.solarSystem.bind fun system => r.findOwned system key

theorem Sound.body?_not_mem (hSound : s.Sound r) {key : String} (h : s.body? r key = some id) :
    id ∉ s.objects.values := by
  intro hMem
  obtain ⟨⟨name, id⟩, hEntry, rfl⟩ := mem_map.mp hMem
  obtain ⟨system, -, hOwned⟩ := bind_eq_some_iff.mp h
  exact (hSound.root hEntry).free system (mem_of_find?_eq_some hOwned)

/-- A rename neither takes the name from an object nor gives it to one. -/
def Stays (s : Store) (old new name : String) : Prop :=
  stripIndex name = "SolarSystem" ∨
    ∀ key ∈ s.objects.keys, replace key old new = stripIndex name ↔ key = stripIndex name

instance (s : Store) (old new name : String) : Decidable (s.Stays old new name) :=
  inferInstanceAs (Decidable (_ ∨ _))

/-- What a rename makes of a store in which no two names become one. -/
structure Renames (old new : String) (s s' : Store) (r r' : Registry) : Prop where
  sound : s.Sound r
  distinct : (s.renamedNames old new).Nodup
  renamed : s.rename r old new = .ok (s', r')

namespace Renames

variable (h : Renames old new s s' r r')
include h

theorem store_eq :
    s' = { s with objects := ⟨s.renamedPairs old new⟩ } := by
  have hKeys := h.distinct
  rw [← keys_renamedPairs] at hKeys
  exact (rename_eq_ok h.sound hKeys h.renamed).1

theorem object_eq (id : ObjectId) :
    r'.object id = if id ∈ s.objects.values then (r.object id).renamed old new else r.object id := by
  have hKeys := h.distinct
  rw [← keys_renamedPairs] at hKeys
  exact (rename_eq_ok h.sound hKeys h.renamed).2 id

theorem keys_eq : s'.objects.keys = s.renamedNames old new := by
  rw [h.store_eq, ← keys_renamedPairs]
  rfl

theorem values_eq : s'.objects.values = s.objects.values := by
  rw [h.store_eq, Table.values, Table.values, renamedPairs, List.map_map]
  rfl

theorem system_eq : s'.solarSystem = s.solarSystem := by
  rw [h.store_eq]

theorem inj {key key' : String} (hKey : key ∈ s.objects.keys)
    (hKey' : key' ∈ s.objects.keys) (hSame : replace key old new = replace key' old new) : key = key' :=
  inj_on_of_nodup_map h.distinct hKey hKey' hSame

theorem keys_nodup : s.objects.keys.Nodup :=
  h.distinct.of_map _

theorem get?_eq_some_iff {key : String} :
    s'.objects.get? key = some id ↔ id ∈ s.objects.values ∧ replace (r.object id).name old new = key := by
  have hKeys : s'.objects.keys.Nodup := by
    rw [h.keys_eq]
    exact h.distinct
  rw [(rename_spec h.sound h.renamed).1.get?_eq_some_iff hKeys, h.values_eq]
  refine and_congr_right fun hMem => ?_
  rw [h.object_eq, if_pos hMem]
  rfl

theorem get?_eq_none_iff {key : String} :
    s'.objects.get? key = none ↔ ∀ name ∈ s.objects.keys, replace name old new ≠ key := by
  rw [Table.get?_eq_none_iff, h.keys_eq, renamedNames]
  simp

/-- The bodies have kept their names. -/
theorem body?_eq (key : String) : s'.body? r' key = s.body? r key := by
  obtain ⟨-, hParts, -⟩ := rename_spec h.sound h.renamed
  rw [body?, body?, h.system_eq]
  refine bind_congr fun system _ => ?_
  rw [findOwned, findOwned, hParts.owned]
  refine List.find?_congr fun part hPart => ?_
  have hOutside : part ∉ s.objects.values := by
    intro hMem
    obtain ⟨⟨name, id⟩, hEntry, rfl⟩ := mem_map.mp hMem
    exact (h.sound.root hEntry).free system hPart
  rw [h.object_eq, if_neg hOutside]

/-- A name that is written as before leads to the object it led to exactly if it stays. -/
theorem find?_iff_stays (hFound : s.find? r name = some target) :
    s'.find? r' name = some target ↔ s.Stays old new name := by
  change (if _ then _ else s.objects.get? _ <|> s.body? r _) = _ at hFound
  change (if _ then s'.solarSystem else s'.objects.get? _ <|> s'.body? r' _) = _ ↔ _
  rw [h.system_eq, h.body?_eq, Stays]
  generalize stripIndex name = key at hFound ⊢
  by_cases hSystem : key = "SolarSystem"
  · simpa [hSystem] using hFound
  · rw [if_neg hSystem, Option.orElse_eq_some] at hFound ⊢
    rw [or_iff_right hSystem]
    rcases hFound with hHere | ⟨hNone, hBody⟩
    · -- An object of the store: it must keep its name, and then no other object takes it.
      have hBody : s.body? r key ≠ some target := fun hBody =>
        h.sound.body?_not_mem hBody ((h.sound.get?_eq_some_iff h.keys_nodup).mp hHere).1
      have hKey : key ∈ s.objects.keys := List.mem_map_of_mem (Table.mem_of_get? hHere)
      obtain ⟨hMem, hName⟩ := (h.sound.get?_eq_some_iff h.keys_nodup).mp hHere
      rw [h.get?_eq_some_iff, hName]
      constructor
      · rintro (⟨-, hSame⟩ | ⟨-, hOther⟩)
        · intro other hOther
          exact ⟨fun hTaken => h.inj hOther hKey (hTaken.trans hSame.symm), fun hIs => hIs ▸ hSame⟩
        · exact absurd hOther hBody
      · intro hStays
        exact .inl ⟨hMem, (hStays key hKey).mpr rfl⟩
    · -- A body: no object of the store may take its name.
      have hFree : key ∉ s.objects.keys := Table.get?_eq_none_iff.mp hNone
      have hOutside := h.sound.body?_not_mem hBody
      rw [h.get?_eq_some_iff, h.get?_eq_none_iff]
      constructor
      · rintro (⟨hMem, -⟩ | ⟨hUntaken, -⟩)
        · exact absurd hMem hOutside
        · intro other hOther
          exact ⟨fun hTaken => absurd hTaken (hUntaken other hOther), fun hIs => absurd (hIs ▸ hOther) hFree⟩
      · intro hStays
        refine .inr ⟨fun other hOther hTaken => hFree ?_, hBody⟩
        rwa [← (hStays other hOther).mp hTaken]

/-- The old name, where the new one has taken its place, leads to the object it led to, unless one
of the two is that of the solar system. -/
theorem find?_new_iff (hOld : isValid old = true) (hNew : isValid new = true)
    (hFound : s.find? r old = some target) :
    s'.find? r' new = some target ↔ old ≠ "SolarSystem" ∧ new ≠ "SolarSystem" := by
  obtain ⟨id, hId⟩ := isSome_iff_exists.mp (eq_of_rename h.renamed).1
  obtain ⟨hMem, hName⟩ := (h.sound.get?_eq_some_iff h.keys_nodup).mp hId
  have hRenamed : s'.objects.get? new = some id := by
    rw [h.get?_eq_some_iff, hName, replace_whole (isIdentifier_of_isValid hOld)]
    exact ⟨hMem, rfl⟩
  rw [find?, stripIndex_of_isValid hOld] at hFound
  rw [find?, stripIndex_of_isValid hNew]
  by_cases hNewSystem : new = "SolarSystem"
  · have hTaken := (eq_of_rename h.renamed).2.1
    rw [find?, stripIndex_of_isValid hNew, if_pos hNewSystem] at hTaken
    simp [hNewSystem, h.system_eq, hTaken]
  · rw [if_neg hNewSystem, hRenamed]
    by_cases hOldSystem : old = "SolarSystem"
    · rw [if_pos hOldSystem] at hFound
      have hApart : id ≠ target := fun hSame => h.sound.apart hFound (hSame ▸ hMem)
      simpa [hOldSystem] using hApart
    · rw [if_neg hOldSystem, hId] at hFound
      simpa [hOldSystem, hNewSystem] using hFound

theorem owned_eq (id : ObjectId) : r'.owned id = r.owned id :=
  (rename_spec h.sound h.renamed).2.1.owned id

/-- The references of an object follow, those of its parts stay as they are. -/
theorem objectReferences_eq (hOld : isValid old = true)
    (hNew : isValid new = true) (hId : id ∈ s.objects.values) :
    Checker.objectReferences r' id = (r.object id).references.map (Object.follow old new) ++
      (r.owned id).flatMap fun part => (r.object part).references := by
  have hPart : ∀ part ∈ r.owned id, (r'.object part).references = (r.object part).references := by
    intro part hPart
    have hOutside : part ∉ s.objects.values := by
      intro hMem
      obtain ⟨⟨name, part⟩, hEntry, rfl⟩ := mem_map.mp hMem
      exact (h.sound.root hEntry).free id hPart
    rw [h.object_eq, if_neg hOutside]
  rw [Checker.objectReferences, h.owned_eq, h.object_eq, if_pos hId, Object.references_renamed hOld hNew,
    flatMap_congr hPart]

theorem isOfType_eq (id : ObjectId) (t : ObjectType) :
    (r'.object id).isOfType t = (r.object id).isOfType t := by
  rw [h.object_eq]
  split
  · rfl
  · rfl

/-- A reference leads on to an object of its type where its name leads on. -/
theorem findOfType?_iff {t : ObjectType} {name' : String}
    (hFound : s.findOfType? r name t = some target) :
    s'.findOfType? r' name' t = s.findOfType? r name t ↔ s'.find? r' name' = some target := by
  have hType := (filter_eq_some_iff.mp hFound).2
  rw [hFound, findOfType?, filter_eq_some_iff, h.isOfType_eq]
  simp [hType]

end Renames

/-- The references of an object and its parts lead to the objects they led to, each to one of its
type. -/
def LeadOn (s s' : Store) (r r' : Registry) (id : ObjectId) : Prop :=
  List.Forall₂ (fun before after => after.1 = before.1 ∧
    s'.findOfType? r' after.2 after.1 = s.findOfType? r before.2 before.1)
    (Checker.objectReferences r id) (Checker.objectReferences r' id)

/-- Where all references lead to objects of their types, they still lead to the same objects after a
rename exactly if the references of objects that are not the old name stay, and so do all references
of parts, the old name included. -/
theorem rename_keeps_references_iff {s s' : Store} {r r' : Registry} {old new : String} (hSound : s.Sound r)
    (hOld : isValid old = true) (hNew : isValid new = true) (hNames : (s.renamedNames old new).Nodup)
    (hResolves : ∀ id ∈ s.objects.values, ∀ reference ∈ Checker.objectReferences r id,
      (s.findOfType? r reference.2 reference.1).isSome = true)
    (h : s.rename r old new = .ok (s', r')) :
    (∀ id ∈ s.objects.values, LeadOn s s' r r' id) ↔
      ∀ id ∈ s.objects.values,
        (∀ reference ∈ (r.object id).references,
          if reference.2 = old then old ≠ "SolarSystem" ∧ new ≠ "SolarSystem"
          else s.Stays old new reference.2) ∧
        ∀ part ∈ r.owned id, ∀ reference ∈ (r.object part).references, s.Stays old new reference.2 := by
  have hRenames : Renames old new s s' r r' := ⟨hSound, hNames, h⟩
  refine forall₂_congr fun id hId => ?_
  have hStays : ∀ reference ∈ Checker.objectReferences r id,
      s'.findOfType? r' reference.2 reference.1 = s.findOfType? r reference.2 reference.1 ↔
        s.Stays old new reference.2 := by
    intro reference hReference
    obtain ⟨target, hTarget⟩ := Option.isSome_iff_exists.mp (hResolves id hId reference hReference)
    rw [hRenames.findOfType?_iff hTarget]
    exact hRenames.find?_iff_stays (Option.filter_eq_some_iff.mp hTarget).1
  have hFollows : ∀ reference ∈ (r.object id).references,
      s'.findOfType? r' (Object.follow old new reference).2 reference.1 =
          s.findOfType? r reference.2 reference.1 ↔
        if reference.2 = old then old ≠ "SolarSystem" ∧ new ≠ "SolarSystem"
        else s.Stays old new reference.2 := by
    intro reference hReference
    have hMem : reference ∈ Checker.objectReferences r id := List.mem_append_left _ hReference
    by_cases hIs : reference.2 = old
    · obtain ⟨target, hTarget⟩ := Option.isSome_iff_exists.mp (hResolves id hId reference hMem)
      have hFound := (Option.filter_eq_some_iff.mp hTarget).1
      rw [hRenames.findOfType?_iff hTarget]
      simp only [Object.follow, if_pos hIs]
      exact hRenames.find?_new_iff hOld hNew (hIs ▸ hFound)
    · simp only [Object.follow, if_neg hIs]
      exact hStays reference hMem
  rw [LeadOn, hRenames.objectReferences_eq hOld hNew hId, Checker.objectReferences, forall₂_map_append]
  refine and_congr (forall₂_congr fun reference hReference => ?_) ?_
  · exact (and_iff_right rfl).trans (hFollows reference hReference)
  · rw [List.forall_mem_flatMap]
    refine forall₂_congr fun part hPart => forall₂_congr fun reference hReference => ?_
    have hMem : reference ∈ Checker.objectReferences r id :=
      List.mem_append_right _ (List.mem_flatMap.mpr ⟨part, hPart, hReference⟩)
    exact (and_iff_right rfl).trans (hStays reference hMem)

/-- A point between a spacecraft and the Earth, and a coordinate system that has no axes yet. -/
def pointScript : Session :=
  let s := ((Session.new {}).add (Catalog.spacecraft "sat1")).2
  let s := (s.add (Catalog.librationPoint "point" "sat1" "Earth" "L1")).2
  (s.create "CoordinateSystem" "cs").2

theorem reachable_pointScript : pointScript.Reachable :=
  .create _ _ (.add _ (.add _ (.new _)))

/-- A reference of an object that is the old name follows, and one to a body stays. -/
theorem rename_keeps_references_pointScript :
    ∃ s' r', pointScript.store.rename pointScript.registry "sat1" "satA" = .ok (s', r') ∧
      ∀ id ∈ pointScript.store.objects.values,
        LeadOn pointScript.store s' pointScript.registry r' id := by
  have hRuns : (pointScript.store.renamedNames "sat1" "satA").Nodup ∧
      (∀ id ∈ pointScript.store.objects.values,
        ∀ reference ∈ Checker.objectReferences pointScript.registry id,
          (pointScript.store.findOfType? pointScript.registry reference.2 reference.1).isSome = true) ∧
      (pointScript.store.rename pointScript.registry "sat1" "satA").isOk = true ∧
      ∀ id ∈ pointScript.store.objects.values,
        (∀ reference ∈ (pointScript.registry.object id).references,
          if reference.2 = "sat1" then "sat1" ≠ "SolarSystem" ∧ "satA" ≠ "SolarSystem"
          else pointScript.store.Stays "sat1" "satA" reference.2) ∧
        ∀ part ∈ pointScript.registry.owned id, ∀ reference ∈ (pointScript.registry.object part).references,
          pointScript.store.Stays "sat1" "satA" reference.2 := by
    decide +kernel
  obtain ⟨hNames, hResolves, hOk, hStays⟩ := hRuns
  rcases hRename : pointScript.store.rename pointScript.registry "sat1" "satA" with e | ⟨s', r'⟩
  · rw [hRename] at hOk
    cases hOk
  · have hSound := reachable_pointScript.sound.workspace.scope.store
    exact ⟨s', r', rfl,
      (rename_keeps_references_iff hSound (by decide) (by decide) hNames hResolves hRename).mpr hStays⟩

/-- A coordinate system whose axes point to a spacecraft. -/
def pointedSystem : Except ObjectError Assembly := do
  let system ← Catalog.coordinateSystem "frame" "Earth" none
  let axes ← Catalog.axisSystem "ObjectReferenced"
  return system.withPart (.ofObject (← axes.object.set "Primary" (.string "sat1")))

def axesScript : Session :=
  (pointScript.add (pointedSystem.toOption.getD default)).2

/-- All references lead to objects. After the rename one of them, held by the axes, leads nowhere,
and the script is refused. -/
theorem rename_misses_part :
    ∃ s' id, axesScript.Reachable ∧ axesScript.validate.1.isOk = true ∧
      (∀ id ∈ axesScript.store.objects.values, ∀ reference ∈ Checker.objectReferences axesScript.registry id,
        (axesScript.store.findOfType? axesScript.registry reference.2 reference.1).isSome = true) ∧
      axesScript.rename "sat1" "satA" = (.ok (), s') ∧ id ∈ s'.store.objects.values ∧
      (ObjectType.spacePoint, "sat1") ∈ Checker.objectReferences s'.registry id ∧
      s'.store.find? s'.registry "sat1" = none ∧ s'.validate.1.isOk = false := by
  have hBefore : axesScript.validate.1.isOk = true ∧
      (∀ id ∈ axesScript.store.objects.values, ∀ reference ∈ Checker.objectReferences axesScript.registry id,
        (axesScript.store.findOfType? axesScript.registry reference.2 reference.1).isSome = true) ∧
      (axesScript.rename "sat1" "satA").1.isOk = true := by
    decide +kernel
  have hAfter : (∃ id ∈ (axesScript.rename "sat1" "satA").2.store.objects.values,
        (ObjectType.spacePoint, "sat1") ∈
          Checker.objectReferences (axesScript.rename "sat1" "satA").2.registry id) ∧
      (axesScript.rename "sat1" "satA").2.store.find? (axesScript.rename "sat1" "satA").2.registry "sat1" =
        none ∧
      (axesScript.rename "sat1" "satA").2.validate.1.isOk = false := by
    decide +kernel
  obtain ⟨hValid, hResolves, hOk⟩ := hBefore
  obtain ⟨⟨id, hId, hReference⟩, hNone, hFails⟩ := hAfter
  exact ⟨_, id, .add _ reachable_pointScript, hValid, hResolves,
    Session.rename_of_isOk axesScript "sat1" "satA" hOk, hId, hReference, hNone, hFails⟩

end Store

end Mission
