import Mission.Proofs.Workspace.Tracking

/-! Renaming an object of a store. The names change, in the store and at the objects, and what
belongs to what stays. Two names may become one: then one of the two objects loses its name. -/
namespace Mission

open List Table

namespace Registry

/-- The objects may differ, but not what they own. -/
structure SameParts (r r' : Registry) : Prop where
  size : r'.entries.size = r.entries.size
  owned : ∀ id, r'.owned id = r.owned id

namespace SameParts

variable {r r' r'' : Registry} {id : ObjectId}

theorem refl (r : Registry) : SameParts r r :=
  ⟨rfl, fun _ => rfl⟩

theorem trans (h : SameParts r r') (h' : SameParts r' r'') : SameParts r r'' :=
  ⟨h'.size.trans h.size, fun id => (h'.owned id).trans (h.owned id)⟩

theorem has (h : SameParts r r') (hId : r.Has id) : r'.Has id := by
  rwa [Has, h.size]

theorem forest (h : SameParts r r') (hForest : r.Forest) : r'.Forest where
  has hc := h.has (hForest.has (h.owned _ ▸ hc))
  once hc hc' := hForest.once (h.owned _ ▸ hc) (h.owned _ ▸ hc')

theorem root (h : SameParts r r') (hRoot : r.Root id) : r'.Root id :=
  ⟨h.has hRoot.has, fun w hw => hRoot.free w (h.owned w ▸ hw)⟩

theorem whole (h : SameParts r r') {system : Option ObjectId} (hWhole : r.Whole system id) :
    r'.Whole system id :=
  ⟨h.has hWhole.has, fun w hw => hWhole.free w (h.owned w ▸ hw)⟩

end SameParts

variable {r : Registry} {id other : ObjectId} {f : Object → Object}

theorem sameParts_modifyObject (r : Registry) (id : ObjectId) (f : Object → Object) :
    SameParts r (r.modifyObject id f) :=
  ⟨rfl, fun other => owned_modify (fun _ => by rfl) id other⟩

theorem object_modifyObject_self (h : r.Has id) : (r.modifyObject id f).object id = f (r.object id) := by
  rw [object, modifyObject, entry_modify_self h, object]

theorem object_modifyObject_ne (h : other ≠ id) : (r.modifyObject id f).object other = r.object other := by
  rw [object, modifyObject, entry_modify_ne h, object]

/-- What an edit keeps of every object is kept of all. -/
theorem apply_modifyObject {α : Type} (g : Object → α) (hf : ∀ o, g (f o) = g o) (r : Registry)
    (id other : ObjectId) : g ((r.modifyObject id f).object other) = g (r.object other) := by
  by_cases hId : r.Has id
  · by_cases hSame : other = id
    · subst hSame
      rw [object_modifyObject_self hId, hf]
    · rw [object_modifyObject_ne hSame]
  · rw [object, modifyObject, modify_of_not_has hId, object]

end Registry

namespace Store

open Registry

variable {r r' : Registry} {old new : String} {entries : List (String × ObjectId)} {id : ObjectId}
  {s s' : Store}

theorem sameParts_renameObjects (r : Registry) (old new : String) (entries : List (String × ObjectId)) :
    SameParts r (renameObjects r old new entries) := by
  unfold renameObjects
  induction entries generalizing r with
  | nil => exact .refl r
  | cons entry rest ih =>
    refine SameParts.trans ?_ (ih _)
    dsimp only
    split
    · exact .refl r
    · exact sameParts_modifyObject r _ _

/-- The objects of other identities stay. -/
theorem object_renameObjects (h : id ∉ entries.map Prod.snd) :
    (renameObjects r old new entries).object id = r.object id := by
  unfold renameObjects
  induction entries generalizing r with
  | nil => rfl
  | cons entry rest ih =>
    rw [map_cons, mem_cons, not_or] at h
    rw [foldl_cons, ih h.2]
    dsimp only
    split
    · rfl
    · exact object_modifyObject_ne h.1

/-- Each object gets the name under which it is put, and is the same otherwise. -/
theorem object_renameObjects_of_mem (hHas : ∀ e ∈ entries, r.Has e.2)
    (hName : ∀ e ∈ entries, (r.object e.2).name = e.1) (hDistinct : (entries.map Prod.snd).Nodup)
    {key : String} (h : (key, id) ∈ entries) :
    (renameObjects r old new entries).object id =
      { r.object id with name := Name.replace key old new } := by
  induction entries generalizing r with
  | nil => cases h
  | cons entry rest ih =>
    obtain ⟨k, i⟩ := entry
    rw [map_cons, nodup_cons] at hDistinct
    have hStep : renameObjects r old new ((k, i) :: rest) =
        renameObjects (renameObjects r old new [(k, i)]) old new rest := rfl
    have hFirst : (renameObjects r old new [(k, i)]).object i =
        { r.object i with name := Name.replace k old new } := by
      have hKey : (r.object i).name = k := hName _ mem_cons_self
      change Registry.object (if Name.replace k old new = k then r else _) i = _
      split
      · next hSame => rw [hSame, ← hKey]
      · rw [object_modifyObject_self (hHas _ mem_cons_self)]
    have hOther : ∀ {j}, j ∈ rest.map Prod.snd →
        (renameObjects r old new [(k, i)]).object j = r.object j := by
      intro j hj
      refine object_renameObjects fun hMem => ?_
      rw [map_singleton, mem_singleton] at hMem
      exact hDistinct.1 (hMem ▸ hj)
    rw [hStep]
    rcases mem_cons.mp h with hHead | hRest
    · cases hHead
      rw [object_renameObjects hDistinct.1, hFirst]
    · rw [← hOther (mem_map_of_mem hRest)]
      refine ih (fun e he => ?_) (fun e he => ?_) hDistinct.2 hRest
      · exact (sameParts_renameObjects r old new _).has (hHas e (mem_cons_of_mem _ he))
      · rw [hOther (mem_map_of_mem he), hName e (mem_cons_of_mem _ he)]

/-- Updating references changes neither names nor parts. -/
theorem renameReferences_spec (old new : String) (ids : List ObjectId) (r : Registry) :
    let r' := ids.foldl (fun r id => r.modifyObject id fun o => o.renameReferences old new) r
    SameParts r r' ∧ ∀ id, (r'.object id).name = (r.object id).name := by
  induction ids generalizing r with
  | nil => exact ⟨.refl r, fun _ => rfl⟩
  | cons id rest ih =>
    obtain ⟨hParts, hName⟩ := ih (r.modifyObject id fun o => o.renameReferences old new)
    refine ⟨(sameParts_modifyObject r id _).trans hParts, fun other => ?_⟩
    have hFirst : ∀ o : Object, (o.renameReferences old new).name = o.name := fun _ => rfl
    exact (hName other).trans (apply_modifyObject Object.name hFirst r id other)

/-- All that a rename does where it succeeds. -/
theorem eq_of_rename (h : s.rename r old new = .ok (s', r')) :
    s.contains old = true ∧ s.find? r new = none ∧
      s' = { s with objects := .ofPairs (s.renamedPairs old new) } ∧
      r' = (ofPairs (s.renamedPairs old new)).values.foldl
        (fun r id => r.modifyObject id fun o => o.renameReferences old new)
        (renameObjects r old new s.objects.entries) := by
  unfold rename at h
  split at h
  · cases h
  · next hOld =>
      split at h
      · cases h
      · next hNew =>
          cases h
          exact ⟨by simpa using hOld, by simpa using hNew, rfl, rfl⟩

/-- A rename gives names to objects and updates their references. -/
theorem rename_keeps {J : Registry → Prop}
    (hName : ∀ {now id} name, J now → J (now.modifyObject id fun o => { o with name }))
    (hReferences : ∀ {now id}, J now → J (now.modifyObject id fun o => o.renameReferences old new)) (hr : J r)
    (h : s.rename r old new = .ok (s', r')) : J r' := by
  obtain ⟨-, -, rfl, rfl⟩ := eq_of_rename h
  refine List.foldlRecOn (motive := J) _ _ ?_ fun now hNow id _ => hReferences hNow
  unfold renameObjects
  refine List.foldlRecOn (motive := J) _ _ hr fun now hNow entry _ => ?_
  dsimp only
  split
  · exact hNow
  · exact hName _ hNow

theorem rename_spec (hSound : s.Sound r) (h : s.rename r old new = .ok (s', r')) :
    s'.Sound r' ∧ SameParts r r' ∧ s'.solarSystem = s.solarSystem := by
  obtain ⟨-, -, rfl, rfl⟩ := eq_of_rename h
  obtain ⟨hParts₂, hName₂⟩ := renameReferences_spec old new
    (ofPairs (s.renamedPairs old new)).values (renameObjects r old new s.objects.entries)
  have hParts := (sameParts_renameObjects r old new s.objects.entries).trans hParts₂
  have hOld : ∀ {key' id}, (key', id) ∈ (ofPairs (s.renamedPairs old new)).entries →
      ∃ key, (key, id) ∈ s.objects.entries ∧ key' = Name.replace key old new := by
    intro key' id hMem
    obtain ⟨⟨key, id'⟩, hEntry, hPair⟩ := mem_map.mp (mem_ofPairs hMem)
    cases hPair
    exact ⟨key, hEntry, rfl⟩
  have hValues : (s.renamedPairs old new).map Prod.snd = s.objects.values := by
    rw [renamedPairs, map_map]
    rfl
  refine ⟨⟨?_, ?_, ?_, ?_, ?_⟩, hParts, rfl⟩
  · intro key' id hMem
    obtain ⟨key, hEntry, -⟩ := hOld hMem
    exact hParts.root (hSound.root hEntry)
  · intro key' id hMem
    obtain ⟨key, hEntry, rfl⟩ := hOld hMem
    rw [hName₂]
    rw [object_renameObjects_of_mem (fun e he => (hSound.root he).has) (fun e he => hSound.name he)
      hSound.distinct hEntry]
  · refine nodup_values_ofPairs ?_
    rw [hValues]
    exact hSound.distinct
  · intro id hSystem
    obtain ⟨hRoot, hName⟩ := hSound.system hSystem
    refine ⟨hParts.root hRoot, ?_⟩
    rw [hName₂, object_renameObjects (hSound.apart hSystem), hName]
  · intro id hSystem hMem
    obtain ⟨⟨key', id'⟩, hEntry, rfl⟩ := mem_map.mp hMem
    obtain ⟨key, hEntry, -⟩ := hOld hEntry
    exact hSound.apart hSystem (mem_map.mpr ⟨(key, id'), hEntry, rfl⟩)

/-- A rename gives no name twice, names no other objects than before, and leaves those that the
store does not name. -/
theorem rename_keys (h : s.rename r old new = .ok (s', r')) :
    s'.objects.keys.Nodup ∧ (∀ id ∈ s'.objects.values, id ∈ s.objects.values) ∧
      ∀ id ∉ s.objects.values, (r'.object id).name = (r.object id).name := by
  obtain ⟨-, -, rfl, rfl⟩ := eq_of_rename h
  refine ⟨nodup_keys_ofPairs _, fun id hMem => ?_, fun id hMem => ?_⟩
  · obtain ⟨entry, hEntry, rfl⟩ := mem_map.mp hMem
    obtain ⟨entry', hEntry', rfl⟩ := mem_map.mp (mem_ofPairs hEntry)
    exact mem_map.mpr ⟨entry', hEntry', rfl⟩
  · rw [(renameReferences_spec old new _ _).2, object_renameObjects hMem]

end Store

end Mission
