import Mathlib.Data.Option.Basic
import Mission.Proofs.Classify.Tracking

/-! Classified accessors are bound. It is enough that objects are stored under their own names: an
element asks the array for its name before it takes it, and everything else is bound to what has
been found. A property among the indices of an element is looked up once more, in the array, if its
owner has the name of the array, and is found again there. -/
namespace Mission

open Registry Outcome Option Name Accessor

/-! ### Scopes with proper names -/

/-- Every object is stored under its own name, and the solar system is called so. -/
structure Store.Keyed (s : Store) (r : Registry) : Prop where
  name : ∀ {name id}, (name, id) ∈ s.objects.entries → (r.object id).name = name
  system : ∀ {id}, s.solarSystem = some id → (r.object id).name = "SolarSystem"

/-- The objects in scope are stored under their own names. -/
def Workspace.Keyed (w : Workspace) : Prop :=
  w.scope.store.Keyed w.registry ∧ ∀ outer, w.scope.outer = some outer → outer.Keyed w.registry

/-- Of the objects that are stored, the arrays have the name they are stored under. -/
structure Store.NamesArrays (s : Store) (r : Registry) : Prop where
  name : ∀ {name id}, (name, id) ∈ s.objects.entries → (r.object id).isArray = true →
    (r.object id).name = name
  system : ∀ {id}, s.solarSystem = some id → (r.object id).isArray = true → (r.object id).name = "SolarSystem"

theorem Store.NamesArrays.name_of_find? {s : Store} {r : Registry} (h : s.NamesArrays r) {name : String}
    {id : ObjectId} (hFind : s.find? r name = some id) (hArray : (r.object id).isArray = true) :
    (r.object id).name = stripIndex name := by
  dsimp only [find?] at hFind
  split at hFind
  · next hSystem =>
      rw [hSystem]
      exact h.system hFind hArray
  · rcases (orElse_eq_some _ _ _).mp hFind with hKey | ⟨-, hPart⟩
    · exact h.name (Table.mem_of_get? hKey) hArray
    · obtain ⟨system, -, hOwned⟩ := bind_eq_some_iff.mp hPart
      have hName := List.find?_some hOwned
      exact of_decide_eq_true hName

namespace Workspace

variable {w w' w'' : Workspace}

def NamesArrays (w : Workspace) : Prop :=
  w.scope.store.NamesArrays w.registry ∧ ∀ outer, w.scope.outer = some outer → outer.NamesArrays w.registry

theorem Keyed.namesArrays (h : w.Keyed) : w.NamesArrays :=
  ⟨⟨fun hMem _ => h.1.name hMem, fun hSystem _ => h.1.system hSystem⟩, fun outer hOuter =>
    ⟨fun hMem _ => (h.2 outer hOuter).name hMem, fun hSystem _ => (h.2 outer hOuter).system hSystem⟩⟩

theorem NamesArrays.name_of_find? (h : w.NamesArrays) {name : String} {id : ObjectId}
    (hFind : w.find? name = some id) (hArray : (w.registry.object id).isArray = true) :
    (w.registry.object id).name = stripIndex name := by
  rcases (orElse_eq_some _ _ _).mp hFind with hLocal | ⟨-, hOuter⟩
  · exact h.1.name_of_find? hLocal hArray
  · obtain ⟨outer, hStore, hFind⟩ := bind_eq_some_iff.mp hOuter
    exact (h.2 outer hStore).name_of_find? hFind hArray

/-! ### New Parameters -/

/-- The workspace has got new objects, none of them an array, and names for them. An object that a
name without a dot leads to is still what the name leads to. -/
structure Gains (w w' : Workspace) : Prop where
  grows : Grows w.registry w'.registry
  other : ∀ {id}, ¬ w.registry.Has id → (w'.registry.object id).isArray = false
  names : ∀ {name id}, (name, id) ∈ w'.scope.store.objects.entries →
    (name, id) ∈ w.scope.store.objects.entries ∨ ¬ w.registry.Has id
  system : w'.scope.store.solarSystem = w.scope.store.solarSystem
  outer : w'.scope.outer = w.scope.outer
  find? : ∀ {name id}, '.' ∉ name.toList → w.registry.Has id → w.find? name = some id → w'.find? name =
    some id

end Workspace

theorem Registry.has_of_isArray {r : Registry} {id : ObjectId} (h : (r.object id).isArray = true) :
    r.Has id := by
  by_contra hNone
  rw [object, entry_of_not_has hNone] at h
  cases h

theorem Registry.has_of_index? {r : Registry} {id : ObjectId} {property : String} {i : Nat}
    (h : (r.object id).properties.index? property = some i) : r.Has id := by
  by_contra hNone
  rw [object, entry_of_not_has hNone] at h
  cases h

namespace Workspace

variable {w w' w'' : Workspace}

theorem Gains.refl (w : Workspace) : w.Gains w where
  grows := .refl _
  other hNone := by
    rw [object, entry_of_not_has hNone]
    rfl
  names := .inl
  system := rfl
  outer := rfl
  find? _ _ := id

theorem Gains.trans (h : w.Gains w') (h' : w'.Gains w'') : w.Gains w'' where
  grows := h.grows.trans h'.grows
  other {id} hNone := by
    by_cases hHas : w'.registry.Has id
    · rw [h'.grows.object hHas]
      exact h.other hNone
    · exact h'.other hHas
  names hMem := (h'.names hMem).elim h.names fun hNone => .inr fun hHas => hNone (h.grows.has hHas)
  system := h'.system.trans h.system
  outer := h'.outer.trans h.outer
  find? hDot hHas hFind := h'.find? hDot (h.grows.has hHas) (h.find? hDot hHas hFind)

theorem Gains.relog (h : w.Gains w') (log : Log) : w.Gains { w' with log } :=
  ⟨h.grows, h.other, h.names, h.system, h.outer, h.find?⟩

theorem Gains.namesArrays (h : w.Gains w') (hNames : w.NamesArrays) : w'.NamesArrays := by
  have hOld : ∀ {id}, (w'.registry.object id).isArray = true →
      w'.registry.object id = w.registry.object id ∧ w.registry.Has id := by
    intro id hArray
    by_cases hHas : w.registry.Has id
    · exact ⟨h.grows.object hHas, hHas⟩
    · rw [h.other hHas] at hArray
      cases hArray
  have hKept : ∀ {s : Store}, s.NamesArrays w.registry → s.NamesArrays w'.registry := by
    intro s hs
    constructor
    · intro name id hMem hArray
      have hSame := (hOld hArray).1
      rw [hSame] at hArray ⊢
      exact hs.name hMem hArray
    · intro id hSystem hArray
      have hSame := (hOld hArray).1
      rw [hSame] at hArray ⊢
      exact hs.system hSystem hArray
  refine ⟨⟨?_, ?_⟩, fun outer hOuter => hKept (hNames.2 outer (h.outer ▸ hOuter))⟩
  · intro name id hMem hArray
    obtain ⟨hSame, hHas⟩ := hOld hArray
    rw [hSame] at hArray ⊢
    exact hNames.1.name ((h.names hMem).resolve_right (not_not_intro hHas)) hArray
  · intro id hSystem hArray
    exact (hKept hNames.1).system (h.system ▸ hSystem) hArray

end Workspace

/-! A new Parameter has a dot in its name, so a name without a dot never leads to it. -/
section

variable {r : Registry} {o : Object}

theorem Registry.owned_push_object (r : Registry) (o : Object) (id : ObjectId) :
    (r.push { object := o }).2.owned id = r.owned id := by
  by_cases hHas : r.Has id
  · rw [owned, entry_push_of_has hHas, owned]
  · rw [owned_of_not_has hHas]
    by_cases hNew : id = (r.push { object := o }).1
    · rw [hNew, owned, entry_push_id]
    · exact owned_of_not_has fun h => (has_push.mp h).elim hHas hNew

theorem Registry.name_push_ne {name : String} (hDot : '.' ∈ o.name.toList) (hName : '.' ∉ name.toList)
    {id : ObjectId} (h : (r.object id).name ≠ name) : ((r.push { object := o }).2.object id).name ≠ name := by
  by_cases hHas : r.Has id
  · rw [object, entry_push_of_has hHas]
    exact h
  · by_cases hNew : id = (r.push { object := o }).1
    · rw [hNew, object, entry_push_id]
      rintro rfl
      exact hName hDot
    · have hNone : ¬ (r.push { object := o }).2.Has id := fun h => (has_push.mp h).elim hHas hNew
      rw [object, entry_of_not_has hNone]
      rwa [object, entry_of_not_has hHas] at h

/-- A part without a dot in its name that is found is found again, and none is found where none was. -/
theorem Registry.findOwned_push {name : String} (hDot : '.' ∈ o.name.toList) (hName : '.' ∉ name.toList)
    (system : ObjectId) :
    (r.findOwned system name = none → (r.push { object := o }).2.findOwned system name = none) ∧
      ∀ {id}, r.Has id → r.findOwned system name = some id →
        (r.push { object := o }).2.findOwned system name = some id := by
  have hOther : ∀ {c : ObjectId}, (r.object c).name ≠ name → ((r.push { object := o }).2.object c).name ≠
    name :=
    name_push_ne hDot hName
  rw [findOwned, findOwned, owned_push_object]
  constructor
  · simp only [List.find?_eq_none, decide_eq_true_eq]
    exact fun h c hc => hOther (h c hc)
  · intro id hHas h
    obtain ⟨hFound, before, after, hParts, hBefore⟩ := List.find?_eq_some_iff_append.mp h
    refine List.find?_eq_some_iff_append.mpr ⟨?_, before, after, hParts, fun c hc => ?_⟩
    · rw [object, entry_push_of_has hHas]
      exact hFound
    · simpa using hOther (by simpa using hBefore c hc)

end

namespace Parameter

variable {w : Workspace} {o : Object}

theorem find?_push {s new : Store} {r : Registry} {name : String} (hDot : '.' ∈ o.name.toList)
    (hName : '.' ∉ name.toList) (hSystem : new.solarSystem = s.solarSystem)
    (hKey : new.objects.get? (stripIndex name) = s.objects.get? (stripIndex name)) :
    (s.find? r name = none → new.find? (r.push { object := o }).2 name = none) ∧
      ∀ {id}, r.Has id → s.find? r name = some id → new.find? (r.push { object := o }).2 name = some id := by
  have hParts := fun system => findOwned_push (r := r) hDot (dot_not_mem_stripIndex hName) system
  simp only [Store.find?, hSystem, hKey]
  split_ifs with hSolar
  · exact ⟨fun h => h, fun _ h => h⟩
  · constructor
    · simp only [orElse_eq_none, bind_eq_none_iff]
      exact fun ⟨hNone, hNoPart⟩ => ⟨hNone, fun system hs => (hParts system).1 (hNoPart system hs)⟩
    · intro id hHas
      simp only [orElse_eq_some, bind_eq_some_iff]
      rintro (hKnown | ⟨hNone, system, hs, hPart⟩)
      · exact .inl hKnown
      · exact .inr ⟨hNone, system, hs, (hParts system).2 hHas hPart⟩

theorem gains_withParameter (hDot : '.' ∈ o.name.toList) (hOther : o.isArray = false) :
    w.Gains (withParameter w o.name o) := by
  obtain ⟨hGrows, hLoose⟩ := grows_push (.refl w.registry) (e := { object := o }) (by simp)
  refine ⟨hGrows, ?_, ?_, rfl, rfl, ?_⟩
  · intro id hNone
    by_cases hNew : id = (w.registry.push { object := o }).1
    · rw [hNew, object, withParameter, entry_push_id]
      exact hOther
    · have hStill : ¬ (w.registry.push { object := o }).2.Has id := fun h => (has_push.mp h).elim hNone hNew
      rw [object, withParameter, entry_of_not_has hStill]
      rfl
  · intro name id hMem
    rcases Table.mem_insert hMem with hNew | hOld
    · cases hNew
      exact .inr hLoose.new
    · exact .inl hOld
  · intro name id hName hHas hFind
    have hNe : stripIndex name ≠ o.name := fun hSame =>
      dot_not_mem_stripIndex hName (hSame ▸ hDot)
    have hLocal := find?_push (s := w.scope.store) (r := w.registry) hDot hName
      (show (withParameter w o.name o).scope.store.solarSystem = _ from rfl) (Table.get?_insert_of_ne hNe _ _)
    rcases (orElse_eq_some _ _ _).mp hFind with hFind | ⟨hNone, hFind⟩
    · exact (orElse_eq_some _ _ _).mpr (.inl (hLocal.2 hHas hFind))
    · obtain ⟨outer, hOuter, hFind⟩ := bind_eq_some_iff.mp hFind
      refine (orElse_eq_some _ _ _).mpr (.inr ⟨hLocal.1 hNone, bind_eq_some_iff.mpr ⟨outer, hOuter, ?_⟩⟩)
      exact (find?_push (s := outer) hDot hName rfl rfl).2 hHas hFind

theorem Provides.gains {kinds : ParameterKinds} {w' : Workspace} {name : String} {id : ObjectId}
    (h : Provides kinds name w w' id) (hDot : '.' ∈ name.toList) : w.Gains w' := by
  cases h with
  | known => exact .refl w
  | @new kind p text _ _ _ _ =>
    exact (gains_withParameter (o := fresh name p) hDot rfl).relog _

end Parameter

/-! ### Accessors that reach their objects -/

namespace Accessor

/-- The accessor is bound, and the owner of each property in it is in scope and still leads to such
a property. -/
def Reaches (w : Workspace) : Accessor → Prop
  | property _ p => p.target.isSome = true ∧ '.' ∉ p.owner.toList ∧ ∃ owner, w.find? p.owner = some owner ∧
    (w.registry.findProperty owner p.part p.property).isSome = true
  | whole _ _ target => target.isSome = true
  | element _ _ array row column => array.isSome = true ∧ row.Reaches w ∧ column.Reaches w
  | _ => True

variable {w w' : Workspace} {a : Accessor}

theorem Reaches.isBound (h : a.Reaches w) : a.isBound = true := by
  induction a with
  | property d p => exact h.1
  | whole d k target => exact h
  | element d name array row column ihRow ihColumn =>
    simp only [Accessor.isBound, Bool.and_eq_true]
    exact ⟨⟨h.1, ihRow h.2.1⟩, ihColumn h.2.2⟩
  | _ => rfl

theorem reaches_literal (h : a.kind.isLiteral = true) : a.Reaches w := by
  cases a with
  | property d p => cases h
  | whole d k target => cases k <;> cases h
  | element d name array row column => cases h
  | _ => trivial

/-- What a property is found in is there, also in a registry that has grown. -/
theorem has_of_findProperty {r : Registry} {owner : ObjectId} {part property : String}
    (h : (r.findProperty owner part property).isSome = true) : r.Has owner := by
  obtain ⟨⟨c, i⟩, hFound⟩ := isSome_iff_exists.mp h
  rcases findProperty_eq_some hFound with ⟨-, rfl, hIndex⟩ | ⟨-, hPart⟩
  · exact has_of_index? hIndex
  · by_contra hNone
    rw [findOwnedProperty_eq, owned_of_not_has hNone] at hPart
    cases hPart

theorem isSome_findProperty {r r' : Registry} (hGrows : Grows r r') {owner : ObjectId}
    {part property : String} (h : (r.findProperty owner part property).isSome = true) :
    (r'.findProperty owner part property).isSome = true := by
  have hOwner := has_of_findProperty h
  obtain ⟨⟨c, i⟩, hFound⟩ := isSome_iff_exists.mp h
  rcases findProperty_eq_some hFound with ⟨hEmpty, rfl, hIndex⟩ | ⟨hOwn, hPart⟩
  · rw [findProperty_of_own hEmpty (by rw [hGrows.object hOwner]; exact hIndex)]
    rfl
  · rw [findProperty_of_part (by rw [hGrows.object hOwner]; exact hOwn)]
    rw [findOwnedProperty_eq] at hPart ⊢
    obtain ⟨candidate, hMem, hCandidate⟩ := List.exists_of_findSome?_eq_some hPart
    obtain ⟨rfl, hName, hIndex⟩ := partProperty_eq_some hCandidate
    rw [List.findSome?_isSome_iff, hGrows.owned hOwner]
    have hSame := hGrows.object (has_of_index? hIndex)
    refine ⟨candidate, hMem, ?_⟩
    rw [partProperty_of_name (hSame ▸ hName) (hSame ▸ hIndex)]
    rfl

theorem Reaches.later (h : a.Reaches w) (hGains : w.Gains w') : a.Reaches w' := by
  induction a with
  | property d p =>
    obtain ⟨hTarget, hDot, owner, hOwner, hFound⟩ := h
    exact ⟨hTarget, hDot, owner, hGains.find? hDot (has_of_findProperty hFound) hOwner,
      isSome_findProperty hGains.grows hFound⟩
  | whole d k target => exact h
  | element d name array row column ihRow ihColumn => exact ⟨h.1, ihRow h.2.1, ihColumn h.2.2⟩
  | _ => trivial

/-- An object that its name leads to takes nothing away where it is bound. -/
theorem Reaches.bind (h : a.Reaches w) {id : ObjectId}
    (hLeads : w.find? (w.registry.object id).name = some id) : (a.bind w.registry id).1.Reaches w := by
  induction a with
  | property d p =>
    obtain ⟨hTarget, hDot, owner, hOwner, hFound⟩ := h
    simp only [Accessor.bind]
    split
    · next hSame =>
        rw [hSame, hLeads] at hOwner
        cases hOwner
        exact ⟨hFound, hDot, id, hSame ▸ hLeads, hFound⟩
    · exact ⟨hTarget, hDot, owner, hOwner, hFound⟩
  | whole d k target =>
    simp only [Accessor.bind]
    split
    · rfl
    · exact h
  | element d name array row column ihRow ihColumn =>
    refine ⟨?_, ihRow h.2.1, ihColumn h.2.2⟩
    split
    · rfl
    · exact h.1
  | _ => trivial

end Accessor

namespace Classify

variable {w w' : Workspace} {description : String}

/-- The workspace may have got new Parameters, and the accessor is bound. -/
structure Binds (w w' : Workspace) (a : Accessor) : Prop where
  gains : w.Gains w'
  reaches : a.Reaches w'

theorem Means.binds {kinds : ParameterKinds} {a : Accessor} (h : Means kinds description w w' a) :
    Binds w w' a := by
  cases h with
  | parameter hDot hGiven => exact ⟨hGiven.gains hDot, rfl⟩
  | property _ hName _ hOwner hSome =>
    exact ⟨.refl w, hSome, hName ▸ DottedName.dot_not_mem_owner description, _, hOwner, hSome⟩
  | object => exact ⟨.refl w, rfl⟩
  | literal hLiteral _ => exact ⟨.refl w, reaches_literal hLiteral⟩

theorem noteCreated_binds {E : Workspace → Prop} {a : Accessor} (h : Binds w w' a) :
    Meets (noteCreated a) w' E (Binds w) :=
  Step.meets_note_bind (.pure ⟨h.gains.relog _, h.reaches.later ((Workspace.Gains.refl w').relog _)⟩)

/-- The array of an element is still what its name leads to when the indices have been classified. -/
theorem binds_element (hNames : w.NamesArrays) {id : ObjectId} {name : String}
    (hName : stripIndex name = name ∧ '.' ∉ name.toList) (hArray : arrayOf w name = .ok id)
    {w₁ w₂ : Workspace} {row column : Accessor} (hRow : Binds w w₁ row) (hColumn : Binds w₁ w₂ column) :
    Binds w w₂ ((element description name none row column).bind w₂.registry id).1 := by
  obtain ⟨hFind, hIsArray⟩ := arrayOf_eq_ok hArray
  have hGains := hRow.gains.trans hColumn.gains
  have hHas := has_of_isArray hIsArray
  have hObject := hGains.grows.object hHas
  have hOwn : (w₂.registry.object id).name = name := by
    rw [hObject, hNames.name_of_find? hFind hIsArray, hName.1]
  have hLeads : w₂.find? (w₂.registry.object id).name = some id := by
    rw [hOwn]
    exact hGains.find? hName.2 hHas hFind
  refine ⟨hGains, ?_, (hRow.reaches.later hColumn.gains).bind hLeads, hColumn.reaches.bind hLeads⟩
  rw [hObject] at hOwn ⊢
  simp [hOwn, hIsArray]

theorem resolve_binds (kinds : ParameterKinds) {phrase : Phrase} (hPlain : phrase.Plain)
    (options : ClassifyOptions) (hNames : w.NamesArrays) :
    Meets (resolve kinds options phrase) w (fun _ => True) (Binds w) := by
  induction phrase generalizing w options with
  | literal a => exact noteCreated_binds ⟨.refl w, reaches_literal hPlain⟩
  | malformed e => exact .throw _ trivial
  | identifier description =>
    refine .bind ((identifier_means kinds options description w).mono (fun _ _ => trivial) fun _ _ =>
      Means.binds) ?_
    exact fun a w' h => noteCreated_binds h
  | element description name row column ihRow ihColumn =>
    refine .get (.lift_bind trivial fun id hArray => ?_)
    refine .bind (ihRow hPlain.2.1 .index hNames) ?_
    intro row w₁ hRow
    refine .bind (ihColumn hPlain.2.2 .index (hRow.gains.namesArrays hNames)) ?_
    intro column w₂ hColumn
    exact .get (noteCreated_binds (binds_element hNames hPlain.1 hArray hRow hColumn))

end Classify

/-- Classifying gives a bound accessor, and at most new Parameters besides. -/
theorem classify_binds {w : Workspace} (hNames : w.NamesArrays) (kinds : ParameterKinds)
    (options : ClassifyOptions) (text : String) :
    Meets (classify kinds options text) w (fun _ => True) (Classify.Binds w) :=
  Classify.resolve_binds kinds (Phrase.plain_parse text) options hNames

end Mission
