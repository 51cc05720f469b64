import Mission.Proofs.Accessor.Footprint
import Mission.Proofs.Checking.Changes
import Mission.Proofs.Checking.FinalPass
import Mission.Proofs.Parameter.Scoping

/-! Parameters and the order in which a script is written. A Parameter looks for its owner and its
dependency when it is created, and once more in the final pass if it has no owner then. Only the
first search checks the type of the owner, and a Parameter that has found its owner never looks for
its dependency again. So whether a Parameter is bound as it should be depends on what was there
first. Identities are given in the order of creation, so they tell. -/
namespace Mission

open Registry Outcome Parameter Object Option Store

namespace Workspace

variable {r : Registry} {id owner : ObjectId} {p : SystemParameter} {o : Object} {kind : ParameterKind}
  {name : String}

/-! ### What stays while a script is written -/

/-- Objects may have been added, and all others are of the type they were. A name leads where it
led, or to an object that is new. -/
structure Precedes (w w' : Workspace) : Prop where
  has : ∀ {id}, w.registry.Has id → w'.registry.Has id
  objectType : ∀ {id}, w.registry.Has id → (w'.registry.object id).objectType =
    (w.registry.object id).objectType
  find? : ∀ name, w'.find? name = w.find? name ∨ ∃ id, w'.find? name = some id ∧ ¬ w.registry.Has id

/-- Nothing is named in addition, all names lead where they led, and the Parameters are the same. -/
structure Steady (w w' : Workspace) : Prop where
  scope : w'.scope = w.scope
  has : ∀ {id}, w.registry.Has id → w'.registry.Has id
  kind : ∀ {id}, w.registry.Has id → (w.registry.object id).SameKind (w'.registry.object id)
  find? : ∀ name, w'.find? name = w.find? name

variable {w w' w'' : Workspace}

theorem Steady.refl (w : Workspace) : w.Steady w :=
  ⟨rfl, id, fun _ => ⟨rfl, rfl, rfl⟩, fun _ => rfl⟩

theorem Steady.trans (h : w.Steady w') (h' : w'.Steady w'') : w.Steady w'' where
  scope := h'.scope.trans h.scope
  has hId := h'.has (h.has hId)
  kind hId := by
    have hFirst := h.kind hId
    have hSecond := h'.kind (h.has hId)
    exact ⟨hSecond.typeName.trans hFirst.typeName, hSecond.objectType.trans hFirst.objectType,
      hSecond.parameter.trans hFirst.parameter⟩
  find? name := (h'.find? name).trans (h.find? name)

theorem Steady.note (h : w.Steady w') (level : Level) (text : String) : w.Steady (w'.note level text) :=
  ⟨h.scope, h.has, h.kind, h.find?⟩

theorem Steady.precedes (h : w.Steady w') : w.Precedes w' :=
  ⟨h.has, fun hId => (h.kind hId).objectType, fun name => .inl (h.find? name)⟩

/-- The names of a script lead to the solar system, to an object of the store, or to a body. -/
theorem find?_of_outer (hOuter : w.scope.outer = none) (name : String) :
    w.find? name =
      if Name.stripIndex name = "SolarSystem" then w.scope.store.solarSystem
      else w.scope.store.objects.get? (Name.stripIndex name) <|>
        w.scope.store.solarSystem.bind fun system => w.registry.findOwned system (Name.stripIndex name) := by
  simp [Workspace.find?, Scope.find?, hOuter, Store.find?]

/-! ### Parameters in their places -/

/-- What holds of a Parameter until the final pass, whatever has been added after it. -/
structure Placed (w : Workspace) (id : ObjectId) (p : SystemParameter) : Prop where
  /-- An owner that has been found was there first, and its type has been checked. -/
  owner : ∀ {o}, p.owner = some o →
    o.index < id.index ∧ (w.registry.object o).isOfType p.kind.ownerType = true ∧ w.registry.Has o
  /-- An owner that has not been found was not there. -/
  later : p.owner = none → ∀ {o}, w.find? p.ownerName = some o → id.index < o.index
  known : ∀ {d}, p.dependencyObject = some d → w.registry.Has d
  dependency : p.dependency.isEmpty = false → ∀ {d}, w.find? p.dependency = some d →
    (p.dependencyObject = some d ↔ d.index < id.index)

theorem index_lt_of_not_has {d : ObjectId} (hId : r.Has id) (hNew : ¬ r.Has d) : id.index < d.index := by
  have hEnd : r.entries.size ≤ d.index := Nat.le_of_not_lt hNew
  exact Nat.lt_of_lt_of_le hId hEnd

theorem Placed.later_on (h : w.Placed id p) (hId : w.registry.Has id) (hPrecedes : w.Precedes w') :
    w'.Placed id p where
  owner hOwner := by
    obtain ⟨hFirst, hType, hHas⟩ := h.owner hOwner
    refine ⟨hFirst, ?_, hPrecedes.has hHas⟩
    rw [isOfType, hPrecedes.objectType hHas]
    exact hType
  later hNone o hFound := by
    rcases hPrecedes.find? p.ownerName with hSame | ⟨new, hNewFound, hNew⟩
    · exact h.later hNone (hSame ▸ hFound)
    · obtain rfl : new = o := Option.some.inj (hNewFound.symm.trans hFound)
      exact index_lt_of_not_has hId hNew
  known hDependency := hPrecedes.has (h.known hDependency)
  dependency hNamed d hFound := by
    rcases hPrecedes.find? p.dependency with hSame | ⟨new, hNewFound, hNew⟩
    · exact h.dependency hNamed (hSame ▸ hFound)
    · -- An object that came after the Parameter has taken the name.
      obtain rfl : new = d := Option.some.inj (hNewFound.symm.trans hFound)
      have hAfter := index_lt_of_not_has hId hNew
      constructor
      · exact fun hIs => absurd (h.known hIs) hNew
      · intro hBefore
        omega

/-- The workspace of a script: there is no function around it, and the solar system is one. -/
structure Scripted (w : Workspace) : Prop where
  sound : w.Sound
  outer : w.scope.outer = none
  system : ∀ {id}, w.scope.store.solarSystem = some id → (w.registry.object id).objectType = .solarSystem

theorem Scripted.later_on (h : w.Scripted) (hSound : w'.Sound) (hOuter : w'.scope.outer = none)
    (hSystem : w'.scope.store.solarSystem = w.scope.store.solarSystem) (hPrecedes : w.Precedes w') :
    w'.Scripted where
  sound := hSound
  outer := hOuter
  system hIs := by
    rw [hSystem] at hIs
    rw [hPrecedes.objectType (h.sound.scope.store.system hIs).1.has]
    exact h.system hIs

/-- What holds of the workspace of a script while it is written. -/
structure Orderly (w : Workspace) : Prop extends w.Scripted where
  placed : ∀ {id p}, id ∈ w.scope.store.objects.values → (w.registry.object id).parameter? = some p →
    w.Placed id p

theorem Sound.has_of_mem (h : w.Sound) (hMem : id ∈ w.scope.store.objects.values) : w.registry.Has id := by
  obtain ⟨entry, hEntry, rfl⟩ := List.mem_map.mp hMem
  exact (h.scope.store.root hEntry).has

/-- Where all Parameters that are named in addition are in their places, all Parameters are. -/
theorem Orderly.later_on (h : w.Orderly) (hScripted : w'.Scripted) (hPrecedes : w.Precedes w')
    (hSame : ∀ {id}, w.registry.Has id → (w'.registry.object id).parameter? =
      (w.registry.object id).parameter?)
    (hNew : ∀ {id p}, id ∈ w'.scope.store.objects.values → id ∉ w.scope.store.objects.values →
      (w'.registry.object id).parameter? = some p → w'.Placed id p) : w'.Orderly where
  toScripted := hScripted
  placed {id p} hMem hParameter := by
    by_cases hOld : id ∈ w.scope.store.objects.values
    · have hHas := h.sound.has_of_mem hOld
      rw [hSame hHas] at hParameter
      exact (h.placed hOld hParameter).later_on hHas hPrecedes
    · exact hNew hMem hOld hParameter

/-! ### The steps of writing a script -/

theorem Orderly.steady (h : w.Orderly) (hScripted : w'.Scripted) (hSteady : w.Steady w') : w'.Orderly := by
  refine h.later_on hScripted hSteady.precedes (fun hId => (hSteady.kind hId).parameter) ?_
  intro id p hMem hOld
  rw [hSteady.scope] at hMem
  exact absurd hMem hOld

theorem Scripted.note (h : w.Scripted) (level : Level) (text : String) : (w.note level text).Scripted :=
  ⟨⟨h.sound.forest, h.sound.scope⟩, h.outer, h.system⟩

/-- Added objects are no bodies of the solar system. -/
theorem Scripted.bodies_grows (h : w.Scripted) (hGrows : Grows w.registry r) (key : String) :
    (w.scope.store.solarSystem.bind fun system => r.findOwned system key) =
      w.scope.store.solarSystem.bind fun system => w.registry.findOwned system key :=
  bind_congr fun _ hIs => hGrows.findOwned h.sound.forest (h.sound.scope.store.system hIs).1.has key

/-- Objects are added that nothing names. -/
theorem Scripted.grows (h : w.Scripted) (hGrows : Grows w.registry r) :
    Scripted { w with registry := r } ∧ w.Steady { w with registry := r } := by
  have hSteady : w.Steady { w with registry := r } := by
    refine ⟨rfl, hGrows.has, fun hOld => ?_, fun text => ?_⟩
    · rw [hGrows.object hOld]
      exact ⟨rfl, rfl, rfl⟩
    · rw [find?_of_outer h.outer, find?_of_outer (by exact h.outer)]
      dsimp only
      rw [h.bodies_grows hGrows]
  have hSound := ((Becomes.refl h.sound).evolve (hGrows.evolves _)).sound
  exact ⟨h.later_on hSound h.outer rfl hSteady.precedes, hSteady⟩

/-- An object is named that has just been added. -/
theorem Scripted.precedes_insert (h : w.Scripted) (hGrows : Grows w.registry r) (name : String)
    (hNew : ¬ w.registry.Has id) :
    w.Precedes { w with
      registry := r
      scope := { w.scope with store := { w.scope.store with objects := w.scope.store.objects.insert name id }
        } } := by
  refine ⟨hGrows.has, fun hOld => congrArg objectType (hGrows.object hOld), fun text => ?_⟩
  rw [find?_of_outer h.outer, find?_of_outer (by exact h.outer)]
  dsimp only
  rw [h.bodies_grows hGrows]
  by_cases hSystem : Name.stripIndex text = "SolarSystem"
  · exact .inl (by simp [hSystem])
  · rw [if_neg hSystem, if_neg hSystem]
    by_cases hKey : Name.stripIndex text = name
    · exact .inr ⟨id, by simp [hKey, Table.get?_insert_self], hNew⟩
    · exact .inl (by rw [Table.get?_insert_of_ne hKey])

theorem parameter?_eq_some : o.parameter? = some p ↔ o.content = .parameter p := by
  unfold parameter?
  split
  · next q hContent => simp [hContent]
  · next hContent => simpa using hContent p

/-- A Parameter is in its place when it has been created. -/
theorem Scripted.placed_of_describe (h : w.Scripted) {owner dependency : String}
    (hDescribed : describe w kind name owner dependency = .ok p) (hPrecedes : w.Precedes w')
    (hOwner : w'.find? owner = w.find? owner) (hId : id.index = w.registry.entries.size) :
    w'.Placed id p := by
  have hHas : ∀ {text d}, w.find? text = some d → w.registry.Has d := fun hFound =>
    (h.sound.find?_whole hFound).has
  have hOlder : ∀ {d}, w.registry.Has d ↔ d.index < id.index := by
    intro d
    rw [hId]
    rfl
  dsimp only [describe] at hDescribed
  generalize (if dependency.isEmpty = true then _ else dependency) = named at hDescribed
  split at hDescribed
  · cases hDescribed
  · next hType =>
      cases hDescribed
      refine ⟨?_, ?_, ?_, ?_⟩
      · intro o hFound
        change w.find? owner = some o at hFound
        refine ⟨hOlder.mp (hHas hFound), ?_, hPrecedes.has (hHas hFound)⟩
        have hIs : (w.registry.object o).isOfType kind.ownerType = true := by simpa [hFound] using hType
        rw [isOfType, hPrecedes.objectType (hHas hFound)]
        exact hIs
      · intro hNone o hFound
        change w.find? owner = none at hNone
        change w'.find? owner = some o at hFound
        rw [hOwner, hNone] at hFound
        cases hFound
      · intro d hDependency
        dsimp only at hDependency
        split at hDependency
        · cases hDependency
        · exact hPrecedes.has (hHas hDependency)
      · intro hNamed d hFound
        dsimp only at hNamed hFound ⊢
        rw [hNamed, ← hOlder]
        rcases hPrecedes.find? named with hSame | ⟨new, hNewFound, hNew⟩
        · rw [hSame] at hFound
          simpa [hFound] using hHas hFound
        · obtain rfl : new = d := Option.some.inj (hNewFound.symm.trans hFound)
          exact ⟨fun hIs => hHas hIs, fun hOld => absurd hOld hNew⟩

theorem Orderly.withParameter (h : w.Orderly) {typeName : String} (hDot : '.' ∈ name.toList)
    (hFree : w.scope.store.contains name = false)
    (hDescribed : describe w kind name (DottedName.parse name).owner
      (DottedName.parse name).dependency = .ok p) :
    (withParameter w name ⟨name, typeName, .parameter, {}, .parameter p⟩).Orderly := by
  let o : Object := ⟨name, typeName, .parameter, {}, .parameter p⟩
  obtain ⟨hAdds, -⟩ := adds_withParameter h.sound hDot (o := o) rfl hFree
  have hPrecedes : w.Precedes (Parameter.withParameter w name o) :=
    h.precedes_insert hAdds.grows name (not_has_push_id w.registry { object := o })
  refine h.later_on (h.toScripted.later_on hAdds.becomes.sound h.outer rfl hPrecedes) hPrecedes
    (fun hOld => congrArg parameter? (hAdds.grows.object hOld)) ?_
  intro id q hMem hOld hParameter
  obtain rfl : id = (w.registry.push { object := o }).1 :=
    (Table.mem_values_insert hMem).resolve_right hOld
  have hObject : (Parameter.withParameter w name o).registry.object (w.registry.push { object := o }).1 =
    o := by
    rw [Registry.object, Parameter.withParameter, entry_push_id]
  rw [hObject] at hParameter
  obtain rfl : p = q := Option.some.inj hParameter
  exact h.placed_of_describe hDescribed hPrecedes (hAdds.find? (DottedName.dot_not_mem_owner name)) rfl

/-- An object of the same kind is written in the place of another. -/
theorem Scripted.setObject (h : w.Scripted) (hTakes : (w.registry.object id).Takes o) :
    ({ w with registry := w.registry.setObject id o } : Workspace).Scripted ∧
      w.Steady { w with registry := w.registry.setObject id o } := by
  have hSound := ((Becomes.refl h.sound).evolve (evolves_setObject w.system hTakes.sameShape)).sound
  have hSteady : w.Steady { w with registry := w.registry.setObject id o } := by
    refine ⟨rfl, fun hId => hId, ?_, ?_⟩
    · intro other _
      rcases object_setObject_cases w.registry id other o with hSame | ⟨rfl, hSame⟩
      · rw [hSame]
        exact ⟨rfl, rfl, rfl⟩
      · rw [hSame]
        exact hTakes.sameKind
    · refine find?_of_sameParts rfl (sameParts_modifyObject w.registry id fun _ => o) ?_
      intro other
      rcases object_setObject_cases w.registry id other o with hSame | ⟨rfl, hSame⟩
      · rw [hSame]
      · rw [hSame, hTakes.sameShape.name]
  exact ⟨h.later_on hSound h.outer rfl hSteady.precedes, hSteady⟩

/-- A coordinate system is given axes. -/
theorem Scripted.replaceOwned (h : w.Scripted) (hType : (w.registry.object id).objectType = .coordinateSystem)
    (t : ObjectType) (part : Assembly) :
    ({ w with registry := w.registry.replaceOwned id t part } : Workspace).Scripted ∧
      w.Steady { w with registry := w.registry.replaceOwned id t part } := by
  have hHas : w.registry.Has id := by
    refine Classical.byContradiction fun hHas => ?_
    rw [object, entry_of_not_has hHas] at hType
    cases hType
  have hSound := ((Becomes.refl h.sound).evolve (evolves_replaceOwned w.system hHas t part)).sound
  have hGrows := (install_grows w.registry part).1
  have hBody : ∀ {system}, w.scope.store.solarSystem = some system → ∀ key,
      (w.registry.replaceOwned id t part).findOwned system key = w.registry.findOwned system key := by
    intro system hIs key
    have hSystem := (h.sound.scope.store.system hIs).1.has
    have hApart : system ≠ id := by
      rintro rfl
      rw [h.system hIs] at hType
      cases hType
    have hOwned : (w.registry.replaceOwned id t part).owned system = w.registry.owned system := by
      rw [owned, Registry.replaceOwned, entry_modify_ne hApart, hGrows.entry hSystem]
      rfl
    rw [findOwned, findOwned, hOwned]
    refine List.find?_congr fun body hBody => ?_
    rw [object_replaceOwned (h.sound.forest.has hBody)]
  have hSteady : w.Steady { w with registry := w.registry.replaceOwned id t part } := by
    refine ⟨rfl, hGrows.has, ?_, fun name => ?_⟩
    · intro other hOther
      rw [object_replaceOwned hOther]
      exact ⟨rfl, rfl, rfl⟩
    · rw [find?_of_outer h.outer, find?_of_outer (by exact h.outer)]
      dsimp only
      rw [bind_congr fun system hIs => hBody hIs (Name.stripIndex name)]
  exact ⟨h.later_on hSound h.outer rfl hSteady.precedes, hSteady⟩

/-- Giving axes to the coordinate systems that have none keeps all else. -/
theorem Scripted.givesAxes (h : w.Scripted) (hGives : Checker.GivesAxes w w') :
    w'.Scripted ∧ w.Steady w' := by
  induction hGives with
  | refl => exact ⟨h, .refl w⟩
  | note _ level text ih => exact ⟨ih.1.note level text, ih.2.note level text⟩
  | part _ type known _ ih =>
    obtain ⟨hScripted, hSteady⟩ := ih.1.replaceOwned type _ _
    exact ⟨hScripted, ih.2.trans hSteady⟩
  | both _ type known set ih =>
    obtain ⟨hPart, hSteady⟩ := ih.1.replaceOwned type _ _
    obtain ⟨hScripted, hSteady'⟩ := hPart.setObject (takes_set set)
    exact ⟨hScripted, (ih.2.trans hSteady).trans hSteady'⟩

/-- Classifying texts and checking commands keep the workspace orderly. -/
theorem Orderly.changes {kinds : ParameterKinds} {written : String → Prop} (h : w.Orderly)
    (hChanges : Changes kinds written w w') : w'.Orderly := by
  induction hChanges with
  | refl => exact h
  | @note w' _ level text ih =>
    exact ih.steady (ih.toScripted.note level text) ((Steady.refl w').note level text)
  | parameter _ dotted _ unknown known described free ih => exact ih.withParameter dotted free described
  | @axes w' _ lhs axisType id axes system target field found known set ih =>
    obtain ⟨hSet, hSteady⟩ := ih.toScripted.setObject (takes_set set)
    have hCoordinate := objectType_of_findOfType? found
    have hHas : w'.registry.Has id := (ih.sound.find?_whole (find?_of_findOfType? found)).has
    have hType := (hSteady.kind hHas).objectType.trans hCoordinate
    obtain ⟨hReplaced, hSteady'⟩ := hSet.replaceOwned hType .axisSystem axes
    exact ih.steady hReplaced (hSteady.trans hSteady')

/-- Binding the Parameters. -/
theorem Scripted.resolves (h : w.Scripted) {ids : List ObjectId} (hResolves : Parameter.Resolves w ids w')
    (hSound : w'.Sound) : w'.Scripted ∧ w.Precedes w' := by
  have hPrecedes : w.Precedes w' :=
    ⟨hResolves.parts.has, fun _ => hResolves.objectType _, fun name => .inl (hResolves.find? name)⟩
  refine ⟨h.later_on hSound ?_ ?_ hPrecedes, hPrecedes⟩
  · rw [hResolves.scope]
    exact h.outer
  · rw [hResolves.scope]

/-! ### After the final pass -/

/-- The owner of the Parameter is of the type that its kind asks for, and its dependency, if it has
one, is the object that the name of the dependency leads to. -/
def BoundIn (w : Workspace) (p : SystemParameter) : Prop :=
  ∃ owner, p.owner = some owner ∧ (w.registry.object owner).isOfType p.kind.ownerType = true ∧
    (p.dependency.isEmpty = false → ∃ d, w.find? p.dependency = some d ∧ p.dependencyObject = some d)

/-- The owner came before the Parameter or is of the type that is asked for, and the object that the
dependency leads to came before the Parameter, unless the owner came after it. -/
def InOrder (w : Workspace) (id owner : ObjectId) (p : SystemParameter) : Prop :=
  (owner.index < id.index ∨ (w.registry.object owner).isOfType p.kind.ownerType = true) ∧
    (p.dependency.isEmpty = false →
      ∃ d, w.find? p.dependency = some d ∧ (d.index < id.index ∨ id.index < owner.index))

/-- A Parameter that had found its owner before the final pass. -/
theorem Placed.boundIn_iff (h : w.Placed id p) (hOwner : p.owner = some owner) :
    w.BoundIn p ↔ w.InOrder id owner p := by
  obtain ⟨hBefore, hType, -⟩ := h.owner hOwner
  have hNotAfter : ¬ id.index < owner.index := by omega
  simp only [BoundIn, InOrder, hOwner, Option.some.injEq, exists_eq_left', hType, true_and, or_true,
    hNotAfter, or_false]
  refine forall_congr' fun hNamed => exists_congr fun d => and_congr_right fun hFound => ?_
  exact h.dependency hNamed hFound

/-- A Parameter that finds its owner in the final pass. -/
theorem Placed.boundIn_resolved_iff (h : w.Placed id p) (hNone : p.owner = none)
    (hFind : ∀ name, w'.find? name = w.find? name) (hOwner : (resolved w p).owner = some owner) :
    w'.BoundIn (resolved w p) ↔ w'.InOrder id owner (resolved w p) := by
  have hResolved : resolved w p =
      p.bind (w.find? p.ownerName) (if p.dependency.isEmpty then none else w.find? p.dependency) := by
    simp [resolved, hNone]
  have hDependency : (resolved w p).dependency = p.dependency := by
    rw [hResolved, SystemParameter.bind]
  have hFound : w.find? p.ownerName = some owner := by
    rw [hResolved] at hOwner
    simpa [SystemParameter.bind, hNone] using hOwner
  have hAfter := h.later hNone hFound
  have hNotBefore : ¬ owner.index < id.index := by omega
  simp only [BoundIn, InOrder, hOwner, Option.some.injEq, exists_eq_left', hAfter, or_true, and_true,
    hNotBefore, false_or]
  refine and_congr_right fun _ => forall_congr' fun hNamed => exists_congr fun d =>
    and_iff_left_of_imp fun hThere => ?_
  rw [hDependency] at hNamed hThere
  rw [hFind] at hThere
  rw [hResolved]
  simp [SystemParameter.bind, hNamed, hThere]

theorem parameter?_resolvedObject (w : Workspace) (o : Object) :
    (resolvedObject w o).parameter? = o.parameter?.map (resolved w) := by
  obtain ⟨name, typeName, objectType, properties, content⟩ := o
  cases content <;> rfl

/-- After a final pass without errors every Parameter has an owner, and it is bound as it should be
exactly if its owner and its dependency came in order. -/
theorem Orderly.finalPass {ck : Checker} {s s' : CheckState} {valid : Bool} (h : s.workspace.Orderly)
    (hRun : ck.finalPass s = (.ok valid, s')) (hErrors : s'.errors = [])
    (hMem : id ∈ s'.workspace.scope.store.objects.values)
    (hParameter : (s'.workspace.registry.object id).parameter? = some p) :
    ∃ owner, p.owner = some owner ∧ (s'.workspace.BoundIn p ↔ s'.workspace.InOrder id owner p) := by
  obtain ⟨hResolves, hOwners⟩ := bindAll_spec h.sound.scope.store.distinct
  have hBound := (Checker.becomes_bindAll (.refl h.sound)).sound
  obtain ⟨hScripted, hPrecedes⟩ := h.toScripted.resolves hResolves hBound
  have hGives := ck.givesAxes_finalPass s
  rw [hRun] at hGives
  obtain ⟨-, hSteady⟩ := hScripted.givesAxes hGives
  have hFind : ∀ name, s'.workspace.find? name = s.workspace.find? name := fun name =>
    (hSteady.find? name).trans (hResolves.find? name)
  rw [hSteady.scope, hResolves.scope] at hMem
  have hHas := h.sound.has_of_mem hMem
  rw [(hSteady.kind (hPrecedes.has hHas)).parameter, hResolves.object, if_pos hMem,
    parameter?_resolvedObject] at hParameter
  obtain ⟨q, hBefore, rfl⟩ := map_eq_some_iff.mp hParameter
  have hPlaced := h.placed hMem hBefore
  have hSome := hOwners (Checker.missing_of_finalPass hRun hErrors) id hMem q (parameter?_eq_some.mp hBefore)
  obtain ⟨owner, hOwner⟩ := isSome_iff_exists.mp hSome
  refine ⟨owner, hOwner, ?_⟩
  cases hFirst : q.owner with
  | none => exact hPlaced.boundIn_resolved_iff hFirst hFind hOwner
  | some first =>
    have hSame : resolved s.workspace q = q := by simp [resolved, hFirst]
    rw [hSame] at hOwner ⊢
    have hPrecedes' : s.workspace.Precedes s'.workspace :=
      ⟨fun hId => hSteady.has (hPrecedes.has hId),
        fun hId => (hSteady.kind (hPrecedes.has hId)).objectType.trans (hPrecedes.objectType hId),
        fun name => .inl (hFind name)⟩
    exact (hPlaced.later_on hHas hPrecedes').boundIn_iff hOwner

end Workspace

/-! ### Scripts -/

/-- No system Parameter is created by the name of its type. -/
theorem Catalog.parameter?_create {typeName name : String} {a : Assembly} (h : create typeName name = .ok a) :
    a.object.parameter? = none := by
  unfold create at h
  split at h
  case h_12 => cases h
  all_goals
    cases h
    rfl

namespace Session

/-- The sessions in which a script is being written: objects are created, texts are classified and
commands are added, in any order. -/
inductive Prepared : Session → Prop
  | new (settings : Settings) : Prepared (.new settings)
  | add {s : Session} (a : Assembly) (h : a.object.parameter? = none) : Prepared s → Prepared (s.add a).2
  | create {s : Session} (typeName name : String) : Prepared s → Prepared (s.create typeName name).2
  | addFunction {s : Session} (f : FunctionDeclaration) : Prepared s → Prepared (s.addFunction f)
  | push {s : Session} (c : Command) : Prepared s → Prepared (s.push c)
  | classify {s : Session} (options : ClassifyOptions) (text : String) :
      Prepared s → Prepared (s.classify options text).2
  | evaluate {s : Session} (text : String) : Prepared s → Prepared (s.evaluate text).2

theorem orderly_new (settings : Settings) : (Session.new settings).workspace.Orderly := by
  have hDefaults : (∀ id ∈ (withDefaults {}).1.solarSystem,
        ((withDefaults {}).2.object id).objectType = .solarSystem) ∧
      ∀ id ∈ (withDefaults {}).1.objects.values,
        ((withDefaults {}).2.object id).parameter?.isSome = false := by
    decide +kernel
  refine ⟨⟨⟨sound_withDefaults.1, sound_withDefaults.2, nofun⟩, rfl, hDefaults.1 _⟩,
    fun {id p} hMem hSome => ?_⟩
  have hNone := hDefaults.2 id hMem
  have hThere : ((withDefaults {}).2.object id).parameter? = some p := hSome
  rw [hThere] at hNone
  cases hNone

theorem orderly_add {s : Session} (h : s.workspace.Orderly) {a : Assembly} (ha : a.object.parameter? = none) :
    (s.add a).2.workspace.Orderly := by
  have hScripted := h.toScripted
  dsimp only [Session.add]
  split
  · next id store r hAdd =>
      have hSound : ({ s with store, registry := r } : Session).workspace.Sound := by
        obtain ⟨hGrows, hSound, -⟩ := add_spec h.sound.scope.store h.sound.forest hAdd
        exact ⟨h.sound.forest.later (hGrows.evolves none), hSound, nofun⟩
      obtain ⟨-, rfl, rfl, rfl⟩ := add_eq_ok hAdd
      obtain ⟨hGrows, hLoose⟩ := install_grows s.registry a
      have hPrecedes := hScripted.precedes_insert hGrows a.object.name hLoose.new
      refine h.later_on (hScripted.later_on hSound rfl rfl hPrecedes) hPrecedes
        (fun hOld => congrArg parameter? (hGrows.object hOld)) ?_
      intro id p hMem hOld hSome
      obtain rfl := (Table.mem_values_insert hMem).resolve_right hOld
      have hObject := congrArg parameter? (object_install s.registry a)
      rw [ha] at hObject
      cases hObject.symm.trans hSome
  · exact h

theorem orderly_classify {s : Session} (h : s.workspace.Orderly) (options : ClassifyOptions) (text : String) :
    (s.classify options text).2.workspace.Orderly := by
  have hChanges : Changes s.checker.kinds (fun _ => True) s.workspace
      (Mission.classify s.checker.kinds options text s.workspace).2 := classify_changing options text _
  have hBecomes := (adds_classify h.sound s.checker.kinds options text).becomes
  rw [classify_state, workspace_withWorkspace hBecomes.path]
  exact h.changes hChanges

theorem Prepared.orderly {s : Session} (h : s.Prepared) : s.workspace.Orderly := by
  induction h with
  | new settings => exact orderly_new settings
  | add a ha _ ih => exact orderly_add ih ha
  | @create s typeName name _ ih =>
    unfold Session.create
    split
    · next a ha => exact orderly_add ih (Catalog.parameter?_create ha)
    · exact ih
  | @addFunction s f _ ih =>
    obtain ⟨hScripted, hSteady⟩ := ih.toScripted.grows (holdAll_grows s.registry f.locals)
    exact ih.steady (hScripted.note _ _) (hSteady.note _ _)
  | push c _ ih => exact ih
  | classify options text _ ih => exact orderly_classify ih options text
  | @evaluate s text _ ih =>
    rw [evaluate_state]
    exact orderly_classify ih {} text

/-- Once a script has been accepted, every Parameter has an owner. The owner is of the right type
and the dependency is the object of its name exactly if the owner came before the Parameter or is of
the right type by chance, and the object of the name came before the Parameter or the owner after
it. -/
theorem validate_binds_parameters_iff {s s' : Session} (hPrepared : s.Prepared)
    (h : s.validate = (.ok (), s')) {name : String} {id : ObjectId} {p : SystemParameter}
    (hMem : (name, id) ∈ s'.store.objects.entries)
    (hContent : (s'.registry.object id).content = .parameter p) :
    ∃ owner, p.owner = some owner ∧ (s'.workspace.BoundIn p ↔ s'.workspace.InOrder id owner p) := by
  have hOrderly := hPrepared.orderly
  rcases hAll : s.checker.validateAll s.commands { workspace := s.workspace } with ⟨x, commands, c⟩
  have hBound := (s.checker.validateAll_spec (s := { workspace := s.workspace }) hOrderly.sound hAll).1
  have hWritten : Checker.AllWritten (fun _ => True) s.commands := ⟨fun _ _ => trivial⟩
  obtain ⟨hChanges, -⟩ := s.checker.validateAll_changes hWritten hAll
  rw [validate_eq_match, hAll] at h
  cases x with
  | error e => cases h
  | ok valid =>
    dsimp only at h
    split at h
    · cases h
    · next fine c' hFinal =>
        split at h
        · next hErrors =>
            cases h
            have hBecomes := hBound.trans (s.checker.becomes_finalPass hBound.sound)
            rw [hFinal] at hBecomes
            have hTaken : Session.workspace (s.withWorkspace c'.workspace) = c'.workspace :=
              workspace_withWorkspace hBecomes.path
            have hMem' : id ∈ c'.workspace.scope.store.objects.values := List.mem_map_of_mem hMem
            have hBinds := (hOrderly.changes hChanges).finalPass hFinal (List.isEmpty_iff.mp hErrors) hMem'
              (Workspace.parameter?_eq_some.mpr hContent)
            rw [← hTaken] at hBinds
            exact hBinds
        · cases h

/-- The Parameter of a name and its identity. -/
def parameterOf (s : Session) (name : String) : Option (ObjectId × SystemParameter) :=
  (s.store.objects.get? name).bind fun id => (s.registry.object id).parameter?.map fun p => (id, p)

theorem exists_of_parameterOf {s : Session} {name : String} {f : ObjectId × SystemParameter → Bool}
    (h : (s.parameterOf name).any f = true) :
    ∃ id p, (name, id) ∈ s.store.objects.entries ∧ (s.registry.object id).content = .parameter p ∧
      f (id, p) = true := by
  obtain ⟨⟨id, p⟩, hSome, hf⟩ := (any_eq_true _ _).mp h
  obtain ⟨id', hId, hMap⟩ := bind_eq_some_iff.mp hSome
  obtain ⟨p', hParameter, hPair⟩ := map_eq_some_iff.mp hMap
  cases hPair
  exact ⟨id, p, Table.mem_of_get? hId, Workspace.parameter?_eq_some.mp hParameter, hf⟩

theorem validate_of_isOk (s : Session) (h : s.validate.1.isOk = true) :
    s.validate = (.ok (), s.validate.2) := by
  rcases hRun : s.validate with ⟨x, s'⟩
  rw [hRun] at h
  cases x with
  | error e => cases h
  | ok u => rfl

/-- A body comes before the Parameter that depends on it, and a spacecraft after a Parameter of it. -/
def timelyScript : Session :=
  let s := ((Session.new {}).add (Catalog.spacecraft "sat1")).2
  let s := (s.add (Catalog.celestialBody "Kerbin" 3531.6 600.0)).2
  let s := (s.classify {} "sat1.Kerbin.SMA").2
  let s := (s.classify {} "late.Kerbin.SMA").2
  (s.add (Catalog.spacecraft "late")).2

/-- The owner comes after the Parameter, which is bound when the script is accepted. -/
theorem validate_binds_parameters_timelyScript :
    ∃ s' id p, timelyScript.validate = (.ok (), s') ∧ ("late.Kerbin.SMA", id) ∈ s'.store.objects.entries ∧
      (s'.registry.object id).content = .parameter p ∧ s'.workspace.BoundIn p := by
  have hRuns : timelyScript.validate.1.isOk = true ∧
      (timelyScript.validate.2.parameterOf "late.Kerbin.SMA").any (fun x =>
        x.2.owner.any (fun o => x.1.index < o.index &&
          (timelyScript.validate.2.registry.object o).isOfType x.2.kind.ownerType) &&
        (timelyScript.validate.2.workspace.find? x.2.dependency).isSome) = true := by
    decide +kernel
  obtain ⟨hOk, hParameter⟩ := hRuns
  have hValidate := validate_of_isOk timelyScript hOk
  obtain ⟨id, p, hMem, hContent, hOrder⟩ := exists_of_parameterOf hParameter
  have hPrepared : timelyScript.Prepared :=
    .add _ rfl (.classify _ _ (.classify _ _ (.add _ rfl (.add _ rfl (.new _)))))
  obtain ⟨owner, hOwner, hBound⟩ := validate_binds_parameters_iff hPrepared hValidate hMem hContent
  refine ⟨_, id, p, hValidate, hMem, hContent, hBound.mpr ?_⟩
  simp only [hOwner, Option.any_some, Bool.and_eq_true, decide_eq_true_eq] at hOrder
  obtain ⟨⟨hAfter, hType⟩, hFound⟩ := hOrder
  obtain ⟨d, hd⟩ := Option.isSome_iff_exists.mp hFound
  exact ⟨.inr hType, fun _ => ⟨d, hd, .inr hAfter⟩⟩

/-- A body comes after the Parameter that depends on it, and a burn after a Parameter for spacecraft. -/
def belatedScript : Session :=
  let s := ((Session.new {}).add (Catalog.spacecraft "sat1")).2
  let s := (s.classify {} "sat1.Kerbin.SMA").2
  let s := (s.classify {} "late.VMAG").2
  let s := (s.add (Catalog.celestialBody "Kerbin" 3531.6 600.0)).2
  (s.add (Catalog.impulsiveBurn "late")).2

/-- The script is accepted. One Parameter has no dependency object, although the name of the
dependency leads to a body, and the other has a burn for a spacecraft. -/
theorem validate_misbinds_parameters :
    ∃ s', belatedScript.Prepared ∧ belatedScript.validate = (.ok (), s') ∧
      (∃ id p, ("sat1.Kerbin.SMA", id) ∈ s'.store.objects.entries ∧
        (s'.registry.object id).content = .parameter p ∧ p.dependencyObject = none ∧
        (s'.find? p.dependency).isSome = true ∧ ¬ s'.workspace.BoundIn p) ∧
      ∃ id p, ("late.VMAG", id) ∈ s'.store.objects.entries ∧
        (s'.registry.object id).content = .parameter p ∧ ¬ s'.workspace.BoundIn p := by
  have hRuns : belatedScript.validate.1.isOk = true ∧
      (belatedScript.validate.2.parameterOf "sat1.Kerbin.SMA").any (fun x =>
        !x.2.dependency.isEmpty && x.2.dependencyObject.isNone &&
          (belatedScript.validate.2.find? x.2.dependency).isSome) = true ∧
      (belatedScript.validate.2.parameterOf "late.VMAG").any (fun x => x.2.owner.any fun o =>
        !(belatedScript.validate.2.registry.object o).isOfType x.2.kind.ownerType) = true := by
    decide +kernel
  obtain ⟨hOk, hBody, hBurn⟩ := hRuns
  have hPrepared : belatedScript.Prepared :=
    .add _ rfl (.add _ rfl (.classify _ _ (.classify _ _ (.add _ rfl (.new _)))))
  obtain ⟨id, p, hMem, hContent, hMissing⟩ := exists_of_parameterOf hBody
  obtain ⟨id', p', hMem', hContent', hWrong⟩ := exists_of_parameterOf hBurn
  simp only [Bool.and_eq_true, Bool.not_eq_true', Option.isNone_iff_eq_none] at hMissing
  obtain ⟨⟨hNamed, hNone⟩, hFound⟩ := hMissing
  obtain ⟨o, hOwner, hType⟩ := (Option.any_eq_true _ _).mp hWrong
  refine ⟨_, hPrepared, validate_of_isOk belatedScript hOk, ⟨id, p, hMem, hContent, hNone, hFound, ?_⟩,
    id', p', hMem', hContent', ?_⟩
  · rintro ⟨-, -, -, hDependency⟩
    obtain ⟨d, -, hd⟩ := hDependency hNamed
    rw [hNone] at hd
    cases hd
  · rintro ⟨owner, hIs, hRight, -⟩
    obtain rfl : o = owner := Option.some.inj (hOwner.symm.trans hIs)
    have hRight' : (belatedScript.validate.2.registry.object o).isOfType p'.kind.ownerType = true := hRight
    simp [hRight'] at hType

end Session

end Mission
