import Mission.Checking.Objects
import Mission.Proofs.Store.Renaming

/-! What the final pass does to a workspace. First it looks for the owners of the Parameters that
have none, and for their dependencies. Then it goes through the objects, where all it does is to
write messages and to give axes to coordinate systems. A pass that collects no error has found all
owners. -/
namespace Mission

open Registry Outcome List Parameter

namespace Parameter

/-! ### Binding Parameters -/

/-- A system Parameter after its owner and its dependency have been looked for. -/
def resolved (w : Workspace) (p : SystemParameter) : SystemParameter :=
  if p.owner.isSome then p
  else p.bind (w.find? p.ownerName) (if p.dependency.isEmpty then none else w.find? p.dependency)

/-- An object after the final pass has looked at what it holds. -/
def resolvedObject (w : Workspace) (o : Object) : Object :=
  match o.content with
  | .parameter p => { o with content := .parameter (resolved w p) }
  | _ => o

/-- The objects have been looked at, and nothing else has happened. -/
structure Resolves (w : Workspace) (ids : List ObjectId) (w' : Workspace) : Prop where
  scope : w'.scope = w.scope
  parts : SameParts w.registry w'.registry
  object : ∀ id, w'.registry.object id =
    if id ∈ ids then resolvedObject w (w.registry.object id) else w.registry.object id

variable {w w' w'' : Workspace} {id : ObjectId} {ids : List ObjectId}

theorem name_resolvedObject (w : Workspace) (o : Object) : (resolvedObject w o).name = o.name := by
  unfold resolvedObject
  split
  · rfl
  · rfl

theorem objectType_resolvedObject (w : Workspace) (o : Object) :
    (resolvedObject w o).objectType = o.objectType := by
  unfold resolvedObject
  split
  · rfl
  · rfl

/-- Nothing but names and parts is looked at when a name is looked up. -/
theorem find?_of_sameParts (hScope : w'.scope = w.scope) (hParts : SameParts w.registry w'.registry)
    (hNames : ∀ id, (w'.registry.object id).name = (w.registry.object id).name) (name : String) :
    w'.find? name = w.find? name := by
  have hBody : ∀ system key, w'.registry.findOwned system key = w.registry.findOwned system key := by
    intro system key
    simp only [findOwned, hParts.owned, hNames]
  simp only [Workspace.find?, Scope.find?, Store.find?, hScope, hBody]

theorem Resolves.name (h : Resolves w ids w') (id : ObjectId) :
    (w'.registry.object id).name = (w.registry.object id).name := by
  rw [h.object]
  split
  · exact name_resolvedObject w _
  · rfl

theorem Resolves.objectType (h : Resolves w ids w') (id : ObjectId) :
    (w'.registry.object id).objectType = (w.registry.object id).objectType := by
  rw [h.object]
  split
  · exact objectType_resolvedObject w _
  · rfl

theorem Resolves.find? (h : Resolves w ids w') (name : String) : w'.find? name = w.find? name :=
  find?_of_sameParts h.scope h.parts h.name name

theorem Resolves.resolvedObject (h : Resolves w ids w') (o : Object) :
    resolvedObject w' o = resolvedObject w o := by
  simp only [Parameter.resolvedObject, resolved, h.find?]

theorem Resolves.nil (w : Workspace) : Resolves w [] w :=
  ⟨rfl, .refl _, fun _ => by simp⟩

theorem Resolves.cons (h : Resolves w [id] w') (h' : Resolves w' ids w'') (hNew : id ∉ ids) :
    Resolves w (id :: ids) w'' where
  scope := h'.scope.trans h.scope
  parts := h.parts.trans h'.parts
  object other := by
    rw [h'.object, h.resolvedObject, h.object]
    by_cases hSame : other = id
    · subst hSame
      simp [hNew]
    · simp [hSame]

theorem resolves_bindOne (w : Workspace) (id : ObjectId) : Resolves w [id] (bindOne w id).1 := by
  have hUnchanged : resolvedObject w (w.registry.object id) = w.registry.object id → Resolves w [id] w := by
    intro hSame
    refine ⟨rfl, .refl _, fun other => ?_⟩
    by_cases hIs : other = id
    · subst hIs
      simp [hSame]
    · simp [hIs]
  dsimp only [bindOne]
  split
  · next p hContent =>
      split
      · next hOwner =>
          refine hUnchanged ?_
          rcases hObject : w.registry.object id with ⟨name, typeName, objectType, properties, content⟩
          rw [hObject] at hContent
          cases hContent
          simp [resolvedObject, resolved, hOwner]
      · next hOwner =>
          have hHas : w.registry.Has id := by
            refine Classical.byContradiction fun hHas => ?_
            rw [object, entry_of_not_has hHas] at hContent
            cases hContent
          refine ⟨rfl, sameParts_modifyObject w.registry id fun _ => _, fun other => ?_⟩
          by_cases hIs : other = id
          · subst hIs
            change (w.registry.modifyObject other fun _ => _).object other = _
            rw [object_modifyObject_self hHas]
            simp [resolvedObject, hContent, resolved, hOwner]
          · change (w.registry.modifyObject id fun _ => _).object other = _
            rw [object_modifyObject_ne hIs]
            simp [hIs]
  · next hContent =>
      refine hUnchanged ?_
      unfold resolvedObject
      split
      · next p hParameter => exact absurd hParameter (hContent p)
      · rfl

/-- A Parameter whose name is not given as missing has an owner. -/
theorem isSome_of_bindOne (h : (bindOne w id).2 = none) {p : SystemParameter}
    (hContent : (w.registry.object id).content = .parameter p) : (resolved w p).owner.isSome = true := by
  simp only [bindOne, hContent] at h
  unfold resolved
  split
  · next hOwner => exact hOwner
  · next hOwner =>
      rw [if_neg hOwner] at h
      dsimp only at h
      split at h
      · cases h
      · next hFound =>
          obtain ⟨owner, hOwner⟩ := Option.ne_none_iff_exists'.mp (by simpa using hFound)
          simp [SystemParameter.bind, hOwner]

theorem bindAll_fold (hIds : ids.Nodup) (w : Workspace) (missing : List String) :
    let result := ids.foldl
      (fun (w, missing) id => let (w, name) := bindOne w id; (w, missing ++ name.toList)) (w, missing)
    Resolves w ids result.1 ∧ (result.2 = [] → missing = [] ∧ ∀ id ∈ ids, ∀ p,
      (w.registry.object id).content = .parameter p → (resolved w p).owner.isSome = true) := by
  induction ids generalizing w missing with
  | nil => exact ⟨.nil w, fun h => ⟨h, by simp⟩⟩
  | cons id rest ih =>
    rw [nodup_cons] at hIds
    have hFirst := resolves_bindOne w id
    obtain ⟨hRest, hMissing⟩ := ih hIds.2 (bindOne w id).1 (missing ++ (bindOne w id).2.toList)
    refine ⟨hFirst.cons hRest hIds.1, fun h => ?_⟩
    obtain ⟨hNone, hOwners⟩ := hMissing h
    rw [append_eq_nil_iff] at hNone
    refine ⟨hNone.1, fun other hOther p hContent => ?_⟩
    rcases mem_cons.mp hOther with rfl | hLater
    · exact isSome_of_bindOne (by simpa using hNone.2) hContent
    · have hSame : (bindOne w id).1.registry.object other = w.registry.object other := by
        rw [hFirst.object, if_neg]
        rintro hIs
        rw [mem_singleton] at hIs
        exact hIds.1 (hIs ▸ hLater)
      have hOwner := hOwners other hLater p (by rw [hSame, hContent])
      simpa only [resolved, hFirst.find?] using hOwner

/-- The Parameters of the store have been looked at. Where no name is given as missing, all of them
have owners. -/
theorem bindAll_spec (hValues : w.scope.store.objects.values.Nodup) :
    Resolves w w.scope.store.objects.values (bindAll w).1 ∧
      ((bindAll w).2 = [] → ∀ id ∈ w.scope.store.objects.values, ∀ p,
        (w.registry.object id).content = .parameter p → (resolved w p).owner.isSome = true) := by
  obtain ⟨hResolves, hMissing⟩ := bindAll_fold hValues w []
  exact ⟨hResolves, fun h => (hMissing h).2⟩

/-- What binding one Parameter keeps, binding all of them keeps. -/
theorem bindAll_keeps {J : Workspace → Prop} (hBind : ∀ {w id p} owner dependency, J w →
      (w.registry.object id).content = .parameter p →
      J { w with registry :=
        w.registry.setObject id { w.registry.object id with content := .parameter (p.bind owner dependency) }
          })
    (h : J w) : J (bindAll w).1 := by
  unfold bindAll
  refine List.foldlRecOn (motive := fun s : Workspace × List String => J s.1) _ _ h fun s hs id _ => ?_
  dsimp only [bindOne]
  split
  · next hContent =>
      split
      · exact hs
      · exact hBind _ _ hs hContent
  · exact hs

end Parameter

namespace Checker

variable {w w' : Workspace} {s s' : CheckState} (ck : Checker)

/-! ### Checking objects -/

/-- Messages are written and coordinate systems get axes, together with their text unless this
cannot be written. -/
inductive GivesAxes (w : Workspace) : Workspace → Prop
  | refl : GivesAxes w w
  | note {w' : Workspace} (h : GivesAxes w w') (level : Level) (text : String) :
      GivesAxes w (w'.note level text)
  | part {w' : Workspace} (h : GivesAxes w w') {id : ObjectId} {axisType : String} {axes : Assembly}
      {e : ObjectError}
      (type : (w'.registry.object id).objectType = .coordinateSystem)
      (known : Catalog.axisSystem axisType = .ok axes)
      (refused : ((w'.registry.replaceOwned id .axisSystem axes).object id).set "Axes" (.string axisType) =
      .error e) :
      GivesAxes w { w' with registry := w'.registry.replaceOwned id .axisSystem axes }
  | both {w' : Workspace} (h : GivesAxes w w') {id : ObjectId} {axisType : String} {axes : Assembly}
      {o : Object}
      (type : (w'.registry.object id).objectType = .coordinateSystem)
      (known : Catalog.axisSystem axisType = .ok axes)
      (set : ((w'.registry.replaceOwned id .axisSystem axes).object id).set "Axes" (.string axisType) =
        .ok o) :
      GivesAxes w { w' with registry := (w'.registry.replaceOwned id .axisSystem axes).setObject id o }

theorem givesAxes_handle (h : GivesAxes w s.workspace) (e : CommandError) (text : String)
    (line : Option Nat) : GivesAxes w (ck.handle e text line s).2.workspace := by
  dsimp only [handle]
  split
  · exact h
  · exact h.note _ _

theorem givesAxes_handleAll (errors : List CommandError) (valid : Bool) (h : GivesAxes w s.workspace) :
    GivesAxes w (ck.handleAll errors valid s).2.workspace := by
  induction errors generalizing s valid with
  | nil => exact h
  | cons e rest ih =>
    have hHandle := ck.givesAxes_handle h e "" none
    rw [handleAll]
    rcases hRun : ck.handle e "" none s with ⟨x, s'⟩
    rw [hRun] at hHandle
    cases x with
    | error e => exact hHandle
    | ok fine => exact ih (valid && fine) hHandle

theorem givesAxes_checkObject (id : ObjectId) (h : GivesAxes w w') :
    GivesAxes w (ck.checkObject id w').2 := by
  dsimp only [checkObject, defaultAxes]
  split
  · exact h
  · next hType =>
      split
      · exact h
      · next axes hKnown =>
          have hCoordinate : (w'.registry.object id).objectType = .coordinateSystem := by
            simp only [Bool.or_eq_true, decide_eq_true_eq, not_or, Decidable.not_not] at hType
            exact hType.1
          split
          · next o hSet => exact (h.note _ _).both hCoordinate hKnown hSet
          · next e hRefused => exact (h.note _ _).part hCoordinate hKnown hRefused

theorem givesAxes_checkObjects (ids : List ObjectId) (valid : Bool) (h : GivesAxes w s.workspace) :
    GivesAxes w (ck.checkObjects ids valid s).2.workspace := by
  induction ids generalizing s valid with
  | nil => exact h
  | cons id rest ih =>
    have hObject := ck.givesAxes_checkObject id h
    have hHandle := ck.givesAxes_handleAll (s := { s with workspace := (ck.checkObject id s.workspace).2 })
      (ck.checkObject id s.workspace).1 valid hObject
    rw [checkObjects]
    rcases hRun : ck.handleAll (ck.checkObject id s.workspace).1 valid
      { s with workspace := (ck.checkObject id s.workspace).2 } with ⟨x, s'⟩
    rw [hRun] at hHandle
    dsimp only
    rw [hRun]
    cases x with
    | error e => exact hHandle
    | ok valid => exact ih valid hHandle

/-- The final pass binds Parameters and then gives axes, whichever way it ends. -/
theorem givesAxes_finalPass (s : CheckState) :
    GivesAxes (bindAll s.workspace).1 (ck.finalPass s).2.workspace := by
  dsimp only [finalPass]
  generalize (bindAll s.workspace).2.map _ = missing
  generalize hs₁ : CheckState.mk (bindAll s.workspace).1 s.errors = s₁
  have hMissing : GivesAxes (bindAll s.workspace).1 (ck.handleAll missing true s₁).2.workspace := by
    subst hs₁
    exact ck.givesAxes_handleAll missing true .refl
  rcases hRun : ck.handleAll missing true s₁ with ⟨x, s₂⟩
  rw [hRun] at hMissing
  cases x with
  | error e => exact hMissing
  | ok valid =>
    have hObjects := ck.givesAxes_checkObjects s₂.workspace.scope.store.objects.values valid hMissing
    dsimp only
    rcases hRun' : ck.checkObjects s₂.workspace.scope.store.objects.values valid s₂ with ⟨y, s₃⟩
    rw [hRun'] at hObjects
    cases y with
    | error e => exact hObjects
    | ok valid => exact hObjects.note _ _

theorem GivesAxes.scope (h : GivesAxes w w') : w'.scope = w.scope := by
  induction h with
  | refl => rfl
  | note _ _ _ ih | part _ _ _ _ ih | both _ _ _ _ ih => exact ih

theorem scope_finalPass (s : CheckState) : (ck.finalPass s).2.workspace.scope = s.workspace.scope :=
  (ck.givesAxes_finalPass s).scope.trans
    (bindAll_keeps (J := fun w => w.scope = s.workspace.scope) (fun _ _ hw _ => hw) rfl)

/-! ### The errors that are collected -/

variable {ck}

theorem errors_handleAll {errors : List CommandError} {valid fine : Bool}
    (h : ck.handleAll errors valid s = (.ok fine, s')) :
    s'.errors.length = s.errors.length + errors.length := by
  induction errors generalizing s valid with
  | nil =>
    cases h
    rfl
  | cons e rest ih =>
    rw [handleAll, handle] at h
    split at h
    · next hHandle =>
        split at hHandle
        · cases h
        · cases hHandle
    · next hHandle =>
        split at hHandle
        · cases hHandle
        · cases hHandle
          rw [ih h]
          simp only [length_append, length_cons, length_nil]
          omega

theorem errors_checkObjects {ids : List ObjectId} {valid fine : Bool}
    (h : ck.checkObjects ids valid s = (.ok fine, s')) : s.errors.length ≤ s'.errors.length := by
  induction ids generalizing s valid with
  | nil =>
    cases h
    exact Nat.le_refl _
  | cons id rest ih =>
    rw [checkObjects] at h
    dsimp only at h
    split at h
    · cases h
    · next hHandle =>
        have hFirst := errors_handleAll hHandle
        have hRest := ih h
        dsimp only at hFirst
        omega

/-- A final pass that has collected no error has found the owners of all Parameters. -/
theorem missing_of_finalPass {valid : Bool} (h : ck.finalPass s = (.ok valid, s'))
    (hErrors : s'.errors = []) : (bindAll s.workspace).2 = [] := by
  dsimp only [finalPass] at h
  split at h
  · cases h
  · next hHandle =>
      split at h
      · cases h
      · next hObjects =>
          cases h
          have hFirst := errors_handleAll hHandle
          have hRest := errors_checkObjects hObjects
          rw [length_map] at hFirst
          change _ = [] at hErrors
          rw [hErrors, length_nil] at hRest
          exact length_eq_zero_iff.mp (by omega)

end Checker

end Mission
