import Mission.Proofs.Accessor.Typing
import Mission.Proofs.Checking.Changes
import Mission.Proofs.Checking.FinalPass

/-! Classifying and checking among objects of the catalogue. The names in scope lead to objects that
exist, and an accessor for an object as a whole is made for the kind of this object. Parameters are
made of the builtin types, so whatever a check does to the objects, they stay as those of the
catalogue. -/
namespace Mission

open Registry Outcome List Table Parameter Classify

variable {given : String → Prop}
variable {r r' : Registry} {id : ObjectId} {name : String} {w : Workspace}

/-- The objects that the store names exist. -/
structure Store.Within (s : Store) (r : Registry) : Prop where
  objects : ∀ {id}, id ∈ s.objects.values → r.Has id
  system : ∀ {id}, s.solarSystem = some id → r.Has id

/-- The objects in scope exist. -/
structure Scope.Within (s : Scope) (r : Registry) : Prop where
  store : s.store.Within r
  outer : ∀ {o}, s.outer = some o → o.Within r

theorem Store.Within.later {s : Store} (h : s.Within r) (hPreserves : Preserves given r r') : s.Within r' :=
  ⟨fun hMem => hPreserves.has (h.objects hMem), fun hSystem => hPreserves.has (h.system hSystem)⟩

theorem Scope.Within.later {s : Scope} (h : s.Within r) (hPreserves : Preserves given r r') : s.Within r' :=
  ⟨h.store.later hPreserves, fun hOuter => (h.outer hOuter).later hPreserves⟩

theorem Store.Within.insert {s : Store} (h : s.Within r) (hId : r.Has id) (name : String) :
    Store.Within { s with objects := s.objects.insert name id } r := by
  refine ⟨fun hMem => ?_, h.system⟩
  rcases mem_values_insert hMem with rfl | hOld
  · exact hId
  · exact h.objects hOld

/-- An object of the catalogue is added under its name. -/
theorem Store.preserves_add {s s' : Store} (hr : r.Catalogued given) (hs : s.Within r) {a : Assembly}
    (ha : a.Catalogued given) (hAdd : s.add r a = .ok (id, s', r')) :
    Preserves given r r' ∧ s'.Within r' := by
  obtain ⟨-, rfl, rfl, rfl⟩ := add_eq_ok hAdd
  have hInstall : Preserves given r (r.install a).2 := preserves_install hr ha
  exact ⟨hInstall, (hs.later hInstall).insert (install_grows r a).2.has _⟩

theorem Store.Within.has_of_find? {s : Store} (h : s.Within r) (hParts : ∀ {id c}, c ∈ r.owned id → r.Has c)
    (hFind : s.find? r name = some id) : r.Has id := by
  unfold Store.find? at hFind
  dsimp only at hFind
  split at hFind
  · exact h.system hFind
  · rcases (Option.orElse_eq_some _ _ _).mp hFind with hNamed | ⟨-, hPart⟩
    · exact h.objects (mem_map.mpr ⟨_, mem_of_get? hNamed, rfl⟩)
    · obtain ⟨system, -, hOwned⟩ := Option.bind_eq_some_iff.mp hPart
      exact hParts (mem_of_find?_eq_some hOwned)

theorem Scope.Within.has_of_find? {s : Scope} (h : s.Within r) (hParts : ∀ {id c}, c ∈ r.owned id → r.Has c)
    (hFind : s.find? r name = some id) : r.Has id := by
  rcases (Option.orElse_eq_some _ _ _).mp hFind with hLocal | ⟨-, hOuter⟩
  · exact h.store.has_of_find? hParts hLocal
  · obtain ⟨outer, hSome, hFound⟩ := Option.bind_eq_some_iff.mp hOuter
    exact (h.outer hSome).has_of_find? hParts hFound

namespace Workspace

variable {w w' w'' : Workspace}

/-- Every identity in scope and every identity of a part is that of an object. -/
structure Linked (w : Workspace) : Prop where
  scope : w.scope.Within w.registry
  parts : ∀ {id c}, c ∈ w.registry.owned id → w.registry.Has c

theorem Linked.note (h : w.Linked) (level : Level) (text : String) : (w.note level text).Linked :=
  ⟨h.scope, h.parts⟩

theorem Linked.has_of_find? (h : w.Linked) {name : String} {id : ObjectId} (hFind : w.find? name = some id) :
    w.registry.Has id :=
  h.scope.has_of_find? h.parts hFind

/-- The objects are as those of the catalogue, and those in scope exist. -/
structure Catalogued (given : String → Prop) (w : Workspace) : Prop where
  registry : w.registry.Catalogued given
  scope : w.scope.Within w.registry

/-- The second workspace has come of the first by writing objects and by naming new ones. -/
structure Preserves (given : String → Prop) (w w' : Workspace) : Prop where
  registry : Registry.Preserves given w.registry w'.registry
  scope : w'.scope.Within w'.registry

theorem Preserves.refl (h : w.Catalogued given) : w.Preserves given w :=
  ⟨.refl h.registry, h.scope⟩

theorem Preserves.trans (h : w.Preserves given w') (h' : w'.Preserves given w'') : w.Preserves given w'' :=
  ⟨h.registry.trans h'.registry, h'.scope⟩

theorem Preserves.catalogued (h : w.Preserves given w') : w'.Catalogued given :=
  ⟨h.registry.catalogued, h.scope⟩

theorem Preserves.note (h : w.Preserves given w') (level : Level) (text : String) :
    w.Preserves given (w'.note level text) :=
  ⟨h.registry, h.scope⟩

theorem Preserves.write (h : w.Preserves given w') {r : Registry}
    (hr : Registry.Preserves given w'.registry r) : w.Preserves given { w' with registry := r } :=
  ⟨h.registry.trans hr, h.scope.later hr⟩

theorem Catalogued.linked (h : w.Catalogued given) : w.Linked :=
  ⟨h.scope, h.registry.parts⟩

end Workspace

/-! ### New Parameters -/

theorem ParameterKinds.mem_builtin {typeName : String} {kind : ParameterKind}
    (h : get? builtin typeName = some kind) :
    kind ∈ ParameterKind.builtin ∧ typeName = kind.typeName := by
  have hPairs : builtin = ofPairs (ParameterKind.builtin.map fun k => (k.typeName, k)) := by
    rw [ofPairs, foldl_map]
    rfl
  have hMem := mem_of_get? h
  rw [hPairs] at hMem
  obtain ⟨k, hk, hSame⟩ := mem_map.mp (mem_ofPairs hMem)
  cases hSame
  exact ⟨hk, rfl⟩

namespace Parameter

variable {w : Workspace} {kind : ParameterKind} {name typeName owner dependency : String}
  {p : SystemParameter}

theorem kind_of_describe (h : describe w kind name owner dependency = .ok p) : p.kind = kind := by
  dsimp only [describe] at h
  split at h
  · cases h
  · cases h
    rfl

/-- A Parameter of a builtin type is as the objects of the catalogue. -/
theorem catalogued_new (hKind : get? ParameterKinds.builtin typeName = some kind) (hp : p.kind = kind) :
    (⟨name, typeName, .parameter, {}, .parameter p⟩ : Object).Catalogued given := by
  obtain ⟨hBuiltin, hName⟩ := ParameterKinds.mem_builtin hKind
  have hHolder : typeName ∈ Object.holderTypes := by
    rw [hName]
    exact mem_append_right ["Variable", "Array", "String"] (mem_map.mpr ⟨kind, hBuiltin, rfl⟩)
  refine ⟨fun entry hEntry => (not_mem_nil hEntry).elim, nofun, ?_, ?_, fun hContent => ?_,
    fun hContent => ?_⟩
  · simp [hHolder]
  · exact (if_pos hHolder).symm
  · cases hContent
    rw [hp]
    exact hBuiltin
  · cases hContent

theorem preserves_withParameter (h : w.Catalogued given) {o : Object} (ho : o.Catalogued given)
    (name : String) :
    w.Preserves given (withParameter w name o) := by
  have hPush : Registry.Preserves given w.registry (w.registry.push { object := o }).2 :=
    preserves_push h.registry ho
  have hScope := h.scope.later hPush
  exact ⟨hPush, hScope.store.insert (has_push.mpr (.inr rfl)) name, hScope.outer⟩

theorem grows_withParameter (w : Workspace) (name : String) (o : Object) :
    Grows w.registry (withParameter w name o).registry :=
  (grows_push (.refl w.registry) (e := { object := o }) (by simp)).1

theorem linked_withParameter (h : w.Linked) (name : String) (o : Object) :
    (withParameter w name o).Linked := by
  have hGrows := grows_withParameter w name o
  have hStore : ∀ {s : Store}, s.Within w.registry → s.Within (withParameter w name o).registry :=
    fun hs => ⟨fun hMem => hGrows.has (hs.objects hMem), fun hSystem => hGrows.has (hs.system hSystem)⟩
  refine ⟨⟨?_, fun hOuter => hStore (h.scope.outer hOuter)⟩, fun {id c} hc => ?_⟩
  · exact (hStore h.scope.store).insert (has_push.mpr (.inr rfl)) name
  · by_cases hId : w.registry.Has id
    · rw [hGrows.owned hId] at hc
      exact hGrows.has (h.parts hc)
    · exact (hGrows.parts hId hc).2

theorem Provides.linked {kinds : ParameterKinds} {w' : Workspace} {id : ObjectId}
    (h : Provides kinds name w w' id) (hw : w.Linked) :
    w'.Linked ∧ w'.registry.Has id ∧ (w'.registry.object id).isParameter = true := by
  cases h with
  | known hKnown =>
    have hType := Workspace.isOfType_of_findOfType? hKnown
    refine ⟨hw, hw.has_of_find? (Workspace.find?_of_findOfType? hKnown), ?_⟩
    simpa [Object.isOfType, ObjectType.isA, Object.isParameter] using hType
  | @new kind p text _ _ _ _ =>
    refine ⟨(linked_withParameter hw name (fresh name p)).note _ _, has_push.mpr (.inr rfl), ?_⟩
    change ((w.registry.push _).2.object (w.registry.push _).1).isParameter = true
    rw [object, entry_push_id]
    rfl

end Parameter

/-! ### Classifying -/

namespace Accessor

theorem fits_ofObject {r : Registry} {id : ObjectId} (h : r.Has id) (description : String) :
    (ofObject r description id).Fits r := by
  refine ⟨fun ha => ?_, fun ha => ?_⟩
  · cases ha
    exact h
  · cases ha
    rfl

theorem fits_of_kind {r : Registry} {a : Accessor} (h : ∀ d k target, a ≠ .whole d k target) : a.Fits r :=
  ⟨fun ha => absurd ha (h _ _ _), fun ha => absurd ha (h _ _ _)⟩

end Accessor

namespace Classify

variable {kinds : ParameterKinds} {w : Workspace}

/-- The object as a whole behind the accessor is a Parameter, or it is in scope. -/
def Named (w : Workspace) (a : Accessor) : Prop :=
  ∀ {d k id}, a = .whole d k (some id) → (w.registry.object id).isParameter = true ∨ ∃ name, w.find? name =
    some id

/-- What holds after a text has been classified. -/
abbrev Ready (w : Workspace) (a : Accessor) : Prop :=
  w.Linked ∧ a.Fits w.registry ∧ Named w a

theorem ready_of_kind (h : w.Linked) {a : Accessor} (ha : ∀ d k target, a ≠ .whole d k target) : Ready w a :=
  ⟨h, Accessor.fits_of_kind ha, fun hWhole => absurd hWhole (ha _ _ _)⟩

theorem ready_of_literal (h : w.Linked) {a : Accessor} (ha : a.kind.isLiteral = true) : Ready w a := by
  refine ready_of_kind h ?_
  rintro d k target rfl
  cases k <;> cases ha

theorem Means.ready {d : String} {w' : Workspace} {a : Accessor} (h : Means kinds d w w' a) (hw : w.Linked) :
    Ready w' a := by
  cases h with
  | parameter _ hGiven =>
    obtain ⟨h', hHas, hParameter⟩ := hGiven.linked hw
    refine ⟨h', Accessor.fits_ofObject hHas d, fun hWhole => ?_⟩
    cases hWhole
    exact .inl hParameter
  | property => exact ready_of_kind hw (by simp)
  | object _ hFind =>
    refine ⟨hw, Accessor.fits_ofObject (hw.has_of_find? hFind) d, fun hWhole => ?_⟩
    cases hWhole
    exact .inr ⟨_, hFind⟩
  | literal hLiteral _ => exact ready_of_literal hw hLiteral

theorem noteCreated_fits {E : Workspace → Prop} {a : Accessor} (h : Ready w a) :
    Meets (noteCreated a) w E Ready :=
  Step.meets_note_bind (.pure ⟨h.1.note _ _, h.2⟩)

end Classify

/-- What a text is classified as fits the objects, and it stands for an object in scope if for any. -/
theorem classify_ready (kinds : ParameterKinds) (h : w.Linked) (options : ClassifyOptions) (text : String) :
    Meets (classify kinds options text) w (fun _ => True) Classify.Ready := by
  have hPlain : (Phrase.parse text).Plain := Phrase.plain_parse text
  unfold classify
  generalize Phrase.parse text = phrase at hPlain ⊢
  induction phrase generalizing w options with
  | literal a => exact noteCreated_fits (ready_of_literal h hPlain)
  | malformed e => exact .throw _ trivial
  | identifier description =>
    have hMeans := identifier_means kinds options description w
    exact .bind (hMeans.mono (fun _ _ => trivial) fun _ _ hMeans => hMeans.ready h) fun a w' h' =>
      noteCreated_fits h'
  | element description name row column ihRow ihColumn =>
    refine .get (.lift_bind trivial fun array _ => .bind (ihRow h _ hPlain.2.1) fun row w₁ hRow => ?_)
    refine .bind (ihColumn hRow.1 _ hPlain.2.2) fun column w₂ hColumn => .get ?_
    refine noteCreated_fits (ready_of_kind hColumn.1 fun d k target hWhole => ?_)
    cases hWhole

theorem classify_fits (kinds : ParameterKinds) (h : w.Linked) (options : ClassifyOptions) (text : String) :
    Meets (classify kinds options text) w (fun _ => True) fun w' a => w'.Linked ∧ a.Fits w'.registry :=
  (classify_ready kinds h options text).mono (fun _ => id) fun _ _ hReady => ⟨hReady.1, hReady.2.1⟩

/-! ### Checking -/

section

variable {written : String → Prop} {w w' : Workspace}

/-- Whatever a check of commands does to the workspace. -/
theorem Changes.preserves (h : Changes .builtin written w w') (hw : w.Catalogued given) :
    w.Preserves given w' := by
  induction h with
  | refl => exact .refl hw
  | note _ level text ih => exact ih.note level text
  | parameter _ _ _ _ known described _ ih =>
    refine ih.trans (preserves_withParameter ih.catalogued ?_ _)
    exact catalogued_new known (kind_of_describe described)
  | @axes w' _ _ _ id _ _ _ _ _ known set ih =>
    have hSet := preserves_takes ih.catalogued.registry (Object.takes_set set)
    exact ih.write (hSet.trans
      (preserves_replaceOwned hSet.catalogued _ (Catalog.catalogued_axisSystem known)))

theorem Classified.fits {text : String} {a : Accessor} (h : Classified .builtin written w w' text a)
    (hw : w.Catalogued given) : a.Fits w'.registry := by
  obtain ⟨options, w₁, w₂, hBefore, hRun, hAfter⟩ := h
  have hBefore' := (hBefore.preserves hw).catalogued
  obtain ⟨-, hFits⟩ := (Meets.of_ok hRun).mp (classify_fits .builtin hBefore'.linked options text)
  have hChanges : Changes .builtin written w₁ w₂ := by
    have hChanging : Changes .builtin written w₁ (classify .builtin options text w₁).2 :=
      classify_changing options text w₁
    rwa [hRun] at hChanging
  exact hFits.later (hAfter.preserves (hChanges.preserves hBefore').catalogued).registry

end

namespace Parameter

/-- A Parameter that is bound stays of its kind. -/
theorem sameForm_bind {o : Object} {p : SystemParameter} (h : o.content = .parameter p)
    (owner dependency : Option ObjectId) :
    o.SameForm { o with content := .parameter (p.bind owner dependency) } := by
  refine ⟨rfl, rfl, ?_⟩
  rw [h]
  exact .parameter rfl

theorem preserves_bind (h : r.Catalogued given) {p : SystemParameter}
    (hContent : (r.object id).content = .parameter p) (owner dependency : Option ObjectId) :
    Preserves given r (r.setObject id { r.object id with content := .parameter (p.bind owner dependency) }) :=
      by
  have hForm := sameForm_bind hContent owner dependency
  exact preserves_setObject h hForm ((h.object id).keep ⟨hForm, rfl⟩)

end Parameter

namespace Checker

variable {w w' : Workspace} {r r' : Registry} {cs ds : List Command}

theorem GivesAxes.preserves (h : GivesAxes w w') (hw : w.Catalogued given) : w.Preserves given w' := by
  induction h with
  | refl => exact .refl hw
  | note _ level text ih => exact ih.note level text
  | part _ _ known _ ih =>
    exact ih.write (preserves_replaceOwned ih.catalogued.registry _ (Catalog.catalogued_axisSystem known))
  | @both w' _ id _ _ _ _ known set ih =>
    have hPart : Registry.Preserves given w'.registry (w'.registry.replaceOwned id .axisSystem _) :=
      preserves_replaceOwned ih.catalogued.registry _ (Catalog.catalogued_axisSystem known)
    exact ih.write (hPart.trans (preserves_takes hPart.catalogued (Object.takes_set set)))

theorem preserves_finalPass (ck : Checker) {s : CheckState} (h : s.workspace.Catalogued given) :
    s.workspace.Preserves given (ck.finalPass s).2.workspace := by
  have hBound : s.workspace.Preserves given (bindAll s.workspace).1 :=
    bindAll_keeps (fun owner dependency hw hContent =>
      hw.write (preserves_bind hw.catalogued.registry hContent owner dependency)) (.refl h)
  exact hBound.trans ((ck.givesAxes_finalPass s).preserves hBound.catalogued)

/-- The accessors through which the commands write fit the objects. -/
structure AllFit (r : Registry) (cs : List Command) : Prop where
  assigned : ∀ {a line t}, Command.Occurs (.assignment a line) cs → a.target = some t → t.Fits r
  called : ∀ {c line t}, Command.Occurs (.call c line) cs → t ∈ Slot.accessors c.outputs → t.Fits r

theorem AllFit.later (h : AllFit r cs) (hPreserves : Preserves given r r') : AllFit r' cs :=
  ⟨fun hc ht => (h.assigned hc ht).later hPreserves, fun hc ht => (h.called hc ht).later hPreserves⟩

theorem AllFit.of_occurs (h : AllFit r cs) (hSub : ∀ {c}, Command.Occurs c ds → Command.Occurs c cs) :
    AllFit r ds :=
  ⟨fun hc => h.assigned (hSub hc), fun hc => h.called (hSub hc)⟩

theorem AllSettled.allFit {written : String → Prop} (h : AllSettled .builtin written w w' cs)
    (hw : w.Catalogued given) : AllFit w'.registry cs where
  assigned hc ht := ((h.settled hc).assigned rfl ht).fits hw
  called {c line t} hc ht := by
    obtain ⟨slot, hSlot, hAccessor⟩ := Slot.mem_accessors.mp ht
    have hPlace : (slot.name, some t) ∈ (Command.call c line).places :=
      mem_map.mpr ⟨slot, mem_append_right _ hSlot, by rw [hAccessor]⟩
    exact ((h.settled hc).places hPlace).fits hw

end Checker

end Mission
