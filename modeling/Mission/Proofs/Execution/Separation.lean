import Mission.Proofs.Accessor.Footprint
import Mission.Proofs.Classify.Stability

/-! Objects that nothing leads to. A run gets at objects by their names, as parts of others, as the
owners of system Parameters, and through accessors that were made before it. A set of objects that
cannot be entered in any of these ways stays as it is, whatever the commands do. The parts of the
local objects that functions declare are such a set, unless they are shared. -/
namespace Mission

open Registry Outcome List Accessor Option Assembly Catalog

/-! ### What accessors are made for -/

section

variable {kinds : ParameterKinds} {w w' : Workspace} {a : Accessor} {id : ObjectId}

/-- The object is found under some name, or it is not there yet. -/
def Workspace.Leads (w : Workspace) (id : ObjectId) : Prop :=
  (∃ name, w.find? name = some id) ∨ ¬ w.registry.Has id

/-- What the accessor stands for is looked up, or it is a part of that. -/
structure Accessor.LookedUp (w : Workspace) (a : Accessor) : Prop where
  whole : ∀ {d k id}, a = .whole d k (some id) → w.Leads id
  property : ∀ {d p id i}, a = .property d p → p.target = some (id, i) →
    ∃ owner, w.Leads owner ∧ (id = owner ∨ id ∈ w.registry.owned owner)
  element : ∀ {d name id row column}, a = .element d name (some id) row column → w.Leads id

theorem Accessor.lookedUp_of_isLiteral (h : a.kind.isLiteral = true) : a.LookedUp w := by
  refine ⟨?_, ?_, ?_⟩
  · rintro d k id rfl
    cases k <;> cases h
  · rintro d p id i rfl
    cases h
  · rintro d name id row column rfl
    cases h

theorem Accessor.lookedUp_ofObject {r : Registry} {d : String} (h : w.Leads id) :
    (ofObject r d id).LookedUp w := by
  refine ⟨fun ha => ?_, (fun ha => by cases ha), (fun ha => by cases ha)⟩
  cases ha
  exact h

theorem Classify.Means.lookedUp {d : String} (h : Means kinds d w w' a) : a.LookedUp w := by
  cases h with
  | parameter _ hGiven =>
    refine lookedUp_ofObject ?_
    cases hGiven with
    | known hKnown => exact .inl ⟨_, Workspace.find?_of_findOfType? hKnown⟩
    | new => exact .inr (not_has_push_id _ _)
  | property _ _ _ found =>
    refine ⟨(fun ha => by cases ha), fun ha hTarget => ?_, (fun ha => by cases ha)⟩
    cases ha
    exact ⟨_, .inl ⟨_, found⟩, holder_of_findProperty hTarget⟩
  | object _ found => exact lookedUp_ofObject (.inl ⟨_, found⟩)
  | literal hLiteral => exact lookedUp_of_isLiteral hLiteral

theorem classify_lookedUp {options : ClassifyOptions} {text : String}
    (h : classify kinds options text w = (.ok a, w')) : a.LookedUp w := by
  have hPlain := Phrase.plain_parse text
  unfold classify at h
  cases hPhrase : Phrase.parse text with
  | literal b =>
    rw [hPhrase] at h hPlain
    cases h
    exact lookedUp_of_isLiteral hPlain
  | malformed e =>
    rw [hPhrase] at h
    cases h
  | identifier d =>
    rw [hPhrase] at h
    obtain ⟨b, w₁, hRun, h⟩ := run_bind_eq_ok.mp h
    cases h
    exact ((Meets.of_ok hRun).mp (Classify.identifier_means kinds options d w)).lookedUp
  | element d name row column =>
    rw [hPhrase] at h
    obtain ⟨array, row, w₁, column, w₂, hArray, -, -, hDone⟩ := Classify.resolve_element_eq_ok.mp h
    cases hDone
    refine ⟨(fun ha => by cases ha), (fun ha => by cases ha), fun {_ _ id _ _} ha => ?_⟩
    have hSome : (if (decide (name = (w₂.registry.object array).name) && (w₂.registry.object array).isArray) =
      true
        then some array else none) = some id := (element.inj ha).2.2.1
    split at hSome
    · cases hSome
      exact .inl ⟨_, (Classify.arrayOf_eq_ok hArray).1⟩
    · cases hSome

end

/-! ### Sealed objects -/

/-- The object is no system Parameter of an object of the set. -/
def Object.Clear (held : ObjectId → Prop) (o : Object) : Prop :=
  ∀ p ∈ o.parameter?, ∀ owner ∈ p.owner, ¬ held owner

/-- Nothing leads into the set: what owns one of its objects is in it too, and no system Parameter
is bound to one. -/
structure Registry.Seals (held : ObjectId → Prop) (r : Registry) : Prop where
  has : ∀ {id}, held id → r.Has id
  owner : ∀ {id part}, part ∈ r.owned id → held part → held id
  clear : r.Every (Object.Clear held)

/-- The objects of the set are as they were, and still nothing leads to them. -/
structure Registry.Untouched (held : ObjectId → Prop) (r r' : Registry) : Prop where
  sealed : r'.Seals held
  entry : ∀ {id}, held id → r'.entry id = r.entry id

/-- The accessor stands for no object of the set. -/
structure Accessor.Spares (held : ObjectId → Prop) (a : Accessor) : Prop where
  whole : ∀ {d k id}, a = .whole d k (some id) → ¬ held id
  property : ∀ {d p id i}, a = .property d p → p.target = some (id, i) → ¬ held id
  element : ∀ {d name id row column}, a = .element d name (some id) row column → ¬ held id

variable {held : ObjectId → Prop}

theorem Object.clear_of_none {o : Object} (h : o.parameter? = none) : o.Clear held := by
  intro p hSome
  rw [h] at hSome
  cases hSome

theorem Object.Clear.sameParameter {o o' : Object} (h : o.Clear held) (hSame : o'.parameter? = o.parameter?) :
    o'.Clear held := by
  unfold Clear
  rw [hSame]
  exact h

theorem Assembly.clear_ofObject {o : Object} (h : o.parameter? = none) :
    ∀ o' ∈ (ofObject o).objects, o'.Clear held :=
  forall_objects_mk.mpr ⟨Object.clear_of_none h, by simp⟩

namespace Registry

variable {r r' r'' : Registry} {id : ObjectId} {a : Assembly}

theorem Untouched.refl (h : r.Seals held) : Untouched held r r :=
  ⟨h, fun _ => rfl⟩

theorem Untouched.trans (h : Untouched held r r') (h' : Untouched held r' r'') : Untouched held r r'' :=
  ⟨h'.sealed, fun hId => (h'.entry hId).trans (h.entry hId)⟩

namespace Seals

theorem assembly (h : r.Seals held) (id : ObjectId) : ∀ o ∈ (r.assembly id).objects, o.Clear held :=
  every_assembly h.clear (Object.clear_of_none rfl) id

theorem object (h : r.Seals held) (id : ObjectId) : (r.object id).Clear held := by
  have hObject := h.assembly id (r.assembly id).object
  rw [object_assembly] at hObject
  refine hObject ?_
  rw [← object_assembly r id]
  cases r.assembly id
  exact mem_cons_self

/-- What is added is not in the set. -/
theorem of_grows (h : r.Seals held) (hGrows : Grows r r') (hClear : r'.Every (Object.Clear held)) :
    Untouched held r r' := by
  refine ⟨⟨fun hId => hGrows.has (h.has hId), fun {id part} hPart hHeld => ?_, hClear⟩,
    fun hId => hGrows.entry (h.has hId)⟩
  by_cases hId : r.Has id
  · rw [hGrows.owned hId] at hPart
    exact h.owner hPart hHeld
  · exact absurd (h.has hHeld) (hGrows.parts hId hPart).1

theorem install (h : r.Seals held) (ha : ∀ o ∈ a.objects, o.Clear held) : Untouched held r (r.install a).2 :=
  h.of_grows (install_grows r a).1 (every_install h.clear a ha)

end Seals

/-- An object is written that is not in the set. -/
theorem Untouched.modify (h : Untouched held r r') {f : Entry → Entry} (hId : ¬ held id)
    (hParts : ∀ c ∈ (f (r'.entry id)).owned, held c → c ∈ r'.owned id)
    (hClear : (f (r'.entry id)).object.Clear held) : Untouched held r (r'.modify id f) := by
  refine ⟨⟨fun hHeld => has_modify.mpr (h.sealed.has hHeld), fun {other part} hPart hHeld => ?_,
    every_modify h.sealed.clear fun _ => hClear⟩, fun {other} hHeld => ?_⟩
  · refine h.sealed.owner ?_ hHeld
    by_cases hSame : other = id
    · subst hSame
      rw [owned, entry_modify_self (has_modify.mp (has_of_mem_owned hPart))] at hPart
      exact hParts part hPart hHeld
    · rwa [owned, entry_modify_ne hSame] at hPart
  · have hOther : other ≠ id := by
      rintro rfl
      exact hId hHeld
    rw [entry_modify_ne hOther, h.entry hHeld]

namespace Seals

theorem setObject (h : r.Seals held) {o : Object} (hId : ¬ held id) (hTakes : (r.object id).Takes o) :
    Untouched held r (r.setObject id o) := by
  exact (Untouched.refl h).modify hId (fun _ hc _ => hc)
    ((h.object id).sameParameter hTakes.sameKind.parameter)

theorem overwrite (h : r.Seals held) (hId : ¬ held id) (source : ObjectId) :
    Untouched held r (r.overwrite id (r.assembly source)) := by
  obtain ⟨hGrows, hLoose⟩ := installAll_grows r (r.assembly source).parts
  have hParts := every_installAll h.clear _ (forall_parts (h.assembly source))
  refine (h.of_grows hGrows hParts).modify hId (fun c hc hHeld => ?_) ((h.object source).sameParameter ?_)
  · exact absurd (h.has hHeld) (hLoose c hc).new
  · change (r.assembly source).object.parameter? = _
    rw [object_assembly]

theorem replaceOwned (h : r.Seals held) (hId : ¬ held id) (t : ObjectType)
    (ha : ∀ o ∈ a.objects, o.Clear held) : Untouched held r (r.replaceOwned id t a) := by
  obtain ⟨hGrows, hLoose⟩ := install_grows r a
  have hInstall := h.install ha
  refine hInstall.modify hId (fun c hc hHeld => ?_) (hInstall.sealed.object id)
  rcases mem_append.mp hc with hKept | hNew
  · have hc := (mem_filter.mp hKept).1
    rwa [hGrows.owned (has_of_mem_owned hc)]
  · rw [mem_singleton.mp hNew] at hHeld
    exact absurd (h.has hHeld) hLoose.new

/-- A write through an accessor changes what the accessor stands for, or the owner of a Parameter. -/
theorem not_held_of_written (h : r.Seals held) {a : Accessor} (ha : a.Spares held) (hId : id ∈ a.written r) :
    ¬ held id := by
  cases a with
  | property d p =>
    obtain ⟨⟨holder, i⟩, hTarget, rfl⟩ := mem_map.mp hId
    exact ha.property rfl (mem_toList.mp hTarget)
  | whole d k target =>
    obtain ⟨object, hTarget, hMem⟩ := mem_flatMap.mp hId
    cases mem_toList.mp hTarget
    cases hParameter : (r.object object).parameter? with
    | some p =>
      rw [hParameter] at hMem
      exact h.object object p hParameter id (mem_toList.mp hMem)
    | none =>
      rw [hParameter] at hMem
      cases mem_singleton.mp hMem
      exact ha.whole rfl
  | element d name array row column =>
    cases mem_toList.mp hId
    exact ha.element rfl
  | _ => cases hId

end Seals

theorem keptByWrites_untouched (held : ObjectId → Prop) :
    KeptByWrites (Untouched held) fun a _ => a.Spares held where
  trans := .trans
  last h := .refl h.sealed
  later h _ := h
  object h ha hSet := by
    obtain ⟨d, id, rfl, rfl | ⟨-, rfl⟩⟩ := setObject_eq_ok hSet
    · exact h
    · exact h.sealed.overwrite (ha.whole rfl) _
  value h ha hSet := by
    obtain ⟨id, o, hTakes, rfl, hWritten⟩ := takes_of_setValue hSet
    exact h.sealed.setObject (h.sealed.not_held_of_written ha hWritten) hTakes
  output {c r source r'} h hOutput := by
    have hSeals := h.sealed
    rcases Assignment.output_eq_ok hOutput with rfl | ⟨id, rfl⟩ | ⟨name, rows, cols, v, hAssign⟩
    · exact h
    · exact hSeals.install (hSeals.assembly id)
    · -- The value is written into the new array, which is not in the set.
      have hNone : ((r.install (userArray name rows cols)).2.object
          (r.install (userArray name rows cols)).1).parameter? = none := by
        rw [object_install]
        rfl
      have hInstall := hSeals.install (a := userArray name rows cols)
        (clear_ofObject rfl)
      obtain ⟨other, o, hTakes, rfl, hWritten⟩ := takes_of_assign hAssign
      have hOther := hWritten "" .object
      rw [written_whole hNone, mem_singleton] at hOther
      subst hOther
      refine hInstall.trans (hInstall.sealed.setObject (fun hHeld => ?_) hTakes)
      exact (install_grows r (userArray name rows cols)).2.new (hSeals.has hHeld)

end Registry

/-! ### Names -/

/-- The names of the store lead to no object of the set. -/
structure Store.Misses (held : ObjectId → Prop) (s : Store) : Prop where
  objects : ∀ {id}, id ∈ s.objects.values → ¬ held id
  system : ∀ {id}, s.solarSystem = some id → ¬ held id

structure Scope.Misses (held : ObjectId → Prop) (s : Scope) : Prop where
  store : s.store.Misses held
  outer : ∀ {outer}, s.outer = some outer → outer.Misses held

section

variable {r : Registry} {id : ObjectId} {name : String}

theorem Store.Misses.find? {s : Store} (h : s.Misses held) (hr : r.Seals held)
    (hFind : s.find? r name = some id) : ¬ held id := by
  unfold Store.find? at hFind
  dsimp only at hFind
  split at hFind
  · exact h.system hFind
  · rcases (orElse_eq_some _ _ _).mp hFind with hKey | ⟨-, hBody⟩
    · exact h.objects (mem_map.mpr ⟨_, Table.mem_of_get? hKey, rfl⟩)
    · obtain ⟨system, hSystem, hOwned⟩ := bind_eq_some_iff.mp hBody
      exact fun hHeld => h.system hSystem (hr.owner (mem_of_find?_eq_some hOwned) hHeld)

theorem Scope.Misses.find? {s : Scope} (h : s.Misses held) (hr : r.Seals held)
    (hFind : s.find? r name = some id) : ¬ held id := by
  rcases (orElse_eq_some _ _ _).mp hFind with hHere | ⟨-, hThere⟩
  · exact h.store.find? hr hHere
  · obtain ⟨outer, hOuter, hThere⟩ := bind_eq_some_iff.mp hThere
    exact (h.outer hOuter).find? hr hThere

theorem Store.Misses.insert {s : Store} (h : s.Misses held) (hId : ¬ held id) :
    Store.Misses held { s with objects := s.objects.insert name id } := by
  refine ⟨fun hMem => ?_, h.system⟩
  rcases Table.mem_values_insert hMem with rfl | hOld
  · exact hId
  · exact h.objects hOld

theorem Scope.Misses.enter {s : Scope} (h : s.Misses held) {locals : Store} (hLocals : locals.Misses held) :
    (s.enter locals).Misses held := by
  refine ⟨hLocals, fun hOuter => ?_⟩
  cases hOuter
  cases hSome : s.outer with
  | none => exact h.store
  | some outer => exact h.outer hSome

end

/-! ### Checking -/

section

variable {kinds : ParameterKinds} {written : String → Prop} {w w' : Workspace} {a : Accessor}

/-- Checks make Parameters of what they find, and write axes into it. -/
theorem Changes.untouched (h : Changes kinds written w w') (hr : w.registry.Seals held)
    (hs : w.scope.Misses held) : Untouched held w.registry w'.registry ∧ w'.scope.Misses held := by
  induction h with
  | refl => exact ⟨.refl hr, hs⟩
  | note _ _ _ ih => exact ih
  | @parameter w' _ name kind p _ _ _ _ described _ ih =>
    obtain ⟨hUntouched, hScope⟩ := ih
    have hSeals := hUntouched.sealed
    refine ⟨hUntouched.trans (hSeals.of_grows (Parameter.grows_withParameter w' name _)
      (every_push hSeals.clear fun q hSome owner hOwner => ?_)), hScope.store.insert fun hHeld => ?_,
        hScope.outer⟩
    · cases hSome
      rw [(Parameter.describe_eq_ok described).2, mem_def] at hOwner
      exact hScope.find? hSeals hOwner
    · exact not_has_push_id _ _ (hSeals.has hHeld)
  | axes _ _ _ found known set ih =>
    obtain ⟨hUntouched, hScope⟩ := ih
    have hId := hScope.find? hUntouched.sealed (Workspace.find?_of_findOfType? found)
    have hSet := hUntouched.sealed.setObject hId (Object.takes_set set)
    refine ⟨(hUntouched.trans hSet).trans (hSet.sealed.replaceOwned hId .axisSystem ?_), hScope⟩
    unfold axisSystem at known
    split at known
    · cases known
      exact clear_ofObject rfl
    · cases known

theorem Accessor.LookedUp.spares (h : a.LookedUp w) (hr : w.registry.Seals held) (hs : w.scope.Misses held) :
    a.Spares held := by
  have hLeads : ∀ {id}, w.Leads id → ¬ held id := by
    rintro id (⟨name, hFind⟩ | hNew)
    · exact hs.find? hr hFind
    · exact fun hHeld => hNew (hr.has hHeld)
  refine ⟨fun ha => hLeads (h.whole ha), fun ha hTarget hHeld => ?_, fun ha => hLeads (h.element ha)⟩
  obtain ⟨owner, hOwner, rfl | hPart⟩ := h.property ha hTarget
  · exact hLeads hOwner hHeld
  · exact hLeads hOwner (hr.owner hPart hHeld)

/-- No accessor of the commands stands for an object of the set. -/
def Checker.AllSpare (held : ObjectId → Prop) (cs : List Command) : Prop :=
  ∀ c a, Command.Occurs c cs → a ∈ c.accessors → a.Spares held

theorem Checker.AllSettled.allSpare {cs : List Command} (h : AllSettled kinds written w w' cs)
    (hr : w.registry.Seals held) (hs : w.scope.Misses held) : AllSpare held cs := by
  intro c a hc ha
  obtain ⟨name, options, w₁, w₂, hBefore, hRun, -⟩ := (h.settled hc).held ha
  obtain ⟨hUntouched, hScope⟩ := hBefore.untouched hr hs
  exact (classify_lookedUp hRun).spares hUntouched.sealed hScope

end

/-! ### Running -/

/-- A copy of an input is bound to what the input is bound to. -/
theorem Call.clear_inputObject {r : Registry} (h : r.Seals held) {formal : String} {actual : Accessor}
    {a : Assembly} (hInput : inputObject r formal actual = .ok a) : ∀ o ∈ a.objects, o.Clear held := by
  unfold inputObject at hInput
  split at hInput
  · obtain ⟨id, -, hInput⟩ := bind_eq_ok.mp hInput
    cases hInput
    refine forall_objects_mk.mpr ⟨(h.object id).sameParameter ?_, forall_parts (h.assembly id)⟩
    change (r.assembly id).object.parameter? = _
    rw [object_assembly]
  · obtain ⟨v, -, hInput⟩ := bind_eq_ok.mp hInput
    split at hInput
    · obtain ⟨o, hStore, hInput⟩ := bind_eq_ok.mp hInput
      cases hInput
      have hTakes := Object.takes_store (CommandError.liftObject_eq_ok.mp hStore)
      exact clear_ofObject hTakes.sameKind.parameter
    all_goals
      cases hInput
      exact clear_ofObject rfl

namespace Execution

open Checker

variable {ck : Checker} {scope : Scope} {c : Call} {f : UserFunction}
  {locate : CommandError → ValidationError}
  {s s' : RunState} {cs : List Command}

/-- Nothing that a run of the commands can get at leads into the set. -/
structure Secludes (held : ObjectId → Prop) (ck : Checker) (scope : Scope) (r : Registry)
    (cs : List Command) :
    Prop where
  registry : r.Seals held
  functions : ∀ f ∈ ck.functions.values, ∀ e ∈ f.locals, e.object.Clear held
  scope : scope.Misses held
  spare : AllSpare held cs

theorem Secludes.prepare (h : Secludes held ck scope s.registry cs)
    (hf : ck.functions.get? c.function = some f) {x : Except ValidationError Frame}
    (hPrepare : prepare ck scope c f locate s = (x, s')) :
    Untouched held s.registry s'.registry ∧
      ∀ {frame}, x = .ok frame → Secludes held (ck.enter c.function) frame.scope s'.registry frame.body := by
  rcases prepare_cases hPrepare with ⟨rfl, e, rfl⟩ |
    ⟨store, now, y, body, checked, hLocal, hCheck, rfl, hFrame⟩
  · exact ⟨.refl h.registry, nofun⟩
  · have hLocals := h.functions f (mem_map.mpr ⟨_, Table.mem_of_get? hf, rfl⟩)
    obtain ⟨hFilled, hStore⟩ : Untouched held s.registry now ∧ store.Misses held := by
      refine Call.localStore_keeps (J := fun store now => Untouched held s.registry now ∧ store.Misses held)
        ?_
        (List.Subset.refl _) ⟨.refl h.registry, fun hMem => (by cases hMem), nofun⟩ hLocal
      rintro s₁ r₁ a id s₂ r₂ ⟨hUntouched, hMisses⟩ hSource hAdd
      obtain ⟨-, rfl, rfl, rfl⟩ := Store.add_eq_ok hAdd
      have ha : ∀ o ∈ a.objects, o.Clear held := by
        rcases hSource with hDeclared | ⟨formal, actual, -, hInput⟩
        · obtain ⟨e, he, rfl⟩ := mem_map.mp hDeclared
          exact every_copy h.registry.clear (Object.clear_of_none rfl) (hLocals e he)
        · exact Call.clear_inputObject hUntouched.sealed hInput
      refine ⟨hUntouched.trans (hUntouched.sealed.install ha), hMisses.insert fun hHeld => ?_⟩
      exact (install_grows r₁ a).2.new (hUntouched.sealed.has hHeld)
    obtain ⟨hChanges, hSettled⟩ := (ck.enter c.function).validateAll_settles hCheck
    have hScope := h.scope.enter hStore
    obtain ⟨hChecked, hNames⟩ := hChanges.untouched hFilled.sealed hScope
    refine ⟨hFilled.trans hChecked, fun hx => ?_⟩
    obtain ⟨rfl, valid, rfl⟩ := hFrame hx
    exact ⟨hChecked.sealed, h.functions, hNames, (hSettled valid rfl).allSpare hFilled.sealed hScope⟩

/-- What a run does to objects that nothing leads to. -/
theorem steady_untouched (held : ObjectId → Prop) :
    Steady (Untouched held) (fun a _ => a.Spares held) (Secludes held) where
  toKeptByWrites := keptByWrites_untouched held
  refl h := .refl h.registry
  next h hr := ⟨hr.sealed, h.functions, h.scope, h.spare⟩
  part h hIn := ⟨h.registry, h.functions, h.scope, fun c a hc => h.spare c a (hIn hc)⟩
  assigned h hTarget := h.spare _ _ .here (Assignment.mem_accessors.mpr (.inl hTarget))
  called h ha := by
    obtain ⟨slot, hSlot, hAccessor⟩ := Slot.mem_accessors.mp ha
    exact h.spare _ _ .here (Slot.mem_accessors.mpr ⟨slot, mem_append_right _ hSlot, hAccessor⟩)
  prepared h hf := h.prepare hf

end Execution

/-- The parts of the local objects that the functions declare, and their parts in turn. -/
inductive Checker.Holds (ck : Checker) (r : Registry) : ObjectId → Prop
  | declared {f : UserFunction} {e : Entry} {id : ObjectId} (function : f ∈ ck.functions.values)
      (declares : e ∈ f.locals) (owned : id ∈ e.owned) : Holds ck r id
  | part {id c : ObjectId} (holds : Holds ck r id) (owned : c ∈ r.owned id) : Holds ck r c

end Mission
