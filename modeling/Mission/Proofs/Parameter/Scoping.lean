import Mathlib.Data.Option.Basic
import Mission.Proofs.Classify.Description
import Mission.Proofs.Session.Tracking

/-! Owners of Parameters. A Parameter is bound to its owner when it is created, and from then on its
full name leads to it, also where the name of its owner has come to lead elsewhere: an object of a
function may hide the owner, or the owner may have been removed and another object added under its
name. The main result says for every workspace that can be reached when the two agree: exactly as
long as the object that the Parameter is bound to has the name of its owner and is visible under it.
-/
namespace Mission

open Registry Outcome List Store

theorem Registry.findOwned_eq_some_iff {r : Registry} {system id : ObjectId} {name : String} :
    r.findOwned system name = some id ↔ (r.object id).name = name ∧
      ∃ front behind, r.owned system = front ++ id :: behind ∧
        ∀ other ∈ front, (r.object other).name ≠ name := by
  rw [findOwned, List.find?_eq_some_iff_append]
  simp

namespace Store

variable {s s' : Store} {r r' : Registry}

theorem Sound.get?_eq_some_iff (hSound : s.Sound r) (hKeys : s.objects.keys.Nodup) {name : String}
    {id : ObjectId} :
    s.objects.get? name = some id ↔ id ∈ s.objects.values ∧ (r.object id).name = name := by
  constructor
  · intro h
    have hMem := Table.mem_of_get? h
    exact ⟨mem_map.mpr ⟨_, hMem, rfl⟩, hSound.name hMem⟩
  · rintro ⟨hMem, rfl⟩
    obtain ⟨⟨key, id⟩, hEntry, rfl⟩ := mem_map.mp hMem
    rw [hSound.name hEntry]
    exact Table.get?_of_mem hKeys hEntry

/-- A store stays sound where what belongs to what stays, and the objects that it names keep their
names. -/
theorem Sound.sameParts (hSound : s.Sound r) (h : SameParts r r')
    (hNames : ∀ id, id ∈ s.objects.values ∨ s.solarSystem = some id →
      (r'.object id).name = (r.object id).name) : s.Sound r' where
  root hMem := h.root (hSound.root hMem)
  name hMem := (hNames _ (.inl (mem_map.mpr ⟨_, hMem, rfl⟩))).trans (hSound.name hMem)
  distinct := hSound.distinct
  system hSystem :=
    ⟨h.root (hSound.system hSystem).1, (hNames _ (.inr hSystem)).trans (hSound.system hSystem).2⟩
  apart := hSound.apart

theorem objects_add {a : Assembly} {id : ObjectId} (h : s.add r a = .ok (id, s', r')) :
    s'.objects = s.objects.insert a.object.name id ∧ ¬ r.Has id := by
  obtain ⟨-, rfl, rfl, -⟩ := add_eq_ok h
  exact ⟨rfl, (install_grows r a).2.new⟩

end Store

namespace Scope

variable {s s' : Scope} {r : Registry}

/-- No store gives a name twice, and the local store names nothing that the outer one has. -/
structure Distinct (s : Scope) : Prop where
  store : s.store.objects.keys.Nodup
  outer : ∀ {outer}, s.outer = some outer → outer.objects.keys.Nodup
  apart : ∀ {outer id}, s.outer = some outer → id ∈ s.store.objects.values →
    id ∉ outer.objects.values ∧ outer.solarSystem ≠ some id

/-- The local store may change as long as what it names in addition is new. -/
theorem Distinct.of_values (h : s.Distinct) (hSound : s.Sound r) (hOuter : s'.outer = s.outer)
    (hKeys : s'.store.objects.keys.Nodup)
    (hValues : ∀ id ∈ s'.store.objects.values, id ∈ s.store.objects.values ∨ ¬ r.Has id) :
    s'.Distinct where
  store := hKeys
  outer hSome := h.outer (hOuter ▸ hSome)
  apart := by
    intro outer id hSome hMem
    rw [hOuter] at hSome
    have hStore := (hSound.outer hSome).1
    rcases hValues id hMem with hOld | hNew
    · exact h.apart hSome hOld
    · refine ⟨fun hThere => ?_, fun hSystem => hNew (hStore.system hSystem).1.has⟩
      obtain ⟨entry, hEntry, rfl⟩ := mem_map.mp hThere
      exact hNew (hStore.root hEntry).has

/-- The objects that their own names lead to. The local store comes first, then the outer one, and
last the bodies of the solar system, of which the first of a name counts. -/
inductive Visible (s : Scope) (r : Registry) (id : ObjectId) : Prop
  | system (h : s.system = some id)
  | here (hName : (r.object id).name ≠ "SolarSystem") (h : id ∈ s.store.objects.values)
  | outer {outer : Store} (hName : (r.object id).name ≠ "SolarSystem")
      (hHere : s.store.contains (r.object id).name = false) (hOuter : s.outer = some outer)
      (h : id ∈ outer.objects.values)
  | body {system : ObjectId} {front behind : List ObjectId} (hName : (r.object id).name ≠ "SolarSystem")
      (hFree : s.named? (r.object id).name = none) (hSystem : s.system = some system)
      (hBodies : r.owned system = front ++ id :: behind)
      (hFirst : ∀ other ∈ front, (r.object other).name ≠ (r.object id).name)

theorem Sound.named?_eq_some_iff (hSound : s.Sound r) (hDistinct : s.Distinct) {name : String}
    {id : ObjectId} :
    s.named? name = some id ↔ (r.object id).name = name ∧
      (id ∈ s.store.objects.values ∨
        s.store.contains name = false ∧ ∃ outer, s.outer = some outer ∧ id ∈ outer.objects.values) := by
  have hFree : s.store.contains name = false ↔ s.store.objects.get? name = none := by
    simp [Store.contains, Table.contains]
  rw [named?, Option.orElse_eq_some, hSound.store.get?_eq_some_iff hDistinct.store, Option.bind_eq_some_iff,
    hFree]
  constructor
  · rintro (⟨hMem, hName⟩ | ⟨hNone, outer, hOuter, hThere⟩)
    · exact ⟨hName, .inl hMem⟩
    · obtain ⟨hMem, hName⟩ :=
        ((hSound.outer hOuter).1.get?_eq_some_iff (hDistinct.outer hOuter)).mp hThere
      exact ⟨hName, .inr ⟨hNone, outer, hOuter, hMem⟩⟩
  · rintro ⟨hName, hMem | ⟨hNone, outer, hOuter, hMem⟩⟩
    · exact .inl ⟨hMem, hName⟩
    · refine .inr ⟨hNone, outer, hOuter, ?_⟩
      exact ((hSound.outer hOuter).1.get?_eq_some_iff (hDistinct.outer hOuter)).mpr ⟨hMem, hName⟩

/-- A name leads to the visible object of that name. -/
theorem Sound.find?_eq_some_iff (hSound : s.Sound r) (hDistinct : s.Distinct) {name : String}
    {id : ObjectId} :
    s.find? r name = some id ↔ (r.object id).name = Name.stripIndex name ∧ s.Visible r id := by
  rw [hSound.find?_eq]
  generalize Name.stripIndex name = key
  by_cases hKey : key = "SolarSystem"
  · rw [if_pos hKey, hKey]
    constructor
    · intro h
      exact ⟨(hSound.system_root h).2, .system h⟩
    · rintro ⟨hIs, hVisible⟩
      cases hVisible with
      | system h => exact h
      | here hName _ | outer hName _ _ _ | body hName _ _ _ _ => exact absurd hIs hName
  · rw [if_neg hKey]
    rw [Option.orElse_eq_some, hSound.named?_eq_some_iff hDistinct, Option.bind_eq_some_iff]
    constructor
    · rintro (⟨rfl, hHere | ⟨hHere, outer, hOuter, hMem⟩⟩ | ⟨hFree, system, hSystem, hBody⟩)
      · exact ⟨rfl, .here hKey hHere⟩
      · exact ⟨rfl, .outer hKey hHere hOuter hMem⟩
      · obtain ⟨rfl, front, behind, hBodies, hFirst⟩ := findOwned_eq_some_iff.mp hBody
        exact ⟨rfl, .body hKey hFree hSystem hBodies hFirst⟩
    · rintro ⟨rfl, hVisible⟩
      cases hVisible with
      | system h => exact absurd (hSound.system_root h).2 hKey
      | here _ hMem => exact .inl ⟨rfl, .inl hMem⟩
      | outer _ hHere hOuter hMem => exact .inl ⟨rfl, .inr ⟨hHere, _, hOuter, hMem⟩⟩
      | body _ hFree hSystem hBodies hFirst =>
        exact .inr ⟨hFree, _, hSystem, findOwned_eq_some_iff.mpr ⟨rfl, _, _, hBodies, hFirst⟩⟩

end Scope

namespace Workspace

/-! ### Workspaces that can be reached -/

/-- Adds an object to the local store. Where its name is taken, nothing changes. -/
def add (w : Workspace) (a : Assembly) : Workspace :=
  match w.scope.store.add w.registry a with
  | .ok (_, store, registry) => { w with registry, scope := { w.scope with store } }
  | .error _ => w

/-- Takes a name out of the local store. -/
def remove (w : Workspace) (name : String) : Workspace :=
  { w with scope := { w.scope with store := w.scope.store.remove name } }

/-- Renames an object of the local store. Where that is refused, nothing changes. -/
def rename (w : Workspace) (old new : String) : Workspace :=
  match w.scope.store.rename w.registry old new with
  | .ok (store, registry) => { w with registry, scope := { w.scope with store } }
  | .error _ => w

/-- The workspace of a function whose objects have not been added yet. -/
def enter (w : Workspace) : Workspace :=
  { w with scope := w.scope.enter {} }

/-- A workspace without objects. -/
def blank : Workspace :=
  { registry := {}, scope := { store := {} } }

/-- A workspace with the solar system and the default coordinate systems. -/
def initial : Workspace :=
  { registry := (Store.withDefaults {}).2, scope := { store := (Store.withDefaults {}).1 } }

/-- The workspaces that any sequence of requests leads to. In between the objects may evolve, as
they do where commands are run and where a function returns. -/
inductive Reachable : Workspace → Prop
  | blank : Reachable blank
  | initial : Reachable initial
  | add {w : Workspace} (h : Reachable w) (a : Assembly) : Reachable (w.add a)
  | remove {w : Workspace} (h : Reachable w) (name : String) : Reachable (w.remove name)
  | rename {w : Workspace} (h : Reachable w) (old new : String) : Reachable (w.rename old new)
  | classify {w : Workspace} (h : Reachable w) (kinds : ParameterKinds) (options : ClassifyOptions)
      (text : String) : Reachable (classify kinds options text w).2
  | enter {w : Workspace} (h : Reachable w) : Reachable w.enter
  | evolve {w : Workspace} (h : Reachable w) {r : Registry} (hr : Evolves w.system w.registry r) (log : Log) :
      Reachable { w with registry := r, log }

/-- The workspace is sound, and no name in scope is given twice. -/
structure Scoped (w : Workspace) : Prop where
  sound : w.Sound
  distinct : w.scope.Distinct

namespace Scoped

variable {w w' : Workspace}

theorem blank : blank.Scoped where
  sound := ⟨forest_empty, empty_sound _, fun h => by cases h⟩
  distinct := ⟨nodup_nil, (fun h => by cases h), (fun h => by cases h)⟩

theorem initial : initial.Scoped where
  sound := ⟨Session.sound_withDefaults.1, Session.sound_withDefaults.2, fun h => by cases h⟩
  distinct := ⟨by decide +kernel, (fun h => by cases h), (fun h => by cases h)⟩

theorem add (h : w.Scoped) (a : Assembly) : (w.add a).Scoped := by
  unfold Workspace.add
  split
  · next id store r hAdd =>
      obtain ⟨hGrows, hStore, hSystem⟩ := add_spec h.sound.scope.store h.sound.forest hAdd
      obtain ⟨hObjects, hNew⟩ := objects_add hAdd
      have hEvolves := hGrows.evolves none
      refine ⟨⟨h.sound.forest.later hEvolves, hStore, fun hOuter => ?_⟩, ?_⟩
      · obtain ⟨hThere, hNone⟩ := h.sound.scope.outer hOuter
        exact ⟨hThere.later hEvolves, hSystem.trans hNone⟩
      · refine h.distinct.of_values h.sound.scope rfl ?_ fun x hx => ?_
        · rw [hObjects]
          exact Table.nodup_keys_insert h.distinct.store _ _
        · rw [hObjects] at hx
          rcases Table.mem_values_insert hx with rfl | hOld
          · exact .inr hNew
          · exact .inl hOld
  · exact h

theorem remove (h : w.Scoped) (name : String) : (w.remove name).Scoped where
  sound := ⟨h.sound.forest, h.sound.scope.store.remove name, h.sound.scope.outer⟩
  distinct := by
    refine h.distinct.of_values h.sound.scope rfl ?_ fun id hId => ?_
    · exact h.distinct.store.sublist (filter_sublist.map Prod.fst)
    · exact .inl ((filter_sublist.map Prod.snd).subset hId)

theorem rename (h : w.Scoped) (old new : String) : (w.rename old new).Scoped := by
  unfold Workspace.rename
  split
  · next store r hRename =>
      obtain ⟨hStore, hParts, hSystem⟩ := rename_spec h.sound.scope.store hRename
      obtain ⟨hKeys, hValues, hNames⟩ := rename_keys hRename
      refine ⟨⟨hParts.forest h.sound.forest, hStore, fun {outer} hOuter => ?_⟩, ?_⟩
      · obtain ⟨hThere, hNone⟩ := h.sound.scope.outer hOuter
        refine ⟨hThere.sameParts hParts fun id hId => hNames id fun hHere => ?_, hSystem.trans hNone⟩
        obtain ⟨hApart, hNot⟩ := h.distinct.apart hOuter hHere
        exact hId.elim hApart hNot
      · exact h.distinct.of_values h.sound.scope rfl hKeys fun id hId => .inl (hValues id hId)
  · exact h

theorem adds (h : w.Scoped) (hAdds : w.Adds w') : w'.Scoped where
  sound := hAdds.becomes.sound
  distinct := h.distinct.of_values h.sound.scope hAdds.becomes.path.outer (hAdds.keys h.distinct.store)
    fun _ => hAdds.values

theorem enter (h : w.Scoped) : w.enter.Scoped where
  sound := ⟨h.sound.forest, h.sound.scope.enter (empty_sound _) rfl⟩
  distinct := by
    refine ⟨nodup_nil, fun hOuter => ?_, fun _ hMem => by cases hMem⟩
    cases hOuter
    cases hOuter : w.scope.outer with
    | none => exact h.distinct.store
    | some outer => exact h.distinct.outer hOuter

end Scoped

theorem Reachable.scoped {w : Workspace} (h : w.Reachable) : w.Scoped := by
  induction h with
  | blank => exact .blank
  | initial => exact .initial
  | add _ a ih => exact ih.add a
  | remove _ name ih => exact ih.remove name
  | rename _ old new ih => exact ih.rename old new
  | classify _ kinds options text ih => exact ih.adds (adds_classify ih.sound kinds options text)
  | enter _ ih => exact ih.enter
  | evolve _ hr log ih => exact ⟨⟨ih.sound.forest.later hr, ih.sound.scope.later hr⟩, ih.distinct⟩

end Workspace

/-! ### The owner of a Parameter -/

/-- The object that the Parameter is bound to has the name of the owner and is visible under it. -/
def SystemParameter.Attached (p : SystemParameter) (s : Scope) (r : Registry) : Prop :=
  ∃ owner, p.owner = some owner ∧ (r.object owner).name = Name.stripIndex p.ownerName ∧ s.Visible r owner

namespace Workspace

variable {w w' : Workspace}

/-- What a dotted text stands for where the name of the owner leads to an object. A new Parameter is
bound to that object. A Parameter that is in scope already is taken as it is, and it is bound to
that object exactly if it is attached. -/
theorem classify_parameter_owner (hReachable : w.Reachable) (kinds : ParameterKinds)
    (options : ClassifyOptions) {text : String} (hDot : '.' ∈ text.toList) {d : String} {k : WholeKind}
    {id : ObjectId} (hClassify : classify kinds options text w = (.ok (.whole d k (some id)), w'))
    {p : SystemParameter} (hContent : (w'.registry.object id).content = .parameter p) {o : ObjectId}
    (hOwner : w'.find? p.ownerName = some o) :
    d = Literal.unparenthesise text ∧
    (w.findOfType? d .parameter = none →
      p.ownerName = (DottedName.parse d).owner ∧ p.owner = some o) ∧
    (∀ known, w.findOfType? d .parameter = some known → id = known ∧ w'.registry = w.registry) ∧
    (p.owner = some o ↔ p.Attached w'.scope w'.registry) := by
  have hScoped' : w'.Scoped := by
    have hLater := (hReachable.classify kinds options text).scoped
    rwa [hClassify] at hLater
  have hText : d = Literal.unparenthesise text :=
    (Meets.of_ok hClassify).mp (describes_classify kinds options text w)
  have hDotted : '.' ∈ d.toList := by
    rw [hText]
    exact Literal.mem_unparenthesise (by decide) (by decide) (by decide) hDot
  have hGives := (Meets.of_ok hClassify).mp (classify_gives hReachable.scoped.sound kinds options text)
  have hGiven := hGives.parameter rfl hDotted
  refine ⟨hText, fun hNone => ?_, fun known hKnown => hGiven.known hKnown, ?_⟩
  · obtain ⟨q, hNew, hName, hBound⟩ := hGiven.new hNone
    obtain rfl : q = p := by
      rw [hContent] at hNew
      cases hNew
      rfl
    refine ⟨hName, ?_⟩
    rw [hBound, ← hGives.adds.find? (DottedName.dot_not_mem_owner d), ← hName, hOwner]
  · have hLeads : ∀ {owner}, w'.find? p.ownerName = some owner ↔
        (w'.registry.object owner).name = Name.stripIndex p.ownerName ∧ w'.scope.Visible w'.registry owner :=
      hScoped'.sound.scope.find?_eq_some_iff hScoped'.distinct
    constructor
    · exact fun hBound => ⟨o, hBound, hLeads.mp hOwner⟩
    · rintro ⟨owner, hBound, hAlso⟩
      rw [hBound, ← hLeads.mpr hAlso, hOwner]

/-- The owner of the Parameter that a text stands for, and what the name of the owner leads to. -/
def ownersOf (w : Workspace) (text : String) : Option (Option ObjectId × Option ObjectId) :=
  match classify .builtin {} text w with
  | (.ok (.whole _ _ (some id)), w') =>
    match (w'.registry.object id).content with
    | .parameter p => some (p.owner, w'.find? p.ownerName)
    | _ => none
  | _ => none

theorem exists_of_ownersOf {text : String} {owner found : Option ObjectId}
    (h : w.ownersOf text = some (owner, found)) :
    ∃ w' d k id p, classify .builtin {} text w = (.ok (.whole d k (some id)), w') ∧
      (w'.registry.object id).content = .parameter p ∧ p.owner = owner ∧ w'.find? p.ownerName = found := by
  unfold ownersOf at h
  split at h
  · next d k id w' hClassify =>
      split at h
      · next p hContent =>
          cases h
          exact ⟨w', d, k, id, p, hClassify, hContent, rfl, rfl⟩
      · cases h
  · cases h

/-- A workspace with one spacecraft. -/
def single : Workspace :=
  initial.add (Catalog.spacecraft "sat")

/-- The workspace with the spacecraft and a Parameter of it. -/
def measured : Workspace :=
  (classify .builtin {} "sat.X" single).2

theorem reachable_single : single.Reachable :=
  .add .initial _

/-- In a function with a spacecraft of the same name, a new Parameter belongs to the spacecraft of the
function. -/
theorem local_owner_bound :
    ∃ w' d k id p o, classify .builtin {} "sat.X" (single.enter.add (Catalog.spacecraft "sat")) =
        (.ok (.whole d k (some id)), w') ∧
      (w'.registry.object id).content = .parameter p ∧ w'.find? p.ownerName = some o ∧
      o ∉ single.scope.store.objects.values ∧ p.ownerName = "sat" ∧ p.owner = some o ∧
      p.Attached w'.scope w'.registry := by
  have hOwners : (single.enter.add (Catalog.spacecraft "sat")).ownersOf "sat.X" =
      some (some ⟨12⟩, some ⟨12⟩) := by decide +kernel
  have hNone : (single.enter.add (Catalog.spacecraft "sat")).findOfType? "sat.X" .parameter = none := by
    decide +kernel
  have hBare : Literal.unparenthesise "sat.X" = "sat.X" := by decide +kernel
  obtain ⟨w', d, k, id, p, hClassify, hContent, -, hFind⟩ := exists_of_ownersOf hOwners
  obtain ⟨hText, hNew, -, hAttached⟩ := classify_parameter_owner (.add (.enter reachable_single) _)
    .builtin {} (by decide) hClassify hContent hFind
  rw [hText, hBare] at hNew
  obtain ⟨hName, hOwner⟩ := hNew hNone
  exact ⟨w', d, k, id, p, _, hClassify, hContent, hFind, by decide +kernel, hName.trans (by decide +kernel),
    hOwner, hAttached.mp hOwner⟩

/-- The text is dotted and stands for a Parameter that is bound to another object than the name of
its owner leads to. -/
def Misbound (w : Workspace) (text : String) : Prop :=
  '.' ∈ text.toList ∧ ∃ w' d k id p o, classify .builtin {} text w = (.ok (.whole d k (some id)), w') ∧
    (w'.registry.object id).content = .parameter p ∧ w'.find? p.ownerName = some o ∧ p.owner ≠ some o

theorem misbound_of_ownersOf {text : String} {owner o : ObjectId} (hDot : '.' ∈ text.toList)
    (h : w.ownersOf text = some (some owner, some o)) (hne : owner ≠ o) : w.Misbound text := by
  obtain ⟨w', d, k, id, p, hClassify, hContent, hOwner, hFind⟩ := exists_of_ownersOf h
  refine ⟨hDot, w', d, k, id, p, o, hClassify, hContent, hFind, ?_⟩
  rw [hOwner]
  simpa using hne

/-- A known Parameter of a spacecraft stays bound to it in a function with a spacecraft of the same
name, and where the spacecraft has been removed and another one added under its name. -/
theorem known_owner_stays_bound :
    (measured.enter.add (Catalog.spacecraft "sat")).Reachable ∧
    (measured.enter.add (Catalog.spacecraft "sat")).Misbound "sat.X" ∧
    ((measured.remove "sat").add (Catalog.spacecraft "sat")).Reachable ∧
    ((measured.remove "sat").add (Catalog.spacecraft "sat")).Misbound "sat.X" := by
  have hMeasured : measured.Reachable := .classify reachable_single _ _ _
  have hHidden : (measured.enter.add (Catalog.spacecraft "sat")).ownersOf "sat.X" =
      some (some ⟨11⟩, some ⟨13⟩) := by decide +kernel
  have hReplaced : ((measured.remove "sat").add (Catalog.spacecraft "sat")).ownersOf "sat.X" =
      some (some ⟨11⟩, some ⟨13⟩) := by decide +kernel
  refine ⟨.add (.enter hMeasured) _, ?_, .add (.remove hMeasured _) _, ?_⟩
  · exact misbound_of_ownersOf (by decide) hHidden (by decide)
  · exact misbound_of_ownersOf (by decide) hReplaced (by decide)

end Workspace

end Mission
