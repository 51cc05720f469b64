import Mission.Proofs.Command.Reversal
import Mission.Proofs.Session.Tracking

/-! A rename undone by the reverse rename. Each name of the store, each reference between objects
and each text of a command is renamed in its own way, and each way can be reversed as long as the
new name was nowhere before. So the script that comes back is the one there was, with all its tables
in their old order. -/
namespace Mission

open Name Registry List

/-! ### Registries -/

namespace ItemTree

variable {α : Type}

/-- The items say what the tree is. -/
theorem eq_of_get? {t t' : ItemTree α} (h : ∀ i, t.get? i = t'.get? i) : t = t' := by
  induction t generalizing t' with
  | leaf =>
    cases t' with
    | leaf => rfl
    | node item left right => cases h 0
  | node item left right ihLeft ihRight =>
    cases t' with
    | leaf => cases h 0
    | node item' left' right' =>
      have hItem : item = item' := Option.some.inj (h 0)
      have hLeft : left = left' := ihLeft fun i => by
        simpa [get?] using h (2 * i + 1)
      have hRight : right = right' := ihRight fun i => by
        have hAt := h (2 * i + 1 + 1)
        have hOdd : (2 * i + 1) % 2 = 1 := by omega
        have hHalf : (2 * i + 1) / 2 = i := by omega
        simpa [get?, hOdd, hHalf] using hAt
      rw [hItem, hLeft, hRight]

end ItemTree

namespace Registry

variable {r r' : Registry}

theorem eq_of_entry (hSize : r.entries.size = r'.entries.size) (h : ∀ id, r.entry id = r'.entry id) :
    r = r' := by
  obtain ⟨⟨size, tree, hFilled⟩⟩ := r
  obtain ⟨⟨size', tree', hFilled'⟩⟩ := r'
  obtain rfl : size = size' := hSize
  have hTree : tree = tree' := ItemTree.eq_of_get? fun i => by
    by_cases hi : i < size
    · obtain ⟨e, he⟩ := Option.isSome_iff_exists.mp ((hFilled i).mpr hi)
      obtain ⟨e', he'⟩ := Option.isSome_iff_exists.mp ((hFilled' i).mpr hi)
      have hEntry : (tree.get? i).getD default = (tree'.get? i).getD default := h ⟨i⟩
      rw [he, he'] at hEntry ⊢
      exact congrArg some hEntry
    · have hNone : tree.get? i = none := Option.not_isSome_iff_eq_none.mp (mt (hFilled i).mp hi)
      have hNone' : tree'.get? i = none := Option.not_isSome_iff_eq_none.mp (mt (hFilled' i).mp hi)
      rw [hNone, hNone']
  subst hTree
  rfl

/-- Changing each of the objects once. -/
theorem object_foldl_modifyObject (f : Object → Object) {ids : List ObjectId} (hIds : ids.Nodup)
    (hHas : ∀ id ∈ ids, r.Has id) (id : ObjectId) :
    (ids.foldl (fun r id => r.modifyObject id f) r).object id =
      if id ∈ ids then f (r.object id) else r.object id := by
  induction ids generalizing r with
  | nil => simp
  | cons first rest ih =>
    rw [nodup_cons] at hIds
    rw [forall_mem_cons] at hHas
    have hStep := ih (r := r.modifyObject first f) hIds.2 fun other hOther =>
      (sameParts_modifyObject r first f).has (hHas.2 other hOther)
    rw [foldl_cons, hStep]
    by_cases hFirst : id = first
    · subst hFirst
      simp [hIds.1, object_modifyObject_self hHas.1]
    · simp [hFirst, object_modifyObject_ne hFirst]

end Registry

/-! ### Objects -/

variable {old new : String}

/-- The names of other objects in a property. -/
def Property.texts (p : Property) : List String :=
  match p.value with
  | .object name => [name]
  | .stringArray items => items
  | _ => []

theorem Property.renameReferences_renameReferences (hNames : Reversible old new) {p : Property}
    (h : Lacks new p.texts) : (p.renameReferences old new).renameReferences new old = p := by
  obtain ⟨name, dataType, value, readOnly, refType, accepted⟩ := p
  cases value with
  | object target =>
    have hTarget := ne_of_not_mem_identifiers hNames.new (lacks_cons.mp h).1
    by_cases hOld : target = old
    · simp [renameReferences, hOld]
    · simp [renameReferences, hOld, hTarget]
  | stringArray items =>
    have hItems : (items.map fun item => if item = old then new else item).map
        (fun item => if item = new then old else item) = items := by
      rw [map_map]
      exact (map_congr_left fun item hItem => replaced_back hNames.new (h item hItem)).trans
        (map_id _)
    simp only [renameReferences, hItems]
  | absent | integer n | real x | string text | boolean flag | onOff flag | matrix m => rfl

namespace SystemParameter

def texts (p : SystemParameter) : List String :=
  [p.ownerName, p.dependency]

/-- A dependency after a rename. It is renamed as it stands in front of a point. -/
def renamedDependency (text old new : String) : String :=
  if text.isEmpty then text else String.ofList (replace (text ++ ".") old new).toList.dropLast

theorem replace_point (hNew : IsIdentifier new.toList) : replace "." new old = "." := by
  have hNone : ¬ RefersIn new.toList [] ['.'] [] :=
    not_refersIn_of_not_isAlpha hNew fun c hc => by
      rw [mem_singleton.mp hc]
      rfl
  rw [replace_eq_renamedFrom hNew]
  exact congrArg String.ofList (renamedFrom_of_not_refersIn hNew hNone)

theorem renamedDependency_append (hNames : Reversible old new) {text : String} (h : ¬ text.isEmpty = true) :
    renamedDependency text old new ++ "." = replace (text ++ ".") old new := by
  have hScan : Scanned old.toList new.toList [] (text ++ ".").toList _ :=
    scanned_renamedFrom hNames.old [] _
  have hLast : (replace (text ++ ".") old new).toList.getLast? = some '.' := by
    rw [replace_eq_renamedFrom hNames.old, String.toList_ofList]
    exact hScan.getLast? hNames.old (by rfl) (by simp)
  apply String.toList_inj.mp
  rw [renamedDependency, if_neg h, String.toList_append, String.toList_ofList]
  exact dropLast_append_getLast? _ hLast

theorem renamedDependency_back (hNames : Reversible old new) {text : String} (h : new ∉ identifiers text) :
    renamedDependency (renamedDependency text old new) new old = text := by
  by_cases hEmpty : text.isEmpty = true
  · simp [renamedDependency, hEmpty]
  · have hPoint := renamedDependency_append hNames hEmpty
    have hBack : replace (renamedDependency text old new ++ ".") new old = text ++ "." := by
      rw [hPoint]
      exact hNames.replace (by rwa [identifiers_append_point])
    -- A dependency that is there does not vanish, since the rename back would not bring it back.
    have hKept : ¬ (renamedDependency text old new).isEmpty = true := by
      intro hGone
      rw [String.isEmpty_iff.mp hGone, String.empty_append, replace_point hNames.new] at hBack
      have hChars := congrArg String.toList hBack
      rw [String.toList_append] at hChars
      apply hEmpty
      simpa using hChars
    rw [renamedDependency, if_neg hKept, hBack]
    simp

theorem renameReferences_renameReferences (hNames : Reversible old new) {p : SystemParameter}
    (h : Lacks new p.texts) : (p.renameReferences old new).renameReferences new old = p := by
  obtain ⟨kind, ownerName, dependency, owner, dependencyObject⟩ := p
  simp only [texts, lacks_cons] at h
  have hDependency := renamedDependency_back hNames h.2.1
  simp only [renameReferences, replaced_back hNames.new h.1]
  exact congrArg (fun text => SystemParameter.mk kind ownerName text owner dependencyObject) hDependency

end SystemParameter

namespace Object

/-- The names of other objects in an object. -/
def texts (o : Object) : List String :=
  o.properties.values.flatMap Property.texts ++
    match o.content with
    | .parameter p => p.texts
    | .plain | .variable _ | .array _ | .text _ => []

/-- The object under its name after a rename, with its references. -/
def renamed (o : Object) (old new : String) : Object :=
  { o.renameReferences old new with name := replace o.name old new }

theorem renamed_renamed (hNames : Reversible old new) {o : Object} (hName : new ∉ identifiers o.name)
    (h : Lacks new o.texts) : (o.renamed old new).renamed new old = o := by
  obtain ⟨name, typeName, objectType, ⟨entries⟩, content⟩ := o
  rw [texts, lacks_append, lacks_flatMap] at h
  have hProperties : (entries.map fun entry => (entry.1, entry.2.renameReferences old new)).map
      (fun entry => (entry.1, entry.2.renameReferences new old)) = entries := by
    rw [map_map]
    refine (map_congr_left fun entry hEntry => ?_).trans (map_id _)
    have hBack := Property.renameReferences_renameReferences hNames
      (h.1 entry.2 (mem_map_of_mem hEntry))
    exact Prod.ext rfl hBack
  cases content with
  | parameter p =>
    simp only [renamed, renameReferences, Table.map, hNames.replace hName, hProperties,
      SystemParameter.renameReferences_renameReferences hNames h.2]
  | _ =>
    simp only [renamed, renameReferences, Table.map, hNames.replace hName, hProperties]

end Object

/-! ### Stores -/

namespace Store

variable {s s' : Store} {r r' : Registry}

/-- A rename that makes no two names one. -/
theorem rename_eq_ok (hSound : s.Sound r) (hKeys : ((s.renamedPairs old new).map Prod.fst).Nodup)
    (h : s.rename r old new = .ok (s', r')) :
    s' = { s with objects := ⟨s.renamedPairs old new⟩ } ∧
      ∀ id, r'.object id = if id ∈ s.objects.values then (r.object id).renamed old new else r.object id := by
  obtain ⟨-, -, rfl, rfl⟩ := eq_of_rename h
  have hValues : (Table.ofPairs (s.renamedPairs old new)).values = s.objects.values := by
    rw [Table.ofPairs_of_nodup hKeys, Table.values, renamedPairs, map_map]
    rfl
  have hHas : ∀ id ∈ s.objects.values, r.Has id := by
    intro id hId
    obtain ⟨entry, hEntry, rfl⟩ := mem_map.mp hId
    exact (hSound.root hEntry).has
  have hParts := sameParts_renameObjects r old new s.objects.entries
  refine ⟨by rw [Table.ofPairs_of_nodup hKeys], fun id => ?_⟩
  rw [hValues, object_foldl_modifyObject _ hSound.distinct fun id hId => hParts.has (hHas id hId)]
  split
  · next hId =>
      obtain ⟨⟨key, id⟩, hEntry, rfl⟩ := mem_map.mp hId
      rw [object_renameObjects_of_mem (fun e he => (hSound.root he).has) (fun e he => hSound.name he)
        hSound.distinct hEntry, ← hSound.name hEntry]
      rfl
  · next hId => exact object_renameObjects hId

/-- The reverse rename restores the names of the store and the objects. -/
theorem rename_rename {s'' : Store} {r'' : Registry} (hNames : Reversible old new) (hSound : s.Sound r)
    (hKeys : s.objects.keys.Nodup) (hLacks : Lacks new s.objects.keys)
    (hObjects : ∀ id ∈ s.objects.values, Lacks new (r.object id).texts)
    (h : s.rename r old new = .ok (s', r')) (h' : s'.rename r' new old = .ok (s'', r'')) :
    s'' = s ∧ r'' = r := by
  obtain ⟨hSound', hParts, -⟩ := rename_spec hSound h
  obtain ⟨-, hParts', -⟩ := rename_spec hSound' h'
  have hKey : ∀ entry ∈ s.objects.entries, replace (replace entry.1 old new) new old = entry.1 :=
    fun entry hEntry => hNames.replace (hLacks entry.1 (mem_map_of_mem hEntry))
  have hDistinct : ((s.renamedPairs old new).map Prod.fst).Nodup :=
    Table.nodup_keys_map (f := fun key => replace key old new) (g := fun key => replace key new old)
      id hKeys hKey
  obtain ⟨rfl, hObject⟩ := rename_eq_ok hSound hDistinct h
  have hPairs : renamedPairs { s with objects := ⟨s.renamedPairs old new⟩ } new old = s.objects.entries :=
    Table.map_map_entries (f := fun key => replace key old new) (g := fun key => replace key new old)
      (F := id) (G := id) hKey fun _ _ => rfl
  obtain ⟨rfl, hObject'⟩ := rename_eq_ok hSound' (by rwa [hPairs]) h'
  refine ⟨by rw [hPairs], eq_of_entry (hParts'.size.trans hParts.size) fun id => ?_⟩
  have hValues : (Table.mk (s.renamedPairs old new)).values = s.objects.values := by
    rw [Table.values, renamedPairs, map_map]
    rfl
  have hBack : r''.object id = r.object id := by
    rw [hObject', hObject, hValues]
    by_cases hId : id ∈ s.objects.values
    · obtain ⟨⟨key, id⟩, hEntry, rfl⟩ := mem_map.mp hId
      simp only [hId, if_true]
      apply Object.renamed_renamed hNames _ (hObjects _ hId)
      rw [hSound.name hEntry]
      exact hLacks key (mem_map_of_mem hEntry)
    · simp only [hId, if_false]
  have hOwned : r''.owned id = r.owned id := (hParts'.owned id).trans (hParts.owned id)
  exact congrArg₂ Entry.mk hBack hOwned

end Store

/-! ### Sessions -/

namespace Session

/-- The texts of a script: the names of its objects, the names of others that they hold, and the
texts of its commands. -/
def texts (s : Session) : List String :=
  s.store.objects.keys ++ (s.store.objects.values.flatMap (fun id => (s.registry.object id).texts) ++
    (Command.preorderAll s.commands).flatMap Command.texts)

/-- No command has two accessors for one leaf of its equation. -/
def Keyed (s : Session) : Prop :=
  ∀ c ∈ Command.preorderAll s.commands, c.bindings.keys.Nodup

/-- A rename to a name that is nowhere in the script is undone by the reverse rename. All that
remains of the two are the messages about them. -/
theorem rename_undone {s s₁ s₂ : Session} (hReachable : s.Reachable) (hKeyed : s.Keyed)
    (hOld : isValid old = true) (hNew : isValid new = true) (hLacks : Lacks new s.texts)
    (h₁ : s.rename old new = (.ok (), s₁)) (h₂ : s₁.rename new old = (.ok (), s₂)) :
    s₂ = { s with log := (s.log.push (Store.renameMessage old new)).push (Store.renameMessage new old) } := by
  have hNames : Reversible old new := ⟨isIdentifier_of_isValid hOld, isIdentifier_of_isValid hNew⟩
  have hSound := hReachable.sound.workspace.scope.store
  rw [texts, lacks_append, lacks_append, lacks_flatMap, lacks_flatMap] at hLacks
  obtain ⟨hKeys, hObjects, hCommands⟩ := hLacks
  have hRestored := Command.renameAll_renameAll hNames s.commands fun c hc =>
    ⟨hCommands c hc, hKeyed c hc⟩
  unfold rename at h₁
  split at h₁
  · cases h₁
  · next hStore =>
      cases h₁
      unfold rename at h₂
      split at h₂
      · cases h₂
      · next hStore' =>
          cases h₂
          obtain ⟨rfl, rfl⟩ := Store.rename_rename hNames hSound hReachable.keys hKeys hObjects hStore hStore'
          rw [hRestored]
          rfl

/-- A script that has been checked. It moves a point to a spacecraft, and reports Parameters of the
spacecraft. -/
def observedScript : Session :=
  let s := ((Session.new {}).add (Catalog.spacecraft "sat")).2
  let s := (s.add (Catalog.librationPoint "point" "Earth" "sat" "L1")).2
  let s := (s.add (Catalog.userVariable "x" 0.0)).2
  let s := (s.add (Catalog.reportFile "rf")).2
  let s := s.push (.assignment (.make "x" "sat.X' + sat.EarthMJ2000Eq.Y") none)
  let s := s.push (.branch .whileLoop (.single (.make "x" .lessThan "sat.RMAG"))
    [.assignment (.make "point.Primary" "sat") none, .report (.make "rf" ["sat.X", "x"]) none] [] none)
  s.validate.2

theorem reachable_observedScript : observedScript.Reachable :=
  .validate (.push _ (.push _ (.add _ (.add _ (.add _ (.add _ (.new _)))))))

theorem rename_of_isOk (s : Session) (old new : String) (h : (s.rename old new).1.isOk = true) :
    s.rename old new = (.ok (), (s.rename old new).2) := by
  rcases hRun : s.rename old new with ⟨x, s'⟩
  rw [hRun] at h
  cases x with
  | error e => cases h
  | ok u => rfl

/-- The rename reaches a Parameter, a reference, a leaf and an accessor, and all of them come back. -/
theorem rename_undone_observedScript :
    ∃ s₁ s₂, observedScript.validated = true ∧ Lacks "probe" observedScript.texts ∧
      observedScript.rename "sat" "probe" = (.ok (), s₁) ∧ ¬ Lacks "probe" s₁.texts ∧
      s₁.rename "probe" "sat" = (.ok (), s₂) ∧
      s₂ = { observedScript with
        log := (observedScript.log.push (Store.renameMessage "sat" "probe")).push
          (Store.renameMessage "probe" "sat") } := by
  have hRuns : observedScript.validated = true ∧
      (∀ c ∈ Command.preorderAll observedScript.commands, c.bindings.keys.Nodup) ∧
      Lacks "probe" observedScript.texts ∧ (observedScript.rename "sat" "probe").1.isOk = true ∧
      ¬ Lacks "probe" (observedScript.rename "sat" "probe").2.texts ∧
      ((observedScript.rename "sat" "probe").2.rename "probe" "sat").1.isOk = true := by
    decide +kernel
  obtain ⟨hValidated, hBindings, hLacks, hOk, hRenamed, hOk'⟩ := hRuns
  have h₁ := rename_of_isOk observedScript "sat" "probe" hOk
  have h₂ := rename_of_isOk (observedScript.rename "sat" "probe").2 "probe" "sat" hOk'
  exact ⟨_, _, hValidated, hLacks, h₁, hRenamed, h₂,
    rename_undone reachable_observedScript hBindings (by decide) (by decide) hLacks h₁ h₂⟩

end Session

end Mission
