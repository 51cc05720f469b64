import Mission.Proofs.Accessor.Writing
import Mission.Proofs.Workspace.Binding

/-! Accessors and where they come from. A property that a text stands for is bound where its names
lead at that time, and an object that a text stands for as a whole is the solar system, a part of it
or a part of nothing. Both remain so while the workspace evolves. -/
namespace Mission

open Registry Outcome List

/-! ### Workspaces -/

theorem Store.Sound.insert {s : Store} {r r' : Registry} {system : Option ObjectId} (hSound : s.Sound r)
    (h : Evolves system r r') {name : String} {id : ObjectId} (hFree : s.contains name = false)
    (hNew : ¬ r.Has id) (hRoot : r'.Root id) (hName : (r'.object id).name = name) :
    Store.Sound { s with objects := s.objects.insert name id } r' := by
  have hLater := hSound.later h
  have hEntries : (s.objects.insert name id).entries = s.objects.entries ++ [(name, id)] := by
    rw [Table.insert_of_not_contains hFree]
  have hValues : (s.objects.insert name id).values = s.objects.values ++ [id] := by
    rw [Table.values, hEntries, map_append]
    rfl
  have hFresh : id ∉ s.objects.values := by
    intro hMem
    obtain ⟨entry, hEntry, rfl⟩ := mem_map.mp hMem
    exact hNew (hSound.root hEntry).has
  refine ⟨?_, ?_, ?_, hLater.system, ?_⟩
  · intro other o hMem
    rcases mem_append.mp (hEntries ▸ hMem) with hOld | hLast
    · exact hLater.root hOld
    · cases mem_singleton.mp hLast
      exact hRoot
  · intro other o hMem
    rcases mem_append.mp (hEntries ▸ hMem) with hOld | hLast
    · exact hLater.name hOld
    · cases mem_singleton.mp hLast
      exact hName
  · rw [hValues, nodup_append]
    refine ⟨hSound.distinct, by simp, ?_⟩
    rintro o ho o' ho' rfl
    exact hFresh (mem_singleton.mp ho' ▸ ho)
  · intro system hSystem hMem
    rw [hValues] at hMem
    rcases mem_append.mp hMem with hOld | hLast
    · exact hSound.apart hSystem hOld
    · refine hNew ?_
      rw [← mem_singleton.mp hLast]
      exact (hSound.system hSystem).1.has

theorem Store.Sound.remove {s : Store} {r : Registry} (hSound : s.Sound r) (name : String) :
    (s.remove name).Sound r := by
  have hOld : ∀ {entry}, entry ∈ (s.remove name).objects.entries → entry ∈ s.objects.entries :=
    fun hMem => (mem_filter.mp hMem).1
  have hValues : (s.remove name).objects.values.Sublist s.objects.values :=
    filter_sublist.map Prod.snd
  refine ⟨?_, ?_, ?_, hSound.system, ?_⟩
  · exact fun hMem => hSound.root (hOld hMem)
  · exact fun hMem => hSound.name (hOld hMem)
  · exact hSound.distinct.sublist hValues
  · exact fun hSystem hMem => hSound.apart hSystem (hValues.subset hMem)

namespace Workspace

/-- The second workspace is sound and has come of the first. -/
structure Becomes (w w' : Workspace) : Prop where
  sound : w'.Sound
  path : w.Extends w'

namespace Becomes

variable {w w' w'' : Workspace}

theorem refl (h : w.Sound) : w.Becomes w :=
  ⟨h, .refl w⟩

theorem trans (h : w.Becomes w') (h' : w'.Becomes w'') : w.Becomes w'' :=
  ⟨h'.sound, h.path.trans h'.path⟩

theorem note (h : w.Becomes w') (level : Level) (text : String) : w.Becomes (w'.note level text) :=
  ⟨⟨h.sound.forest, h.sound.scope⟩, ⟨h.path.registry, h.path.system, h.path.named, h.path.outer⟩⟩

theorem evolve (h : w.Becomes w') {r : Registry} (hr : Evolves w'.system w'.registry r) :
    w.Becomes { w' with registry := r } where
  sound := ⟨h.sound.forest.later hr, h.sound.scope.later hr⟩
  path := h.path.trans ⟨hr, rfl, fun _ => rfl, rfl⟩

end Becomes

end Workspace

/-! ### Accessors -/

theorem DottedName.dot_not_mem_owner (text : String) : '.' ∉ (parse text).owner.toList := by
  simp only [parse]
  split
  · simp
  · intro hMem
    rw [String.toList_ofList] at hMem
    have hOther := mem_takeWhile_imp hMem
    simp at hOther

namespace PropertyRef

variable {w : Workspace} {p : PropertyRef} {owner : ObjectId}

/-- The owner and the property are those that the description names. Where the reference is bound,
its names have led in a workspace of which this one has come. -/
structure Tracked (p : PropertyRef) (description : String) (w : Workspace) : Prop where
  owner : p.owner = (DottedName.parse description).owner
  property : p.property = (DottedName.parse description).field
  bound : p.target.isSome = true →
    ∃ w₀ : Workspace, w₀.Sound ∧ w₀.Extends w ∧ p.Fresh w₀.scope w₀.registry

namespace Tracked

variable {p : PropertyRef} {description : String} {w w' : Workspace}

theorem later (hTracked : p.Tracked description w) (h : w.Extends w') : p.Tracked description w' where
  owner := hTracked.owner
  property := hTracked.property
  bound hSome := by
    obtain ⟨w₀, hSound, hExtends, hFresh⟩ := hTracked.bound hSome
    exact ⟨w₀, hSound, hExtends.trans h, hFresh⟩

theorem dot_not_mem (hTracked : p.Tracked description w) : '.' ∉ p.owner.toList := by
  rw [hTracked.owner]
  exact DottedName.dot_not_mem_owner description

theorem fresh_iff_attached (hTracked : p.Tracked description w) (hSound : w.Sound) :
    p.Fresh w.scope w.registry ↔ p.Attached w.scope w.registry := by
  cases hTarget : p.target with
  | none =>
    constructor
    · exact Fresh.attached
    · rintro ⟨_, _, _, _, hBound, _⟩
      rw [hTarget] at hBound
      cases hBound
  | some target =>
    obtain ⟨w₀, hSound₀, hExtends, hFresh⟩ := hTracked.bound (by rw [hTarget]; rfl)
    exact hFresh.fresh_iff_attached hSound₀ hSound hExtends hTracked.dot_not_mem

end Tracked

theorem fresh_bind (hOwner : w.find? p.owner = some owner)
    (hSome : (p.bind w.registry owner).target.isSome = true) :
    (p.bind w.registry owner).Fresh w.scope w.registry := by
  refine ⟨hSome, ?_⟩
  change (w.find? p.owner).bind _ = _
  rw [hOwner]
  rfl

/-- What was found is found again where the name of the owner leads to the object that is bound. -/
theorem Fresh.bind_eq (hFresh : p.Fresh w.scope w.registry) (hOwner : w.find? p.owner = some owner) :
    p.bind w.registry owner = p := by
  have hFound := hFresh.2
  rw [show w.scope.find? w.registry p.owner = some owner from hOwner, Option.bind_some] at hFound
  rw [PropertyRef.bind, hFound]

/-- What is looked up is tracked. -/
theorem tracked_bind (hSound : w.Sound) {description : String}
    (hOwner : p.owner = (DottedName.parse description).owner)
    (hProperty : p.property = (DottedName.parse description).field) (hFind : w.find? p.owner = some owner) :
    (p.bind w.registry owner).Tracked description w where
  owner := hOwner
  property := hProperty
  bound hSome := ⟨w, hSound, .refl w, fresh_bind hFind hSome⟩

end PropertyRef

namespace Accessor

variable {a row column : Accessor} {w : Workspace} {id : ObjectId} {p : PropertyRef} {r : Registry}
  {d name : String}
  {array : Option ObjectId}

/-- The properties that the accessor and its indices read, each with its description. -/
def propertyRefs : Accessor → List (String × PropertyRef)
  | property d p => [(d, p)]
  | element _ _ _ row column => row.propertyRefs ++ column.propertyRefs
  | _ => []

/-- The accessor is bound, and what it is bound to has come of looking names up. -/
structure Tracked (a : Accessor) (w : Workspace) : Prop where
  bound : a.isBound = true
  refs : ∀ {d p}, (d, p) ∈ a.propertyRefs → p.Tracked d w
  writable : a.Writable w.system w.registry

theorem Tracked.later {w' : Workspace} (hTracked : a.Tracked w) (h : w.Extends w') :
    a.Tracked w' where
  bound := hTracked.bound
  refs hp := (hTracked.refs hp).later h
  writable := by
    rw [h.system]
    exact hTracked.writable.later h.registry

theorem tracked_literal (h : a.kind.isLiteral = true) : a.Tracked w where
  bound := by
    cases a with
    | whole d k target => cases k <;> cases h
    | property d p => cases h
    | element d name array row column => cases h
    | number d x => rfl
    | string d s => rfl
    | boolean d b => rfl
    | onOff d b => rfl
  refs hp := by
    cases a with
    | whole d k target => cases hp
    | property d p => cases h
    | element d name array row column => cases h
    | number d x | string d s | boolean d b | onOff d b => cases hp
  writable := by
    refine ⟨fun {d k id} ha => ?_⟩
    subst ha
    cases k <;> cases h

theorem tracked_ofObject (h : Whole w.system w.registry id) (description : String) :
    (ofObject w.registry description id).Tracked w where
  bound := rfl
  refs hp := by cases hp
  writable := by
    refine ⟨fun ha => ?_⟩
    cases ha
    exact h

theorem tracked_property {description : String} (h : p.Tracked description w)
    (hSome : p.target.isSome = true) :
    (property description p).Tracked w where
  bound := hSome
  refs hp := by
    cases mem_singleton.mp hp
    exact h
  writable := ⟨fun ha => by cases ha⟩

/-- Binding an object looks up the properties of its name and leaves the others. -/
theorem mem_propertyRefs_bind (h : (d, p) ∈ (a.bind r id).1.propertyRefs) :
    (d, p) ∈ a.propertyRefs ∨
      ∃ q, (d, q) ∈ a.propertyRefs ∧ q.owner = (r.object id).name ∧ p = q.bind r id := by
  induction a with
  | property d' q =>
    rw [bind] at h
    split at h
    · next hOwner =>
        cases mem_singleton.mp h
        exact .inr ⟨q, by simp [propertyRefs], hOwner, rfl⟩
    · exact .inl h
  | whole d' k target =>
    rw [bind] at h
    split at h <;> cases h
  | element d' name array row column ihRow ihColumn =>
    rcases mem_append.mp h with hRow | hColumn
    · rcases ihRow hRow with hOld | ⟨q, hq, hBound⟩
      · exact .inl (mem_append_left _ hOld)
      · exact .inr ⟨q, mem_append_left _ hq, hBound⟩
    · rcases ihColumn hColumn with hOld | ⟨q, hq, hBound⟩
      · exact .inl (mem_append_right _ hOld)
      · exact .inr ⟨q, mem_append_right _ hq, hBound⟩
  | number d' x | string d' s | boolean d' b | onOff d' b => exact .inl h

theorem isBound_bind_element
    (hArray : name = (r.object id).name ∧ (r.object id).isArray = true ∨ array.isSome = true)
    (hRow : (row.bind r id).1.isBound = true) (hColumn : (column.bind r id).1.isBound = true) :
    ((element d name array row column).bind r id).1.isBound = true := by
  have hSome : (if name = (r.object id).name && (r.object id).isArray then some id
      else array).isSome = true := by
    split
    · rfl
    · next hElse => exact hArray.resolve_left (by simpa using hElse)
  change (_ && _ && _) = true
  rw [Bool.and_eq_true, Bool.and_eq_true]
  exact ⟨⟨hSome, hRow⟩, hColumn⟩

/-- Binding an object leaves a bound accessor bound if the names of its properties lead where they are
bound. -/
theorem isBound_bind (hBound : a.isBound = true)
    (hFresh : ∀ {d p}, (d, p) ∈ a.propertyRefs → p.owner = (w.registry.object id).name →
      p.bind w.registry id = p) :
    (a.bind w.registry id).1.isBound = true := by
  induction a with
  | property d p =>
    rw [bind]
    split
    · next hOwner =>
        rw [hFresh (mem_singleton.mpr rfl) hOwner]
        exact hBound
    · exact hBound
  | whole d k target =>
    rw [bind]
    split
    · rfl
    · exact hBound
  | element d name array row column ihRow ihColumn =>
    obtain ⟨hArray, hRow, hColumn⟩ : array.isSome = true ∧ row.isBound = true ∧ column.isBound = true := by
      simpa [isBound, and_assoc] using hBound
    refine isBound_bind_element (.inr hArray) ?_ ?_
    · exact ihRow hRow fun hp => hFresh (mem_append_left _ hp)
    · exact ihColumn hColumn fun hp => hFresh (mem_append_right _ hp)
  | number d x => rfl
  | string d s => rfl
  | boolean d b => rfl
  | onOff d b => rfl

/-- An element whose array is bound. If the name of the array also owns a property of an index, that
property is looked up again, so the name must lead to the array. -/
theorem tracked_bind_element (hSound : w.Sound) (hFind : w.find? (w.registry.object id).name = some id)
    (hRow : row.Tracked w) (hColumn : column.Tracked w)
    (hBound : ((element d name array row column).bind w.registry id).1.isBound = true) :
    ((element d name array row column).bind w.registry id).1.Tracked w where
  bound := hBound
  refs hp := by
    have hOld : ∀ d' q, (d', q) ∈ (element d name array row column).propertyRefs → q.Tracked d' w :=
      fun d' q hq => (mem_append.mp hq).elim hRow.refs hColumn.refs
    rcases mem_propertyRefs_bind hp with hp | ⟨q, hq, hOwner, rfl⟩
    · exact hOld _ _ hp
    · refine PropertyRef.tracked_bind hSound (hOld _ q hq).owner (hOld _ q hq).property ?_
      rw [hOwner]
      exact hFind
  writable := ⟨fun ha => by cases ha⟩

end Accessor

end Mission
