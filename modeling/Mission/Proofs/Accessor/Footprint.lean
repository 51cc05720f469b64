import Mission.Proofs.Accessor.Writing

/-! What a write reaches. A value is written into the object behind an accessor, or through a system
Parameter into its owner, and a whole object is written over another of its type. So the objects
that a write changes can be told beforehand, as long as Parameters and other objects differ in their
types: then no object ever becomes a Parameter, and a Parameter keeps its owner. -/
namespace Mission

open Registry Outcome List Catalog Assembly

/-! ### Parameters and their types -/

namespace Object

/-- The type of a system Parameter is the name of a Parameter type, and that of other objects is not. -/
structure Regular (kinds : ParameterKinds) (o : Object) : Prop where
  named : Table.contains kinds o.typeName = o.parameter?.isSome
  typed : o.parameter?.isSome = true → o.isParameter = true

instance (kinds : ParameterKinds) (o : Object) : Decidable (o.Regular kinds) :=
  decidable_of_iff
    (Table.contains kinds o.typeName = o.parameter?.isSome ∧
      (o.parameter?.isSome = true → o.isParameter = true))
    ⟨fun h => ⟨h.1, h.2⟩, fun h => ⟨h.named, h.typed⟩⟩

/-- The two objects are of one type, and they are the same Parameter or none. -/
structure SameKind (o o' : Object) : Prop where
  typeName : o'.typeName = o.typeName
  objectType : o'.objectType = o.objectType
  parameter : o'.parameter? = o.parameter?

variable {o o' : Object}

theorem Regular.sameKind {kinds : ParameterKinds} (h : o.Regular kinds) (hSame : o.SameKind o') :
    o'.Regular kinds where
  named := by rw [hSame.typeName, hSame.parameter, h.named]
  typed hSome := by
    rw [isParameter, hSame.objectType]
    exact h.typed (hSame.parameter ▸ hSome)

theorem Takes.sameKind (h : o.Takes o') : o.SameKind o' := by
  cases h with
  | property => exact ⟨rfl, rfl, rfl⟩
  | real y held | text t held | array held dims => exact ⟨rfl, rfl, by simp [parameter?, held]⟩

end Object

/-- The types that objects get without being asked for are no Parameter types. -/
def ParameterKinds.Apart (kinds : ParameterKinds) : Prop :=
  ∀ name ∈ "" :: "Variable" :: "Array" :: "String" :: Catalog.axisTypes, Table.contains kinds name = false

theorem ParameterKinds.apart_builtin : ParameterKinds.builtin.Apart := by
  unfold Apart
  decide +kernel

namespace Assembly

variable {o : Object} {parts : List Assembly} {a : Assembly}

mutual

/-- The object of the assembly and those of its parts. -/
def objects : Assembly → List Object
  | .mk o parts => o :: objectsAll parts

def objectsAll : List Assembly → List Object
  | [] => []
  | a :: rest => objects a ++ objectsAll rest

end

/-- All objects of the assembly are regular. -/
def Regular (kinds : ParameterKinds) (a : Assembly) : Prop :=
  ∀ o ∈ a.objects, o.Regular kinds

instance (kinds : ParameterKinds) (a : Assembly) : Decidable (a.Regular kinds) :=
  inferInstanceAs (Decidable (∀ o ∈ a.objects, o.Regular kinds))

theorem mem_objectsAll {as : List Assembly} : o ∈ objectsAll as ↔ ∃ a ∈ as, o ∈ a.objects := by
  induction as with
  | nil => simp [objectsAll]
  | cons a rest ih => simp [objectsAll, ih]

/-- What holds of all objects of an assembly holds of its object and of those of its parts. -/
theorem forall_objects_mk {P : Object → Prop} :
    (∀ o' ∈ (mk o parts).objects, P o') ↔ P o ∧ ∀ a ∈ parts, ∀ o' ∈ a.objects, P o' := by
  simp only [objects, mem_cons, mem_objectsAll]
  constructor
  · intro h
    exact ⟨h o (.inl rfl), fun a ha o' ho' => h o' (.inr ⟨a, ha, ho'⟩)⟩
  · rintro ⟨hOwn, hParts⟩ o' (rfl | ⟨a, ha, ho'⟩)
    · exact hOwn
    · exact hParts a ha o' ho'

theorem forall_parts {P : Object → Prop} (h : ∀ o ∈ a.objects, P o) :
    ∀ part ∈ a.parts, ∀ o ∈ part.objects, P o := by
  cases a
  exact (forall_objects_mk.mp h).2

theorem regular_mk {kinds : ParameterKinds} :
    (mk o parts).Regular kinds ↔ o.Regular kinds ∧ ∀ a ∈ parts, a.Regular kinds :=
  forall_objects_mk

theorem regular_ofObject {kinds : ParameterKinds} (h : o.Regular kinds) : (ofObject o).Regular kinds :=
  regular_mk.mpr ⟨h, by simp⟩

theorem regular_holder {kinds : ParameterKinds} (name : String) {typeName : String} {content : Content}
    (hType : Table.contains kinds typeName = false)
    (hNone : (holder name typeName content).object.parameter? = none) :
    (holder name typeName content).Regular kinds := by
  refine regular_ofObject ⟨?_, fun _ => rfl⟩
  change _ = (holder name typeName content).object.parameter?.isSome
  rw [hNone]
  exact hType

theorem regular_userVariable {kinds : ParameterKinds} (hApart : kinds.Apart) (name : String) (x : Float) :
    (userVariable name x).Regular kinds :=
  regular_holder name (hApart "Variable" (by simp)) rfl

theorem regular_userArray {kinds : ParameterKinds} (hApart : kinds.Apart) (name : String) (rows cols : Nat) :
    (userArray name rows cols).Regular kinds :=
  regular_holder name (hApart "Array" (by simp)) rfl

theorem regular_userString {kinds : ParameterKinds} (hApart : kinds.Apart) (name text : String) :
    (userString name text).Regular kinds :=
  regular_holder name (hApart "String" (by simp)) rfl

theorem Regular.object {kinds : ParameterKinds} (h : a.Regular kinds) : a.object.Regular kinds := by
  cases a
  exact (regular_mk.mp h).1

theorem Regular.withObject {kinds : ParameterKinds} (h : a.Regular kinds) (ho : o.Regular kinds) :
    (a.withObject o).Regular kinds :=
  regular_mk.mpr ⟨ho, forall_parts h⟩

end Assembly

/-! ### All objects -/

namespace Registry

/-- All objects are as `P` says. -/
def Every (P : Object → Prop) (r : Registry) : Prop :=
  ∀ id, r.Has id → P (r.object id)

section

variable {P : Object → Prop} {r : Registry}

theorem every_modify {f : Entry → Entry} {id : ObjectId} (h : r.Every P)
    (hf : r.Has id → P (f (r.entry id)).object) : (r.modify id f).Every P := by
  intro other hOther
  have hId : r.Has other := has_modify.mp hOther
  by_cases hSame : other = id
  · subst hSame
    rw [object, entry_modify_self hId]
    exact hf hId
  · rw [object, entry_modify_ne hSame]
    exact h other hId

theorem every_push (h : r.Every P) {e : Entry} (he : P e.object) : (r.push e).2.Every P := by
  intro id hId
  rcases has_push.mp hId with hOld | rfl
  · rw [object, entry_push_of_has hOld]
    exact h id hOld
  · rw [object, entry_push_id]
    exact he

mutual

theorem object_mem_install {id : ObjectId} (r : Registry) (a : Assembly) (hNew : ¬ r.Has id)
    (hHas : (r.install a).2.Has id) : (r.install a).2.object id ∈ a.objects := by
  cases a with
  | mk o parts =>
    rcases has_push.mp hHas with hPart | rfl
    · obtain ⟨a, ha, hMem⟩ := object_mem_installAll r parts hNew hPart
      rw [install, object, entry_push_of_has hPart]
      exact mem_cons_of_mem o (mem_objectsAll.mpr ⟨a, ha, hMem⟩)
    · rw [install, object, entry_push_id]
      exact mem_cons_self

/-- New objects are those of the assemblies. -/
theorem object_mem_installAll {id : ObjectId} (r : Registry) (as : List Assembly) (hNew : ¬ r.Has id)
    (hHas : (r.installAll as).2.Has id) : ∃ a ∈ as, (r.installAll as).2.object id ∈ a.objects := by
  cases as with
  | nil => exact absurd hHas hNew
  | cons a rest =>
    by_cases hFirst : (r.install a).2.Has id
    · refine ⟨a, mem_cons_self, ?_⟩
      rw [installAll, (installAll_grows _ rest).1.object hFirst]
      exact object_mem_install r a hNew hFirst
    · obtain ⟨b, hb, hMem⟩ := object_mem_installAll (r.install a).2 rest hFirst hHas
      exact ⟨b, mem_cons_of_mem a hb, hMem⟩

end

theorem every_install (h : r.Every P) (a : Assembly) (ha : ∀ o ∈ a.objects, P o) :
    (r.install a).2.Every P := by
  intro id hId
  by_cases hOld : r.Has id
  · rw [(install_grows r a).1.object hOld]
    exact h id hOld
  · exact ha _ (object_mem_install r a hOld hId)

theorem every_installAll (h : r.Every P) (as : List Assembly) (hAs : ∀ a ∈ as, ∀ o ∈ a.objects, P o) :
    (r.installAll as).2.Every P := by
  intro id hId
  by_cases hOld : r.Has id
  · rw [(installAll_grows r as).1.object hOld]
    exact h id hOld
  · obtain ⟨a, ha, hMem⟩ := object_mem_installAll r as hOld hId
    exact hAs a ha _ hMem

/-- What holds of all objects, and of the one that stands for those that are missing, holds of what
is copied. -/
theorem every_assembly (h : r.Every P) (hDefault : P default) (id : ObjectId) :
    ∀ o ∈ (r.assembly id).objects, P o := by
  have hObject : ∀ id, P (r.object id) := by
    intro id
    by_cases hId : r.Has id
    · exact h id hId
    · rw [object, entry_of_not_has hId]
      exact hDefault
  have hDepth : ∀ depth id, ∀ o ∈ (r.assemblyTo depth id).objects, P o := by
    intro depth
    induction depth with
    | zero => exact fun id => forall_objects_mk.mpr ⟨hObject id, by simp⟩
    | succ depth ih =>
      intro id
      refine forall_objects_mk.mpr ⟨hObject id, fun a ha => ?_⟩
      obtain ⟨part, -, rfl⟩ := mem_map.mp ha
      exact ih part
  exact hDepth _ id

theorem every_copy (h : r.Every P) (hDefault : P default) {e : Entry} (he : P e.object) :
    ∀ o ∈ (r.copy e).objects, P o := by
  refine forall_objects_mk.mpr ⟨he, fun a ha => ?_⟩
  obtain ⟨id, -, rfl⟩ := mem_map.mp ha
  exact every_assembly h hDefault id

/-- What holds of all objects still does when others of this kind are held, and it holds of these. -/
theorem every_holdAll (h : r.Every P) {as : List Assembly} (hAs : ∀ a ∈ as, ∀ o ∈ a.objects, P o) :
    (r.holdAll as).2.Every P ∧ ∀ e ∈ (r.holdAll as).1, P e.object := by
  induction as generalizing r with
  | nil => exact ⟨h, by simp [holdAll]⟩
  | cons a rest ih =>
    obtain ⟨o, parts⟩ := a
    obtain ⟨hOwn, hParts⟩ := forall_objects_mk.mp (hAs _ mem_cons_self)
    obtain ⟨hRest, hHeld⟩ := ih (every_installAll h parts hParts) fun a ha => hAs a (mem_cons_of_mem _ ha)
    refine ⟨hRest, fun e he => ?_⟩
    rcases mem_cons.mp he with rfl | he
    · exact hOwn
    · exact hHeld e he

end

/-! ### Writing -/

/-- All objects are regular. -/
def Regular (kinds : ParameterKinds) (r : Registry) : Prop :=
  ∀ id, r.Has id → (r.object id).Regular kinds

instance (kinds : ParameterKinds) (r : Registry) : Decidable (r.Regular kinds) :=
  decidable_of_iff (∀ i < r.entries.size, (r.object ⟨i⟩).Regular kinds)
    ⟨fun h id => h id.index, fun h i => h ⟨i⟩⟩

/-- The second registry comes of the first by writing objects that satisfy `changed` and adding new
ones. -/
structure Writes (kinds : ParameterKinds) (changed : ObjectId → Prop) (r r' : Registry) : Prop where
  has : ∀ {id}, r.Has id → r'.Has id
  entry : ∀ {id}, r.Has id → ¬ changed id → r'.entry id = r.entry id
  parts : ∀ {id c}, c ∈ r'.owned id → c ∈ r.owned id ∨ ¬ r.Has c
  parameter : ∀ {id}, r.Has id → (r'.object id).parameter? = (r.object id).parameter?
  regular : r'.Regular kinds

variable {kinds : ParameterKinds} {changed : ObjectId → Prop} {r r' r'' : Registry}

theorem Writes.refl (h : r.Regular kinds) : Writes kinds changed r r where
  has := id
  entry _ _ := rfl
  parts := .inl
  parameter _ := rfl
  regular := h

/-- New objects may be written in any case. -/
theorem Writes.extend {changed' : ObjectId → Prop} (h : Writes kinds changed r r')
    (h' : Writes kinds changed' r' r'') (hOld : ∀ {id}, r.Has id → changed' id → changed id) :
    Writes kinds changed r r'' where
  has hId := h'.has (h.has hId)
  entry hId hNot := (h'.entry (h.has hId) fun hChanged => hNot (hOld hId hChanged)).trans (h.entry hId hNot)
  parts hc := (h'.parts hc).elim h.parts fun hNew => .inr fun hOld => hNew (h.has hOld)
  parameter hId := (h'.parameter (h.has hId)).trans (h.parameter hId)
  regular := h'.regular

theorem Writes.trans (h : Writes kinds changed r r') (h' : Writes kinds changed r' r'') :
    Writes kinds changed r r'' :=
  h.extend h' fun _ => id

theorem Writes.of_grows (h : Grows r r') (hRegular : r'.Regular kinds) : Writes kinds changed r r' where
  has := h.has
  entry hId _ := h.entry hId
  parts {id c} hc := by
    by_cases hId : r.Has id
    · rw [h.owned hId] at hc
      exact .inl hc
    · exact .inr (h.parts hId hc).1
  parameter hId := by rw [h.object hId]
  regular := hRegular

theorem regular_modify {f : Entry → Entry} {id : ObjectId} (h : r.Regular kinds)
    (hf : r.Has id → (f (r.entry id)).object.Regular kinds) : (r.modify id f).Regular kinds :=
  every_modify (P := Object.Regular kinds) h hf

/-- An object is written after others have been added. -/
theorem Writes.modify (h : Writes kinds changed r r') {id : ObjectId} {f : Entry → Entry}
    (hChanged : changed id) (hParts : ∀ c ∈ (f (r'.entry id)).owned, c ∈ r.owned id ∨ ¬ r.Has c)
    (hParameter : r.Has id → (f (r'.entry id)).object.parameter? = (r.object id).parameter?)
    (hRegular : r'.Has id → (f (r'.entry id)).object.Regular kinds) :
    Writes kinds changed r (r'.modify id f) where
  has := h.has
  entry {other} hOther hNot := by
    have hne : other ≠ id := by
      rintro rfl
      exact hNot hChanged
    rw [entry_modify_ne hne, h.entry hOther hNot]
  parts {other c} hc := by
    by_cases hOwn : other = id
    · subst hOwn
      rw [owned, entry_modify_self (has_modify.mp (has_of_mem_owned hc))] at hc
      exact hParts c hc
    · rw [owned, entry_modify_ne hOwn] at hc
      exact h.parts hc
  parameter {other} hOther := by
    by_cases hOwn : other = id
    · subst hOwn
      rw [object, entry_modify_self (h.has hOther)]
      exact hParameter hOther
    · rw [object, entry_modify_ne hOwn]
      exact h.parameter hOther
  regular := regular_modify h.regular hRegular

/-- An object is written in its place. -/
theorem writes_setObject {id : ObjectId} {o : Object} (h : r.Regular kinds) (hChanged : changed id)
    (hSame : (r.object id).SameKind o) : Writes kinds changed r (r.setObject id o) :=
  (Writes.refl h).modify hChanged (fun _ hc => .inl hc) (fun _ => hSame.parameter) fun hId =>
    (h id hId).sameKind hSame

theorem regular_push (h : r.Regular kinds) {e : Entry} (he : e.object.Regular kinds) :
    (r.push e).2.Regular kinds :=
  every_push (P := Object.Regular kinds) h he

theorem regular_install (h : r.Regular kinds) (a : Assembly) (ha : a.Regular kinds) :
    (r.install a).2.Regular kinds :=
  every_install (P := Object.Regular kinds) h a ha

theorem regular_installAll (h : r.Regular kinds) (as : List Assembly) (hAs : ∀ a ∈ as, a.Regular kinds) :
    (r.installAll as).2.Regular kinds :=
  every_installAll (P := Object.Regular kinds) h as hAs

theorem writes_install (h : r.Regular kinds) {a : Assembly} (ha : a.Regular kinds) :
    Writes kinds changed r (r.install a).2 :=
  .of_grows (install_grows r a).1 (regular_install h a ha)

/-- What is copied out of a regular registry is regular. -/
theorem regular_assembly (hApart : kinds.Apart) (h : r.Regular kinds) (id : ObjectId) :
    (r.assembly id).Regular kinds :=
  every_assembly (P := Object.Regular kinds) h ⟨hApart "" mem_cons_self, nofun⟩ id

theorem regular_copy (hApart : kinds.Apart) (h : r.Regular kinds) {e : Entry} (he : e.object.Regular kinds) :
    (r.copy e).Regular kinds :=
  every_copy (P := Object.Regular kinds) h ⟨hApart "" mem_cons_self, nofun⟩ he

theorem object_assembly (r : Registry) (id : ObjectId) : (r.assembly id).object = r.object id := by
  rw [assembly]
  cases r.entries.size <;> rfl

/-- An object that is no Parameter is overwritten with one of its type. -/
theorem writes_overwrite (hApart : kinds.Apart) (h : r.Regular kinds) {target source : ObjectId}
    (hTarget : r.Has target) (hChanged : changed target) (hNone : (r.object target).parameter? = none)
    (hType : (r.object source).typeName = (r.object target).typeName) :
    Writes kinds changed r (r.overwrite target (r.assembly source)) := by
  have hAssembly := regular_assembly hApart h source
  have hParts : ∀ a ∈ (r.assembly source).parts, a.Regular kinds := forall_parts hAssembly
  -- The source is no Parameter either, since it has the type of the target.
  have hSource : (r.object source).parameter? = none := by
    have hRegular := hAssembly.object
    rw [object_assembly] at hRegular
    have hSame := hRegular.named
    rw [hType, (h target hTarget).named, hNone] at hSame
    exact Option.not_isSome_iff_eq_none.mp (by rw [← hSame]; nofun)
  obtain ⟨hGrows, hLoose⟩ := installAll_grows r (r.assembly source).parts
  refine (Writes.of_grows hGrows (regular_installAll h _ hParts)).modify hChanged
    (fun c hc => .inr (hLoose c hc).new)
    (fun _ => ?_) fun _ => hAssembly.object.sameKind ⟨rfl, rfl, rfl⟩
  change (r.assembly source).object.parameter? = _
  rw [object_assembly, hSource, hNone]

/-- An object is given a new part. -/
theorem writes_replaceOwned (h : r.Regular kinds) {id : ObjectId} (hChanged : changed id) (t : ObjectType)
    {part : Assembly} (hPart : part.Regular kinds) :
    Writes kinds changed r (r.replaceOwned id t part) := by
  have hInstalled : Writes kinds changed r (r.install part).2 := writes_install h hPart
  refine hInstalled.modify hChanged (fun c hc => ?_) hInstalled.parameter (hInstalled.regular id)
  rcases mem_append.mp hc with hKept | hNew
  · exact .inl (mem_filter.mp hKept).1
  · rw [mem_singleton.mp hNew]
    exact .inr (install_grows r part).2.new

end Registry

namespace Accessor

/-- The object as a whole behind the accessor exists, and it is no system Parameter if it is copied as a
whole. -/
structure Standing (a : Accessor) (r : Registry) : Prop where
  has : ∀ {d k id}, a = .whole d k (some id) → r.Has id
  copied : ∀ {d id}, a = .whole d .object (some id) → (r.object id).parameter? = none

variable {kinds : ParameterKinds} {changed : ObjectId → Prop} {r r' : Registry} {a : Accessor}

theorem Standing.later (h : a.Standing r) (hWrites : Writes kinds changed r r') : a.Standing r' where
  has ha := hWrites.has (h.has ha)
  copied ha := (hWrites.parameter (h.has ha)).trans (h.copied ha)

theorem Standing.written_later (h : a.Standing r) (hWrites : Writes kinds changed r r') :
    a.written r' = a.written r := by
  cases a with
  | whole d k target =>
    cases target with
    | none => rfl
    | some id => simp [written, hWrites.parameter (h.has rfl)]
  | _ => rfl

theorem writes_assign (h : r.Regular kinds) {id : ObjectId} {v : Value} (hAssign : r.assign id v = .ok r')
    (hChanged : ∀ d k, ∀ o ∈ (whole d k (some id)).written r, changed o) : Writes kinds changed r r' := by
  obtain ⟨other, o, hTakes, rfl, hWritten⟩ := takes_of_assign hAssign
  exact Registry.writes_setObject h (hChanged "" .object other (hWritten _ _)) hTakes.sameKind

/-- Writing a value. -/
theorem writes_setValue (h : r.Regular kinds) {v : Value} (hSet : a.setValue r v = .ok r')
    (hChanged : ∀ id ∈ a.written r, changed id) : Writes kinds changed r r' := by
  obtain ⟨id, o, hTakes, rfl, hWritten⟩ := takes_of_setValue hSet
  exact Registry.writes_setObject h (hChanged id hWritten) hTakes.sameKind

/-- Copying an object into another. -/
theorem writes_setObject (hApart : kinds.Apart) (h : r.Regular kinds) {source : ObjectId}
    (hSet : a.setObject r source = .ok r') (hStanding : a.Standing r)
    (hChanged : ∀ id ∈ a.written r, changed id) : Writes kinds changed r r' := by
  obtain ⟨d, id, rfl, rfl | ⟨hType, rfl⟩⟩ := setObject_eq_ok hSet
  · exact .refl h
  · have hNone := hStanding.copied rfl
    refine writes_overwrite hApart h (hStanding.has rfl) (hChanged id ?_) hNone hType
    rw [written_whole hNone]
    exact mem_singleton.mpr rfl

end Accessor

section

variable {kinds : ParameterKinds} {changed : ObjectId → Prop} {r r' : Registry} {target source : Accessor}

/-- What holds the value of a right-hand side is new. -/
theorem Assignment.writes_output (hApart : kinds.Apart) (h : r.Regular kinds) {a : Assignment}
    (hOutput : a.output r = .ok (source, r')) : Writes kinds changed r r' := by
  rcases output_eq_ok hOutput with rfl | ⟨id, rfl⟩ | ⟨name, rows, cols, v, hAssign⟩
  · exact .refl h
  · exact writes_install h (regular_assembly hApart h id)
  · have hInstall : Writes kinds changed r (r.install (userArray name rows cols)).2 :=
      writes_install h (regular_userArray hApart _ _ _)
    have hArray := (install_grows r (userArray name rows cols)).2.new
    have hObject := object_install r (userArray name rows cols)
    have hAssigned : Writes kinds (fun id => ¬ r.Has id)
        (r.install (userArray name rows cols)).2 r' := by
      refine Accessor.writes_assign hInstall.regular hAssign fun d k => ?_
      rw [Accessor.written_whole (congrArg Object.parameter? hObject)]
      intro o ho
      rw [mem_singleton.mp ho]
      exact hArray
    exact hInstall.extend hAssigned fun hId hNot => absurd hId hNot

end

end Mission
