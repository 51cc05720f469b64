import Mission.Registry

/-! What becomes of the objects of a registry. Objects are only added, and an object that is there
keeps its name. Either it also keeps the names of its properties and only loses parts and gains fresh
ones, or it is overwritten and all its parts are fresh. A part of anything but the solar system is
overwritten only after it has been dropped. `Evolves` says this of two registries at any distance, so
every operation on the registry needs one lemma, and they compose by transitivity. -/
namespace Mission

open List

namespace Object

/-- The two objects look alike to a search by name. -/
structure SameShape (o o' : Object) : Prop where
  name : o'.name = o.name
  keys : o'.properties.keys = o.properties.keys

theorem SameShape.refl (o : Object) : SameShape o o :=
  ⟨rfl, rfl⟩

theorem SameShape.trans {o o' o'' : Object} (h : SameShape o o') (h' : SameShape o' o'') :
    SameShape o o'' :=
  ⟨h'.name.trans h.name, h'.keys.trans h.keys⟩

end Object

namespace Registry

variable {r r' r'' : Registry} {id other target : ObjectId} {f : Entry → Entry} {e : Entry}
  {system : Option ObjectId}

/-- There is an object of this identity. -/
def Has (r : Registry) (id : ObjectId) : Prop :=
  id.index < r.entries.size

theorem entry_of_not_has (h : ¬ r.Has id) : r.entry id = default := by
  have hNone : r.entries.get? id.index = none := by
    cases hGet : r.entries.get? id.index with
    | none => rfl
    | some e =>
      refine absurd ((r.entries.isSome_get? id.index).mp ?_) h
      rw [hGet]
      rfl
  rw [entry, hNone]
  rfl

theorem owned_of_not_has (h : ¬ r.Has id) : r.owned id = [] := by
  rw [owned, entry_of_not_has h]
  rfl

theorem has_of_mem_owned (h : other ∈ r.owned id) : r.Has id := by
  refine Classical.byContradiction fun hHas => ?_
  rw [owned_of_not_has hHas] at h
  cases h

theorem has_of_coordinateSystem (h : (r.object id).objectType = .coordinateSystem) : r.Has id := by
  refine Classical.byContradiction fun hHas => ?_
  rw [object, entry_of_not_has hHas] at h
  cases h

theorem has_modify : (r.modify other f).Has id ↔ r.Has id :=
  Iff.rfl

theorem entry_modify_ne (h : id ≠ other) (f : Entry → Entry) : (r.modify other f).entry id = r.entry id := by
  rw [entry, modify, Sequence.get?_modify, if_neg (mt (congrArg ObjectId.mk) h)]
  rfl

theorem entry_modify_self (h : r.Has id) (f : Entry → Entry) : (r.modify id f).entry id = f (r.entry id) := by
  obtain ⟨e, hEntry⟩ := Option.isSome_iff_exists.mp ((r.entries.isSome_get? id.index).mpr h)
  rw [entry, modify, Sequence.get?_modify, if_pos rfl, entry, hEntry]
  rfl

theorem modify_of_not_has (h : ¬ r.Has id) (f : Entry → Entry) (other : ObjectId) :
    (r.modify id f).entry other = r.entry other := by
  by_cases hSame : other = id
  · subst hSame
    rw [entry_of_not_has h, entry_of_not_has (mt has_modify.mp h)]
  · exact entry_modify_ne hSame f

theorem owned_modify (hf : ∀ e, (f e).owned = e.owned) (id other : ObjectId) :
    (r.modify id f).owned other = r.owned other := by
  by_cases hId : r.Has id
  · by_cases hSame : other = id
    · subst hSame
      rw [owned, entry_modify_self hId, hf, owned]
    · rw [owned, entry_modify_ne hSame, owned]
  · rw [owned, modify_of_not_has hId, owned]

theorem has_push : (r.push e).2.Has id ↔ r.Has id ∨ id = (r.push e).1 := by
  have hId : id = (r.push e).1 ↔ id.index = r.entries.size := ⟨congrArg ObjectId.index, congrArg ObjectId.mk⟩
  rw [hId]
  exact Nat.lt_succ_iff_lt_or_eq

theorem not_has_push_id (r : Registry) (e : Entry) : ¬ r.Has (r.push e).1 :=
  Nat.lt_irrefl _

theorem entry_push_ne (h : id ≠ (r.push e).1) : (r.push e).2.entry id = r.entry id := by
  rw [entry, push, Sequence.get?_push, if_neg (mt (congrArg ObjectId.mk) h)]
  rfl

theorem entry_push_of_has (h : r.Has id) (e : Entry) : (r.push e).2.entry id = r.entry id :=
  entry_push_ne fun hSame => not_has_push_id r e (hSame ▸ h)

theorem entry_push_id (r : Registry) (e : Entry) : (r.push e).2.entry (r.push e).1 = e := by
  rw [entry, push, Sequence.get?_push, if_pos rfl]
  rfl

/-! ### Installing -/

/-- The second registry is the first one with new objects, which own new objects only, each of them
once. -/
structure Grows (r r' : Registry) : Prop where
  has : ∀ {id}, r.Has id → r'.Has id
  entry : ∀ {id}, r.Has id → r'.entry id = r.entry id
  parts : ∀ {id c}, ¬ r.Has id → c ∈ r'.owned id → ¬ r.Has c ∧ r'.Has c
  once : ∀ {id id' c}, ¬ r.Has id → ¬ r.Has id' → c ∈ r'.owned id → c ∈ r'.owned id' → id = id'

/-- A new object that nothing new owns. -/
structure Loose (r r' : Registry) (id : ObjectId) : Prop where
  new : ¬ r.Has id
  has : r'.Has id
  free : ∀ {w}, ¬ r.Has w → id ∉ r'.owned w

theorem Grows.refl (r : Registry) : Grows r r where
  has := id
  entry _ := rfl
  parts h hc := absurd (has_of_mem_owned hc) h
  once h _ hc := absurd (has_of_mem_owned hc) h

theorem Grows.owned (h : Grows r r') (hId : r.Has id) : r'.owned id = r.owned id := by
  rw [Registry.owned, Registry.owned, h.entry hId]

theorem Grows.object (h : Grows r r') (hId : r.Has id) : r'.object id = r.object id := by
  rw [Registry.object, Registry.object, h.entry hId]

theorem Grows.trans (h : Grows r r') (h' : Grows r' r'') : Grows r r'' where
  has hId := h'.has (h.has hId)
  entry hId := (h'.entry (h.has hId)).trans (h.entry hId)
  parts {id c} hId hc := by
    by_cases hMid : r'.Has id
    · rw [h'.owned hMid] at hc
      exact ⟨(h.parts hId hc).1, h'.has (h.parts hId hc).2⟩
    · exact ⟨fun hOld => (h'.parts hMid hc).1 (h.has hOld), (h'.parts hMid hc).2⟩
  once {id id' c} hId hId' hc hc' := by
    by_cases hMid : r'.Has id
    · rw [h'.owned hMid] at hc
      by_cases hMid' : r'.Has id'
      · rw [h'.owned hMid'] at hc'
        exact h.once hId hId' hc hc'
      · exact absurd (h.parts hId hc).2 (h'.parts hMid' hc').1
    · by_cases hMid' : r'.Has id'
      · rw [h'.owned hMid'] at hc'
        exact absurd (h.parts hId' hc').2 (h'.parts hMid hc).1
      · exact h'.once hMid hMid' hc hc'

/-- A new object stays without an owner while the registry only grows. -/
theorem Loose.later (hLoose : Loose r r' id) (h : Grows r' r'') : Loose r r'' id where
  new := hLoose.new
  has := h.has hLoose.has
  free {w} hw hc := by
    by_cases hMid : r'.Has w
    · rw [h.owned hMid] at hc
      exact hLoose.free hw hc
    · exact (h.parts hMid hc).1 hLoose.has

theorem Loose.earlier (hLoose : Loose r' r'' id) (h : Grows r r') (h' : Grows r' r'') : Loose r r'' id where
  new hOld := hLoose.new (h.has hOld)
  has := hLoose.has
  free {w} hw hc := by
    by_cases hMid : r'.Has w
    · rw [h'.owned hMid] at hc
      exact hLoose.new (h.parts hw hc).2
    · exact hLoose.free hMid hc

/-- An object that is added over loose parts takes them. -/
theorem grows_push (h : Grows r r') (hParts : ∀ c ∈ e.owned, Loose r r' c) :
    Grows r (r'.push e).2 ∧ Loose r (r'.push e).2 (r'.push e).1 := by
  have hTop : (r'.push e).2.owned (r'.push e).1 = e.owned := by
    rw [Registry.owned, entry_push_id]
  -- Every other object is as it was before.
  have hRest : ∀ {id}, id ≠ (r'.push e).1 → (r'.push e).2.owned id = r'.owned id := fun hne =>
    congrArg Entry.owned (entry_push_ne hne)
  refine ⟨⟨?_, ?_, ?_, ?_⟩, ?_, ?_, ?_⟩
  · exact fun hId => has_push.mpr (.inl (h.has hId))
  · exact fun hId => (entry_push_of_has (h.has hId) e).trans (h.entry hId)
  · intro id c hId hc
    by_cases hSame : id = (r'.push e).1
    · rw [hSame, hTop] at hc
      exact ⟨(hParts c hc).new, has_push.mpr (.inl (hParts c hc).has)⟩
    · rw [hRest hSame] at hc
      exact ⟨(h.parts hId hc).1, has_push.mpr (.inl (h.parts hId hc).2)⟩
  · intro id id' c hId hId' hc hc'
    by_cases hSame : id = (r'.push e).1
    · by_cases hSame' : id' = (r'.push e).1
      · rw [hSame, hSame']
      · rw [hSame, hTop] at hc
        rw [hRest hSame'] at hc'
        exact absurd hc' ((hParts c hc).free hId')
    · rw [hRest hSame] at hc
      by_cases hSame' : id' = (r'.push e).1
      · rw [hSame', hTop] at hc'
        exact absurd hc ((hParts c hc').free hId)
      · rw [hRest hSame'] at hc'
        exact h.once hId hId' hc hc'
  · exact fun hOld => not_has_push_id r' e (h.has hOld)
  · exact has_push.mpr (.inr rfl)
  · intro w hw hc
    by_cases hSame : w = (r'.push e).1
    · rw [hSame, hTop] at hc
      exact not_has_push_id r' e (hParts _ hc).has
    · rw [hRest hSame] at hc
      exact not_has_push_id r' e (h.parts hw hc).2

mutual

/-- An assembly is installed with parts that nothing else owns. -/
theorem install_grows (r : Registry) (a : Assembly) :
    Grows r (r.install a).2 ∧ Loose r (r.install a).2 (r.install a).1 := by
  cases a with
  | mk o parts =>
    obtain ⟨hGrows, hLoose⟩ := installAll_grows r parts
    exact grows_push hGrows hLoose

theorem installAll_grows (r : Registry) (as : List Assembly) :
    Grows r (r.installAll as).2 ∧ ∀ id ∈ (r.installAll as).1, Loose r (r.installAll as).2 id := by
  cases as with
  | nil => exact ⟨.refl r, by simp [installAll]⟩
  | cons a rest =>
    obtain ⟨hGrows, hLoose⟩ := install_grows r a
    obtain ⟨hGrows', hLoose'⟩ := installAll_grows (r.install a).2 rest
    refine ⟨hGrows.trans hGrows', ?_⟩
    intro id hId
    rcases mem_cons.mp hId with rfl | hId
    · exact hLoose.later hGrows'
    · exact (hLoose' id hId).earlier hGrows hGrows'

end

theorem holdAll_grows (r : Registry) (as : List Assembly) : Grows r (r.holdAll as).2 := by
  induction as generalizing r with
  | nil => exact .refl r
  | cons a rest ih => exact (installAll_grows r a.parts).1.trans (ih _)

theorem object_install (r : Registry) (a : Assembly) : (r.install a).2.object (r.install a).1 = a.object := by
  cases a with
  | mk o parts =>
    rw [install, object, entry_push_id]
    rfl

/-! ### Evolution -/

/-- The object keeps its shape, and its parts are some of those it had, then new ones. -/
structure Kept (r r' : Registry) (id : ObjectId) : Prop where
  shape : (r.object id).SameShape (r'.object id)
  parts : ∃ keep new, r'.owned id = (r.owned id).filter keep ++ new ∧ ∀ c ∈ new, ¬ r.Has c

/-- The object keeps its name and has new parts only, and it is part of the solar system or of
nothing. -/
structure Overwritten (system : Option ObjectId) (r r' : Registry) (id : ObjectId) : Prop where
  name : (r'.object id).name = (r.object id).name
  parts : ∀ c ∈ r'.owned id, ¬ r.Has c
  free : ∀ w, id ∈ r'.owned w → system = some w

/-- What can become of a registry with this solar system. -/
structure Evolves (system : Option ObjectId) (r r' : Registry) : Prop where
  has : ∀ {id}, r.Has id → r'.Has id
  fate : ∀ {id}, r.Has id → Kept r r' id ∨ Overwritten system r r' id
  /-- Only new objects become parts of anything. -/
  parts : ∀ {id c}, c ∈ r'.owned id → c ∈ r.owned id ∨ ¬ r.Has c ∧ r'.Has c
  once : ∀ {id id' c}, c ∈ r'.owned id → c ∈ r'.owned id' → c ∉ r.owned id → c ∉ r.owned id' → id = id'

theorem Kept.of_owned (hShape : (r.object id).SameShape (r'.object id)) (hOwned : r'.owned id = r.owned id) :
    Kept r r' id where
  shape := hShape
  parts := by
    refine ⟨fun _ => true, [], ?_, by simp⟩
    rw [hOwned, append_nil, filter_eq_self.mpr fun _ _ => rfl]

namespace Evolves

variable {system : Option ObjectId} {r r' r'' : Registry}

theorem refl (system : Option ObjectId) (r : Registry) : Evolves system r r where
  has := id
  fate _ := .inl (.of_owned (.refl _) rfl)
  parts := .inl
  once hc _ hNot := absurd hc hNot

theorem old_part (h : Evolves system r r') {id c : ObjectId} (hc : r.Has c) (hMem : c ∈ r'.owned id) :
    c ∈ r.owned id :=
  (h.parts hMem).resolve_right fun hNew => hNew.1 hc

theorem name (h : Evolves system r r') {id : ObjectId} (hId : r.Has id) :
    (r'.object id).name = (r.object id).name := by
  rcases h.fate hId with hKept | hOver
  · exact hKept.shape.name
  · exact hOver.name

/-- Evolution can go on, since what is kept is kept again. -/
theorem trans (h : Evolves system r r') (h' : Evolves system r' r'') : Evolves system r r'' where
  has hId := h'.has (h.has hId)
  fate {id} hId := by
    rcases h'.fate (h.has hId) with hKept' | hOver'
    · obtain ⟨keep', new', hParts', hNew'⟩ := hKept'.parts
      rcases h.fate hId with hKept | hOver
      · obtain ⟨keep, new, hParts, hNew⟩ := hKept.parts
        refine .inl ⟨hKept.shape.trans hKept'.shape,
          fun c => keep' c && keep c, new.filter keep' ++ new', ?_, ?_⟩
        · rw [hParts', hParts, filter_append, filter_filter, append_assoc]
        · intro c hc
          rcases mem_append.mp hc with hc | hc
          · exact hNew c (mem_filter.mp hc).1
          · exact fun hOld => hNew' c hc (h.has hOld)
      · refine .inr ⟨hKept'.shape.name.trans hOver.name, ?_, ?_⟩
        · intro c hc
          rw [hParts'] at hc
          rcases mem_append.mp hc with hc | hc
          · exact hOver.parts c (mem_filter.mp hc).1
          · exact fun hOld => hNew' c hc (h.has hOld)
        · exact fun w hw => hOver.free w (h'.old_part (h.has hId) hw)
    · refine .inr ⟨hOver'.name.trans (h.name hId), ?_, hOver'.free⟩
      exact fun c hc hOld => hOver'.parts c hc (h.has hOld)
  parts {id c} hc := by
    rcases h'.parts hc with hMid | ⟨hNew, hHas⟩
    · rcases h.parts hMid with hOld | ⟨hNew, hHas⟩
      · exact .inl hOld
      · exact .inr ⟨hNew, h'.has hHas⟩
    · exact .inr ⟨fun hOld => hNew (h.has hOld), hHas⟩
  once {id id' c} hc hc' hNot hNot' := by
    rcases h'.parts hc with hMid | ⟨hNew, -⟩
    · have hHas : r'.Has c := ((h.parts hMid).resolve_left hNot).2
      exact h.once hMid (h'.old_part hHas hc') hNot hNot'
    · have hMid : ∀ {id}, c ∉ r.owned id → c ∉ r'.owned id := fun hNot hMid =>
        hNew ((h.parts hMid).resolve_left hNot).2
      exact h'.once hc hc' (hMid hNot) (hMid hNot')

/-- A part that is still there, other than a body of the solar system, has kept its shape. -/
theorem shape_of_part (h : Evolves system r r') {w c : ObjectId} (hc : r.Has c)
    (hMem : c ∈ r'.owned w) (hSystem : system ≠ some w) : (r.object c).SameShape (r'.object c) := by
  rcases h.fate hc with hKept | hOver
  · exact hKept.shape
  · exact absurd (hOver.free w hMem) hSystem

/-- An owner that still has an old part has not been overwritten. -/
theorem kept_of_part (h : Evolves system r r') {w c : ObjectId} (hw : r.Has w) (hc : r.Has c)
    (hMem : c ∈ r'.owned w) : Kept r r' w := by
  rcases h.fate hw with hKept | hOver
  · exact hKept
  · exact absurd hc (hOver.parts c hMem)

end Evolves

/-! ### The operations -/

theorem Grows.evolves (h : Grows r r') (system : Option ObjectId) :
    Evolves system r r' where
  has := h.has
  fate {id} hId := by
    refine .inl (.of_owned ?_ (h.owned hId))
    rw [h.object hId]
    exact .refl _
  parts {id c} hc := by
    by_cases hId : r.Has id
    · rw [h.owned hId] at hc
      exact .inl hc
    · exact .inr (h.parts hId hc)
  once {id id' c} hc hc' hNot hNot' := by
    have hNew : ∀ {id}, c ∈ r'.owned id → c ∉ r.owned id → ¬ r.Has id := by
      intro id hc hNot hId
      rw [h.owned hId] at hc
      exact hNot hc
    exact h.once (hNew hc hNot) (hNew hc' hNot') hc hc'

theorem evolves_install (system : Option ObjectId) (r : Registry) (a : Assembly) :
    Evolves system r (r.install a).2 :=
  (install_grows r a).1.evolves system

/-- An object is as it was, or it is the one that was written. -/
theorem object_setObject_cases (r : Registry) (id other : ObjectId) (o : Object) :
    (r.setObject id o).object other = r.object other ∨ other = id ∧ (r.setObject id o).object other = o := by
  by_cases hId : r.Has id
  · by_cases hSame : other = id
    · subst hSame
      rw [object, setObject, entry_modify_self hId]
      exact .inr ⟨rfl, rfl⟩
    · rw [object, setObject, entry_modify_ne hSame]
      exact .inl rfl
  · rw [object, setObject, modify_of_not_has hId]
    exact .inl rfl

/-- An object that keeps its shape can be written in place. -/
theorem evolves_setObject (system : Option ObjectId) {o : Object} (h : (r.object id).SameShape o) :
    Evolves system r (r.setObject id o) := by
  have hOwned : ∀ other, (r.setObject id o).owned other = r.owned other := fun other =>
    owned_modify (fun _ => by rfl) id other
  have hShape : ∀ other, (r.object other).SameShape ((r.setObject id o).object other) := by
    intro other
    rcases object_setObject_cases r id other o with hSame | ⟨rfl, hSame⟩
    · rw [hSame]
      exact .refl _
    · rw [hSame]
      exact h
  refine ⟨has_modify.mpr, fun _ => .inl (.of_owned (hShape _) (hOwned _)), ?_, ?_⟩
  · intro id c hc
    rw [hOwned] at hc
    exact .inl hc
  · intro id id' c hc _ hNot
    rw [hOwned] at hc
    exact absurd hc hNot

/-- An object is given parts that have just been installed. -/
theorem Grows.evolves_modify (h : Grows r r') (hTarget : r.Has target)
    (hParts : ∀ c ∈ (f (r.entry target)).owned, c ∈ r.owned target ∨ Loose r r' c)
    (hFate : Kept r (r'.modify target f) target ∨ Overwritten system r (r'.modify target f) target) :
    Evolves system r (r'.modify target f) := by
  have hSelf : (r'.modify target f).owned target = (f (r.entry target)).owned := by
    rw [Registry.owned, entry_modify_self (h.has hTarget), h.entry hTarget]
  have hOther : ∀ {id}, id ≠ target → (r'.modify target f).entry id = r'.entry id := fun hne =>
    entry_modify_ne hne f
  -- A part that an object did not have before is loose if the object is the target, and otherwise the
  -- object is new.
  have hNew : ∀ {id c}, c ∈ (r'.modify target f).owned id → c ∉ r.owned id →
      id = target ∧ Loose r r' c ∨ ¬ r.Has id ∧ c ∈ r'.owned id := by
    intro id c hc hNot
    by_cases hSame : id = target
    · subst hSame
      rw [hSelf] at hc
      exact .inl ⟨rfl, (hParts c hc).resolve_left hNot⟩
    · rw [Registry.owned, hOther hSame] at hc
      refine .inr ⟨fun hId => hNot ?_, hc⟩
      rwa [← h.owned hId]
  refine ⟨h.has, ?_, ?_, ?_⟩
  · intro id hId
    by_cases hSame : id = target
    · subst hSame
      exact hFate
    · refine .inl (.of_owned ?_ ?_)
      · rw [Registry.object, Registry.object, hOther hSame, h.entry hId]
        exact .refl _
      · rw [Registry.owned, Registry.owned, hOther hSame, h.entry hId]
  · intro id c hc
    by_cases hNot : c ∈ r.owned id
    · exact .inl hNot
    · rcases hNew hc hNot with ⟨-, hLoose⟩ | ⟨hId, hMem⟩
      · exact .inr ⟨hLoose.new, hLoose.has⟩
      · exact .inr (h.parts hId hMem)
  · intro id id' c hc hc' hNot hNot'
    rcases hNew hc hNot with ⟨hSame, hLoose⟩ | ⟨hId, hMem⟩
    · rcases hNew hc' hNot' with ⟨hSame', -⟩ | ⟨hId', hMem'⟩
      · rw [hSame, hSame']
      · exact absurd hMem' (hLoose.free hId')
    · rcases hNew hc' hNot' with ⟨-, hLoose⟩ | ⟨hId', hMem'⟩
      · exact absurd hMem (hLoose.free hId)
      · exact h.once hId hId' hMem hMem'

/-- An object that can be written as a whole: a part of the solar system or of nothing. -/
structure Whole (system : Option ObjectId) (r : Registry) (id : ObjectId) : Prop where
  has : r.Has id
  free : ∀ w, id ∈ r.owned w → system = some w

theorem Whole.later (hWhole : Whole system r id) (h : Evolves system r r') : Whole system r' id where
  has := h.has hWhole.has
  free w hw := hWhole.free w (h.old_part hWhole.has hw)

/-- The old parts of an overwritten object are let go, and new ones installed. -/
theorem evolves_overwrite (h : Whole system r target) (a : Assembly) :
    Evolves system r (r.overwrite target a) := by
  obtain ⟨hGrows, hLoose⟩ := installAll_grows r a.parts
  have hParts : (r.overwrite target a).owned target = (r.installAll a.parts).1 := by
    rw [overwrite, owned, entry_modify_self (hGrows.has h.has)]
  have hFree : ∀ w, target ∈ (r.overwrite target a).owned w → system = some w := by
    intro w hw
    by_cases hSame : w = target
    · rw [hSame, hParts] at hw
      exact absurd h.has (hLoose target hw).new
    · rw [overwrite, owned, entry_modify_ne hSame] at hw
      by_cases hId : r.Has w
      · rw [hGrows.entry hId] at hw
        exact h.free w hw
      · exact absurd h.has (hGrows.parts hId hw).1
  refine hGrows.evolves_modify h.has (fun c hc => .inr (hLoose c hc)) (.inr ⟨?_, ?_, hFree⟩)
  · rw [object, entry_modify_self (hGrows.has h.has)]
  · intro c hc
    refine (hLoose c ?_).new
    rw [← hParts]
    exact hc

theorem object_replaceOwned (hOther : r.Has other) (t : ObjectType) (part : Assembly) :
    (r.replaceOwned id t part).object other = r.object other := by
  have hGrows := (install_grows r part).1
  by_cases hSame : other = id
  · subst hSame
    rw [object, replaceOwned, entry_modify_self (hGrows.has hOther), hGrows.entry hOther]
    rfl
  · rw [object, replaceOwned, entry_modify_ne hSame, hGrows.entry hOther]
    rfl

/-- The part of a type is replaced by a new object. -/
theorem evolves_replaceOwned (system : Option ObjectId) (h : r.Has id) (t : ObjectType) (part : Assembly) :
    Evolves system r (r.replaceOwned id t part) := by
  obtain ⟨hGrows, hLoose⟩ := install_grows r part
  refine hGrows.evolves_modify h ?_ (.inl ⟨?_, ?_⟩)
  · intro c hc
    rcases mem_append.mp hc with hKept | hNew
    · exact .inl (mem_filter.mp hKept).1
    · rw [mem_singleton.mp hNew]
      exact .inr hLoose
  · rw [object, object, entry_modify_self (hGrows.has h), hGrows.entry h]
    exact .refl _
  · refine ⟨fun p => (r.object p).objectType ≠ t, [(r.install part).1], ?_, ?_⟩
    · rw [owned, entry_modify_self (hGrows.has h)]
    · intro c hc
      rw [mem_singleton.mp hc]
      exact hLoose.new

end Registry

end Mission
