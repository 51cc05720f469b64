import Mathlib.Data.List.Basic
import Mathlib.Data.List.Find
import Mission.Proofs.Registry.Evolution
import Mission.Proofs.Table

/-! Properties found by name, and finding them again. A search goes through the parts of the owner in
order, so it depends on which parts there are and on their shapes. As long as an owner still has the
part that was found, the search finds it again: new parts stand behind the old ones, and no part can
get a property in between unless it is a body of the solar system. -/
namespace Mission

open List

namespace Object

theorem SameShape.index? {o o' : Object} (h : SameShape o o') (property : String) :
    o'.properties.index? property = o.properties.index? property := by
  rw [Table.index?_eq, Table.index?_eq, h.keys]

end Object

namespace Registry

variable {system : Option ObjectId} {r r' : Registry} {id c w : ObjectId} {part property : String} {i : Nat}

/-- Every part is an object, and part of one object only. -/
structure Forest (r : Registry) : Prop where
  has : ∀ {id c}, c ∈ r.owned id → r.Has c
  once : ∀ {id id' c}, c ∈ r.owned id → c ∈ r.owned id' → id = id'

theorem forest_empty : Forest {} := by
  have hNone : ∀ id, ({} : Registry).owned id = [] := fun id =>
    owned_of_not_has (Nat.not_lt_zero id.index)
  constructor
  · intro id c hc
    rw [hNone] at hc
    cases hc
  · intro id id' c hc
    rw [hNone] at hc
    cases hc

theorem Forest.later (hForest : Forest r) (h : Evolves system r r') : Forest r' where
  has hc := by
    rcases h.parts hc with hOld | hNew
    · exact h.has (hForest.has hOld)
    · exact hNew.2
  once {id id' c} hc hc' := by
    by_cases hOld : r.Has c
    · exact hForest.once (h.old_part hOld hc) (h.old_part hOld hc')
    · exact h.once hc hc' (fun hMem => hOld (hForest.has hMem)) (fun hMem => hOld (hForest.has hMem))

/-- An object that is part of nothing. -/
structure Root (r : Registry) (id : ObjectId) : Prop where
  has : r.Has id
  free : ∀ w, id ∉ r.owned w

theorem Root.later (hRoot : Root r id) (h : Evolves system r r') : Root r' id where
  has := h.has hRoot.has
  free w hw := hRoot.free w (h.old_part hRoot.has hw)

theorem Root.whole (h : Root r id) (system : Option ObjectId) :
    Whole system r id where
  has := h.has
  free w hw := absurd hw (h.free w)

theorem Loose.root (h : Loose r r' id) (hGrows : Grows r r') (hForest : Forest r) : Root r' id where
  has := h.has
  free w hw := by
    by_cases hOld : r.Has w
    · rw [hGrows.owned hOld] at hw
      exact h.new (hForest.has hw)
    · exact h.free hOld hw

theorem Grows.findOwned_of_parts (h : Grows r r') (hParts : ∀ {id c}, c ∈ r.owned id → r.Has c)
    (hId : r.Has id) (name : String) : r'.findOwned id name = r.findOwned id name := by
  rw [Registry.findOwned, Registry.findOwned, h.owned hId]
  refine List.find?_congr fun part hPart => ?_
  rw [h.object (hParts hPart)]

theorem Grows.findOwned (h : Grows r r') (hForest : Forest r) (hId : r.Has id) (name : String) :
    r'.findOwned id name = r.findOwned id name :=
  h.findOwned_of_parts hForest.has hId name

/-- The property of a part, if the part is of the given name. -/
def partProperty (r : Registry) (part property : String) (candidate : ObjectId) :
    Option (ObjectId × Nat) :=
  if !part.isEmpty && (r.object candidate).name ≠ part then none
  else ((r.object candidate).properties.index? property).map fun i => (candidate, i)

theorem findOwnedProperty_eq (r : Registry) (id : ObjectId) (part property : String) :
    r.findOwnedProperty id part property = (r.owned id).findSome? (r.partProperty part property) :=
  rfl

theorem partProperty_eq_some {candidate : ObjectId}
    (h : r.partProperty part property candidate = some (c, i)) :
    candidate = c ∧ (part.isEmpty = true ∨ (r.object c).name = part) ∧
      (r.object c).properties.index? property = some i := by
  unfold partProperty at h
  split at h
  · cases h
  · next hName =>
      obtain ⟨j, hIndex, hPair⟩ := Option.map_eq_some_iff.mp h
      cases hPair
      refine ⟨rfl, ?_, hIndex⟩
      by_cases hEmpty : part.isEmpty = true
      · exact .inl hEmpty
      · exact .inr (by simpa [hEmpty] using hName)

theorem partProperty_of_name (hName : part.isEmpty = true ∨ (r.object c).name = part)
    (hIndex : (r.object c).properties.index? property = some i) :
    r.partProperty part property c = some (c, i) := by
  have hMatch : ¬ (!part.isEmpty && (r.object c).name ≠ part) = true := by
    rcases hName with hEmpty | hName
    · simp [hEmpty]
    · simp [hName]
  rw [partProperty, if_neg hMatch, hIndex]
  rfl

theorem partProperty_of_sameShape (h : (r.object c).SameShape (r'.object c)) (part property : String) :
    r'.partProperty part property c = r.partProperty part property c := by
  rw [partProperty, partProperty, h.name, h.index?]

/-- Where a property can be found: at the object itself, or at a part if the object itself has none. -/
theorem findProperty_eq_some (h : r.findProperty w part property = some (c, i)) :
    (part.isEmpty = true ∧ c = w ∧ (r.object w).properties.index? property = some i) ∨
      ((part.isEmpty = true → (r.object w).properties.index? property = none) ∧
        r.findOwnedProperty w part property = some (c, i)) := by
  unfold findProperty at h
  cases hEmpty : part.isEmpty with
  | false =>
    rw [hEmpty] at h
    exact .inr ⟨by simp, h⟩
  | true =>
    rw [hEmpty] at h
    cases hIndex : (r.object w).properties.index? property with
    | none =>
      rw [hIndex] at h
      exact .inr ⟨fun _ => rfl, h⟩
    | some j =>
      rw [hIndex] at h
      cases h
      exact .inl ⟨rfl, rfl, rfl⟩

/-- A property is found at the object itself or at one of its parts. -/
theorem holder_of_findProperty (h : r.findProperty w part property = some (c, i)) :
    c = w ∨ c ∈ r.owned w := by
  rcases findProperty_eq_some h with ⟨-, rfl, -⟩ | ⟨-, hPart⟩
  · exact .inl rfl
  · rw [findOwnedProperty_eq] at hPart
    obtain ⟨candidate, hMem, hFound⟩ := exists_of_findSome?_eq_some hPart
    exact .inr ((partProperty_eq_some hFound).1 ▸ hMem)

theorem findProperty_of_own (hEmpty : part.isEmpty = true)
    (hIndex : (r.object w).properties.index? property = some i) :
    r.findProperty w part property = some (w, i) := by
  unfold findProperty
  rw [hEmpty, hIndex]
  rfl

theorem findProperty_of_part (hOwn : part.isEmpty = true → (r.object w).properties.index? property = none) :
    r.findProperty w part property = r.findOwnedProperty w part property := by
  unfold findProperty
  cases hEmpty : part.isEmpty with
  | false => rfl
  | true =>
    rw [hOwn hEmpty]
    rfl

theorem Grows.findProperty_of_parts (h : Grows r r') (hOwned : ∀ {id c}, c ∈ r.owned id → r.Has c)
    (hId : r.Has id) (part property : String) :
    r'.findProperty id part property = r.findProperty id part property := by
  have hParts : r'.findOwnedProperty id part property = r.findOwnedProperty id part property := by
    rw [findOwnedProperty_eq, findOwnedProperty_eq, h.owned hId, ← List.head?_filterMap,
      ← List.head?_filterMap]
    refine congrArg List.head? (filterMap_congr fun candidate hPart => ?_)
    rw [partProperty, partProperty, h.object (hOwned hPart)]
  rw [Registry.findProperty, Registry.findProperty, h.object hId, hParts]

theorem Grows.findProperty (h : Grows r r') (hForest : Forest r) (hId : r.Has id) (part property : String) :
    r'.findProperty id part property = r.findProperty id part property :=
  h.findProperty_of_parts hForest.has hId part property

/-- A property of a part is found again if the owner still has the part, the part still has the
property there, and no body in front of it has got such a property. -/
theorem Evolves.findProperty_again (h : Evolves system r r') (hForest : Forest r) (hw : r.Has w)
    (hne : c ≠ w) (hFound : r.findProperty w part property = some (c, i)) (hStill : c ∈ r'.owned w)
    (hIndex : (r'.object c).properties.index? property = some i)
    (hFront : system = some w → ∀ d ∈ (r'.owned w).takeWhile (· ≠ c), r'.partProperty part property d =
      none) :
    r'.findProperty w part property = some (c, i) := by
  obtain ⟨hOwn, hPart⟩ := (findProperty_eq_some hFound).resolve_left fun hSelf => hne hSelf.2.1
  rw [findOwnedProperty_eq, List.findSome?_eq_some_iff] at hPart
  obtain ⟨front, a, behind, hSplit, ha, hNone⟩ := hPart
  obtain ⟨rfl, hName, -⟩ := partProperty_eq_some ha
  have hOld : ∀ d ∈ front ++ [a], r.Has d := by
    intro d hd
    have hMem : d ∈ r.owned w := by
      rw [hSplit, append_cons]
      exact mem_append_left _ hd
    exact hForest.has hMem
  have hc : r.Has a := hOld a (by simp)
  obtain ⟨hShape, keep, new, hParts, hNew⟩ := h.kept_of_part hw hc hStill
  have hKeep : keep a = true := by
    rw [hParts] at hStill
    have hMem := (mem_append.mp hStill).resolve_right fun hMem => hNew a hMem hc
    exact (mem_filter.mp hMem).2
  have hAround : r'.owned w = front.filter keep ++ a :: (behind.filter keep ++ new) := by
    rw [hParts, hSplit, filter_append, filter_cons_of_pos hKeep, append_assoc,
      cons_append]
  have hAhead : ∀ d ∈ front, d ≠ a := by
    rintro d hd rfl
    rw [hNone d hd] at ha
    cases ha
  -- What stands in front of the part was passed over before and is passed over again.
  have hPassed : ∀ d ∈ front.filter keep, r'.partProperty part property d = none := by
    intro d hd
    have hMem : d ∈ r'.owned w := by
      rw [hAround]
      exact mem_append_left _ hd
    by_cases hSystem : system = some w
    · refine hFront hSystem d ?_
      rw [hAround, takeWhile_append_of_pos]
      · exact mem_append_left _ hd
      · intro x hx
        simpa using hAhead x (mem_filter.mp hx).1
    · have hd' : d ∈ front := (mem_filter.mp hd).1
      have hShape' : (r.object d).SameShape (r'.object d) :=
        h.shape_of_part (hOld d (mem_append_left _ hd')) hMem hSystem
      rw [partProperty_of_sameShape hShape', hNone d hd']
  rw [findProperty_of_part fun hEmpty => (hShape.index? property).trans (hOwn hEmpty),
    findOwnedProperty_eq, hAround, List.findSome?_append, List.findSome?_eq_none_iff.mpr hPassed,
    List.findSome?_cons, partProperty_of_name (hName.imp_right (h.name hc).trans) hIndex]
  rfl

end Registry

end Mission
