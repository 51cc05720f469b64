import Mission.Accessor.Basic
import Mission.Table

/-! Reading tables after they have been written. The keys are a list of names without repetitions,
to which writing adds what is not there yet. -/
namespace Mission

open List Accessor

/-! ### Each name once -/

namespace Accessor

variable {names others : List String} {name : String}

theorem union_append (names others more : List String) :
    union names (others ++ more) = union (union names others) more :=
  foldl_append

theorem union_cons (names rest : List String) (name : String) :
    union names (name :: rest) = union (if name ∈ names then names else names ++ [name]) rest := by
  simp [union]

theorem mem_union : name ∈ union names others ↔ name ∈ names ∨ name ∈ others := by
  induction others generalizing names with
  | nil => simp [union]
  | cons other rest ih =>
    rw [union_cons, ih]
    split
    · next hThere => grind
    · simp [or_assoc]

theorem nodup_union (h : names.Nodup) (others : List String) : (union names others).Nodup := by
  induction others generalizing names with
  | nil => exact h
  | cons name rest ih =>
    rw [union_cons]
    refine ih ?_
    split
    · exact h
    · next hNew => exact nodup_append.mpr ⟨h, by simp, by grind⟩

end Accessor

namespace Table

variable {α β : Type}
variable {t : Table α} {i : Nat} {f : α → α} {entry : String × α} {key other : String} {a : α}
  {entries pairs : List (String × α)}

theorem index?_eq (t : Table α) (key : String) : t.index? key = t.keys.findIdx? (· = key) := by
  rw [index?, keys, List.findIdx?_map]
  rfl

theorem getAt?_modifyAt (t : Table α) (i : Nat) (f : α → α) :
    (t.modifyAt i f).getAt? i = (t.getAt? i).map f := by
  rw [getAt?, getAt?, modifyAt, List.getElem?_modify_eq]
  cases t.entries[i]? <;> rfl

theorem getAt?_modifyAt_ne {j : Nat} (h : i ≠ j) (f : α → α) : (t.modifyAt j f).getAt? i = t.getAt? i := by
  simp [getAt?, modifyAt, h.symm]

theorem keys_modifyAt (t : Table α) (i : Nat) (f : α → α) : (t.modifyAt i f).keys = t.keys := by
  refine ext_getElem? fun j => ?_
  simp only [modifyAt, keys, List.getElem?_map, List.getElem?_modify]
  split <;> cases t.entries[j]? <;> rfl

theorem mem_modifyAt (h : entry ∈ (t.modifyAt i f).entries) :
    entry ∈ t.entries ∨ ∃ a, (entry.1, a) ∈ t.entries ∧ t.getAt? i = some a ∧ entry.2 = f a := by
  obtain ⟨j, hj⟩ := mem_iff_getElem?.mp h
  rw [modifyAt, List.getElem?_modify] at hj
  obtain ⟨old, hOld, hNew⟩ := Option.map_eq_some_iff.mp hj
  split at hNew
  · next hSame =>
      subst hSame
      subst hNew
      exact .inr ⟨old.2, mem_of_getElem? hOld, by rw [getAt?, hOld]; rfl, rfl⟩
  · subst hNew
    exact .inl (mem_of_getElem? hOld)

theorem modifyAt_modifyAt (t : Table α) (i : Nat) (f g : α → α) :
    (t.modifyAt i g).modifyAt i f = t.modifyAt i fun x => f (g x) := by
  rw [modifyAt, modifyAt, modifyAt, modify_modify_eq]
  rfl

theorem modifyAt_eq_self {x : α} (hAt : t.getAt? i = some x) (h : f x = x) : t.modifyAt i f = t := by
  obtain ⟨entry, hEntry, rfl⟩ := Option.map_eq_some_iff.mp hAt
  have hModify : t.entries.modify i (fun entry => (entry.1, f entry.2)) = t.entries := by
    refine ext_getElem? fun j => ?_
    rw [List.getElem?_modify]
    by_cases hj : i = j
    · subst hj
      simp [hEntry, h]
    · simp [hj]
  rw [modifyAt, hModify]

theorem mem_of_get? (h : t.get? key = some a) : (key, a) ∈ t.entries := by
  unfold get? at h
  generalize t.entries = entries at h ⊢
  induction entries with
  | nil => cases h
  | cons entry rest ih =>
    rw [lookup_cons] at h
    split at h
    · next hKey =>
        cases h
        rw [beq_iff_eq.mp hKey]
        exact mem_cons_self
    · exact mem_cons_of_mem _ (ih h)

theorem insert_of_not_contains (h : t.contains key = false) (a : α) :
    t.insert key a = ⟨t.entries ++ [(key, a)]⟩ := by
  rw [insert, h]
  rfl

theorem lookup_replaceEntry (h : other ≠ key) (a : α) (entries : List (String × α)) :
    (replaceEntry key a entries).lookup other = entries.lookup other := by
  induction entries with
  | nil => rfl
  | cons entry rest ih =>
    rw [replaceEntry]
    split
    · next hKey => rw [lookup_cons, lookup_cons, hKey, beq_eq_false_iff_ne.mpr h]
    · rw [lookup_cons, lookup_cons, ih]

theorem get?_insert_of_ne (h : other ≠ key) (t : Table α) (a : α) :
    (t.insert key a).get? other = t.get? other := by
  unfold insert
  split
  · exact lookup_replaceEntry h a t.entries
  · change (t.entries ++ [(key, a)]).lookup other = t.entries.lookup other
    rw [lookup_append, lookup_cons, beq_eq_false_iff_ne.mpr h]
    simp

theorem lookup_replaceEntry_self (h : (entries.lookup key).isSome = true) (a : α) :
    (replaceEntry key a entries).lookup key = some a := by
  induction entries with
  | nil => cases h
  | cons entry rest ih =>
    rw [replaceEntry]
    split
    · simp
    · next hKey =>
        have hOther : (key == entry.1) = false := beq_eq_false_iff_ne.mpr (Ne.symm hKey)
        rw [lookup_cons, hOther] at h ⊢
        exact ih h

theorem get?_insert_self (t : Table α) (key : String) (a : α) : (t.insert key a).get? key = some a := by
  unfold insert
  split
  · next hContains => exact lookup_replaceEntry_self hContains a
  · next hContains =>
      have hNone : t.entries.lookup key = none := Option.not_isSome_iff_eq_none.mp hContains
      change (t.entries ++ [(key, a)]).lookup key = some a
      rw [lookup_append, hNone, lookup_cons]
      simp

theorem mem_replaceEntry (h : entry ∈ replaceEntry key a entries) : entry = (key, a) ∨ entry ∈ entries := by
  induction entries with
  | nil => cases h
  | cons first rest ih =>
    rw [replaceEntry] at h
    split at h
    · rcases mem_cons.mp h with rfl | h
      · exact .inl rfl
      · exact .inr (mem_cons_of_mem _ h)
    · rcases mem_cons.mp h with rfl | h
      · exact .inr mem_cons_self
      · exact (ih h).imp_right (mem_cons_of_mem _)

theorem mem_insert (h : entry ∈ (t.insert key a).entries) : entry = (key, a) ∨ entry ∈ t.entries := by
  unfold insert at h
  split at h
  · exact mem_replaceEntry h
  · rcases mem_append.mp h with h | h
    · exact .inr h
    · exact .inl (mem_singleton.mp h)

theorem mem_values_insert {b : α} (h : b ∈ (t.insert key a).values) : b = a ∨ b ∈ t.values := by
  obtain ⟨entry, hEntry, rfl⟩ := mem_map.mp h
  rcases mem_insert hEntry with rfl | hOld
  · exact .inl rfl
  · exact .inr (mem_map_of_mem hOld)

theorem nodup_replaceEntry (h : (entries.map Prod.snd).Nodup) (ha : a ∉ entries.map Prod.snd) :
    ((replaceEntry key a entries).map Prod.snd).Nodup := by
  induction entries with
  | nil => exact h
  | cons first rest ih =>
    rw [map_cons, nodup_cons] at h
    rw [map_cons, mem_cons, not_or] at ha
    rw [replaceEntry]
    split
    · exact nodup_cons.mpr ⟨ha.2, h.2⟩
    · refine nodup_cons.mpr ⟨fun hMem => ?_, ih h.2 ha.2⟩
      obtain ⟨entry, hEntry, hSame⟩ := mem_map.mp hMem
      rcases mem_replaceEntry hEntry with rfl | hRest
      · exact ha.1 hSame
      · exact h.1 (hSame ▸ mem_map_of_mem hRest)

theorem nodup_values_insert (h : t.values.Nodup) (ha : a ∉ t.values) : (t.insert key a).values.Nodup := by
  unfold insert
  split
  · exact nodup_replaceEntry h ha
  · change ((t.entries ++ [(key, a)]).map Prod.snd).Nodup
    rw [map_append, nodup_append]
    refine ⟨h, by simp, ?_⟩
    intro b hb c hc hSame
    obtain rfl : c = a := mem_singleton.mp hc
    exact ha (hSame ▸ hb)

/-- Inserting pairs in order gives a table of some of them. -/
theorem mem_ofPairs (h : entry ∈ (ofPairs pairs).entries) : entry ∈ pairs := by
  have hFold : ∀ (pairs : List (String × α)) (t : Table α),
      entry ∈ (pairs.foldl (fun t entry => t.insert entry.1 entry.2) t).entries →
        entry ∈ t.entries ∨ entry ∈ pairs := by
    intro pairs
    induction pairs with
    | nil => exact fun _ => .inl
    | cons pair rest ih =>
      intro t hMem
      rcases ih _ hMem with hTable | hRest
      · rcases mem_insert hTable with rfl | hOld
        · exact .inr mem_cons_self
        · exact .inl hOld
      · exact .inr (mem_cons_of_mem _ hRest)
  exact (hFold pairs {} h).resolve_left not_mem_nil

theorem nodup_values_ofPairs (h : (pairs.map Prod.snd).Nodup) : (ofPairs pairs).values.Nodup := by
  have hFold : ∀ (pairs : List (String × α)) (t : Table α), t.values.Nodup →
      (pairs.map Prod.snd).Nodup → (∀ a ∈ pairs.map Prod.snd, a ∉ t.values) →
        (pairs.foldl (fun t entry => t.insert entry.1 entry.2) t).values.Nodup := by
    intro pairs
    induction pairs with
    | nil => exact fun _ ht _ _ => ht
    | cons pair rest ih =>
      intro t ht hPairs hApart
      rw [map_cons, nodup_cons] at hPairs
      refine ih _ (nodup_values_insert ht (hApart _ mem_cons_self)) hPairs.2 ?_
      intro a ha hMem
      rcases mem_values_insert hMem with rfl | hOld
      · exact hPairs.1 ha
      · exact hApart a (mem_cons_of_mem _ ha) hOld
  exact hFold pairs {} nodup_nil h fun a _ => not_mem_nil

/-! ### Keys -/

theorem get?_of_mem (hKeys : t.keys.Nodup) (h : (key, a) ∈ t.entries) : t.get? key = some a := by
  unfold get?
  unfold keys at hKeys
  generalize t.entries = entries at h hKeys ⊢
  induction entries with
  | nil => cases h
  | cons entry rest ih =>
    rw [map_cons, nodup_cons] at hKeys
    rcases mem_cons.mp h with rfl | hRest
    · simp
    · have hne : key ≠ entry.1 := fun hSame => hKeys.1 (hSame ▸ mem_map_of_mem hRest)
      rw [lookup_cons, beq_eq_false_iff_ne.mpr hne]
      exact ih hRest hKeys.2

theorem get?_eq_none_iff : t.get? key = none ↔ key ∉ t.keys := by
  constructor
  · intro hNone hMem
    obtain ⟨entry, hEntry, rfl⟩ := mem_map.mp hMem
    simpa using lookup_eq_none_iff.mp hNone entry hEntry
  · intro hKey
    refine Option.eq_none_iff_forall_ne_some.mpr fun a ha => hKey ?_
    exact mem_map.mpr ⟨(key, a), mem_of_get? ha, rfl⟩

theorem contains_iff_mem_keys : t.contains key = true ↔ key ∈ t.keys := by
  rw [contains, Option.isSome_iff_ne_none, Ne, get?_eq_none_iff, Decidable.not_not]

theorem contains_of_not_mem_keys (h : key ∉ t.keys) : t.contains key = false :=
  Bool.eq_false_iff.mpr fun hContains => h (contains_iff_mem_keys.mp hContains)

theorem keys_replaceEntry (key : String) (a : α) (entries : List (String × α)) :
    (replaceEntry key a entries).map Prod.fst = entries.map Prod.fst := by
  induction entries with
  | nil => rfl
  | cons entry rest ih =>
    rw [replaceEntry]
    split
    · next hKey => rw [map_cons, map_cons, hKey]
    · rw [map_cons, map_cons, ih]

theorem keys_insert (t : Table α) (key : String) (a : α) : (t.insert key a).keys = union t.keys [key] := by
  rw [union_cons]
  unfold insert
  split
  · next hContains =>
      rw [if_pos (contains_iff_mem_keys.mp hContains)]
      exact keys_replaceEntry key a t.entries
  · next hContains =>
      rw [if_neg fun hKey => hContains (contains_iff_mem_keys.mpr hKey), keys, map_append]
      rfl

theorem nodup_keys_insert (h : t.keys.Nodup) (key : String) (a : α) : (t.insert key a).keys.Nodup := by
  rw [keys_insert]
  exact nodup_union h [key]

theorem keys_ofPairs (pairs : List (String × α)) :
    (ofPairs pairs).keys = union [] (pairs.map Prod.fst) := by
  have hFold : ∀ (pairs : List (String × α)) (t : Table α),
      (pairs.foldl (fun t entry => t.insert entry.1 entry.2) t).keys =
        union t.keys (pairs.map Prod.fst) := by
    intro pairs
    induction pairs with
    | nil => exact fun t => rfl
    | cons pair rest ih =>
      intro t
      rw [foldl_cons, ih, keys_insert, map_cons, ← union_append, singleton_append]
  exact hFold pairs {}

theorem mem_keys_ofPairs : key ∈ (ofPairs pairs).keys ↔ key ∈ pairs.map Prod.fst := by
  rw [keys_ofPairs, mem_union, or_iff_right not_mem_nil]

theorem nodup_keys_ofPairs (pairs : List (String × α)) : (ofPairs pairs).keys.Nodup := by
  rw [keys_ofPairs]
  exact nodup_union nodup_nil _

/-- Pairs without a repeated key are the entries of their table. -/
theorem ofPairs_of_nodup (h : (pairs.map Prod.fst).Nodup) : ofPairs pairs = ⟨pairs⟩ := by
  have hFold : ∀ (pairs : List (String × α)) (t : Table α), (t.keys ++ pairs.map Prod.fst).Nodup →
      pairs.foldl (fun t entry => t.insert entry.1 entry.2) t = ⟨t.entries ++ pairs⟩ := by
    intro pairs
    induction pairs with
    | nil =>
      intro t _
      rw [foldl_nil, append_nil]
    | cons pair rest ih =>
      intro t hKeys
      have hNew : pair.1 ∉ t.keys := by
        intro hMem
        exact (nodup_append.mp hKeys).2.2 _ hMem _ mem_cons_self rfl
      have hInsert := insert_of_not_contains (contains_of_not_mem_keys hNew) pair.2
      rw [foldl_cons, hInsert, ih, append_assoc]
      · rfl
      · rw [keys, map_append, append_assoc]
        exact hKeys
  exact hFold pairs {} h

section

variable {entries : List (String × α)} {f g : String → String}

/-- Keys that come back have not become equal. -/
theorem nodup_keys_map (F : α → β) (hKeys : (entries.map Prod.fst).Nodup)
    (hKey : ∀ entry ∈ entries, g (f entry.1) = entry.1) :
    ((entries.map fun entry => (f entry.1, F entry.2)).map Prod.fst).Nodup := by
  rw [map_map]
  refine pairwise_map.mpr ((pairwise_map.mp hKeys).imp_of_mem fun ha hb hne hSame => hne ?_)
  rw [← hKey _ ha, ← hKey _ hb]
  exact congrArg g hSame

theorem map_map_entries {F G : α → α} (hKey : ∀ entry ∈ entries, g (f entry.1) = entry.1)
    (hValue : ∀ entry ∈ entries, G (F entry.2) = entry.2) :
    (entries.map fun entry => (f entry.1, F entry.2)).map (fun entry => (g entry.1, G entry.2)) =
      entries := by
  rw [map_map]
  refine (map_congr_left fun entry hEntry => ?_).trans (map_id _)
  exact Prod.ext (hKey entry hEntry) (hValue entry hEntry)

end

/-- A table that is rebuilt under other keys and back is restored, if each key and each value comes
back. -/
theorem ofPairs_ofPairs {f g : String → String} {F G : α → α} (hKeys : t.keys.Nodup)
    (hKey : ∀ entry ∈ t.entries, g (f entry.1) = entry.1)
    (hValue : ∀ entry ∈ t.entries, G (F entry.2) = entry.2) :
    ofPairs ((ofPairs (t.entries.map fun entry => (f entry.1, F entry.2))).entries.map
      fun entry => (g entry.1, G entry.2)) = t := by
  rw [ofPairs_of_nodup (nodup_keys_map F hKeys hKey), map_map_entries hKey hValue, ofPairs_of_nodup hKeys]

end Table

end Mission
