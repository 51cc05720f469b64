import Mission.Proofs.Registry.Likeness
import Mission.Proofs.Session.Reversal

/-! A rename leaves alike objects behind. The objects of the store get other names and follow in
their references; all others stay as they are. -/
namespace Mission

open Name Outcome

variable {old new : String}

/-- No word that a property accepts mentions the name. -/
def Object.WordsLack (old : String) (o : Object) : Prop :=
  ∀ p ∈ o.properties.values, Lacks old p.accepted

instance (old : String) (o : Object) : Decidable (o.WordsLack old) :=
  inferInstanceAs (Decidable (∀ p ∈ o.properties.values, Lacks old p.accepted))

/-- References follow the rename, and no other text of a property does. -/
theorem Property.alike_renameReferences (hOld : IsIdentifier old.toList) {p : Property}
    (hWords : Lacks old p.accepted) : p.Alike old (p.renameReferences old new) := by
  obtain ⟨name, dataType, value, readOnly, refType, accepted⟩ := p
  unfold renameReferences
  cases value with
  | object target =>
    dsimp only
    split
    · next hTarget =>
        subst hTarget
        exact ⟨rfl, .object (.inr (mem_identifiers_self hOld)), hWords⟩
    · exact ⟨rfl, .same _, hWords⟩
  | stringArray items =>
    refine ⟨rfl, .stringArray ?_, hWords⟩
    by_cases hItems : old ∈ items
    · exact .inr ⟨old, hItems, mem_identifiers_self hOld⟩
    · refine .inl ((List.map_congr_left fun item hItem => ?_).trans (List.map_id _))
      have hNe : item ≠ old := fun hSame => hItems (hSame ▸ hItem)
      exact if_neg hNe
  | _ => exact ⟨rfl, .same _, hWords⟩

namespace Object

variable {o : Object}

theorem alike_map {f : Property → Property} (h : ∀ p ∈ o.properties.values, p.Alike old (f p)) :
    List.Forall₂ (fun e e' : String × Property => e'.1 = e.1 ∧ e.2.Alike old e'.2) o.properties.entries
      (o.properties.map f).entries := by
  rw [Table.map, List.forall₂_map_right_iff]
  exact List.forall₂_same.mpr fun entry hEntry => ⟨rfl, h entry.2 (List.mem_map_of_mem hEntry)⟩

/-- An object that no rename touches is like itself. -/
theorem alike_self (h : o.WordsLack old) : o.Alike old o := by
  refine ⟨.refl old _, rfl, rfl, ?_, ?_⟩
  · exact List.forall₂_same.mpr fun entry hEntry =>
      ⟨rfl, rfl, .same _, h entry.2 (List.mem_map_of_mem hEntry)⟩
  · cases o.content with
    | plain => exact .plain
    | «variable» x => exact .number x
    | array m => exact .array m
    | text text => exact .text (.refl old text)
    | parameter p => exact .parameter rfl rfl rfl

/-- An object is like itself under its new name. -/
theorem alike_renamed (hOld : IsIdentifier old.toList) (h : o.WordsLack old) :
    o.Alike old (o.renamed old new) := by
  refine ⟨alike_replace hOld o.name, rfl, rfl, ?_, ?_⟩
  · exact alike_map fun p hp => Property.alike_renameReferences hOld (h p hp)
  · rw [renamed, renameReferences]
    cases o.content with
    | plain => exact .plain
    | «variable» x => exact .number x
    | array m => exact .array m
    | text text => exact .text (.refl old text)
    | parameter p => exact .parameter rfl rfl rfl

end Object

/-- No word that a property accepts mentions the old name, and no name of a part mentions one of the
two. -/
structure Registry.Renamable (old new : String) (r : Registry) : Prop where
  words : ∀ id, (r.object id).WordsLack old
  parts : ∀ {id part}, part ∈ r.owned id → Neither old new (r.object part).name

instance (old new : String) (r : Registry) : Decidable (r.Renamable old new) :=
  decidable_of_iff (∀ i < r.entries.size, (r.object ⟨i⟩).WordsLack old ∧
      ∀ part ∈ r.owned ⟨i⟩, Neither old new (r.object part).name) <| by
    constructor
    · intro h
      refine ⟨fun id => ?_, fun {id part} hPart => ?_⟩
      · by_cases hHas : r.Has id
        · exact (h id.index hHas).1
        · rw [Registry.object, Registry.entry_of_not_has hHas]
          exact fun p hp => absurd hp List.not_mem_nil
      · by_cases hHas : r.Has id
        · exact (h id.index hHas).2 part hPart
        · rw [Registry.owned_of_not_has hHas] at hPart
          cases hPart
    · intro h i _
      exact ⟨h.words ⟨i⟩, fun part hPart => h.parts hPart⟩

/-- After a rename the registry has the same objects, alike one by one. -/
theorem Store.rename_alike {s s' : Store} {r r' : Registry} (hOld : IsIdentifier old.toList)
    (hSound : s.Sound r) (hForest : r.Forest) (hKeys : ((s.renamedPairs old new).map Prod.fst).Nodup)
    (hRegistry : r.Renamable old new) (h : s.rename r old new = .ok (s', r')) : r.Alike old new r' := by
  obtain ⟨-, hObject⟩ := rename_eq_ok hSound hKeys h
  obtain ⟨-, hParts, -⟩ := rename_spec hSound h
  refine ⟨hParts.size, fun id => ⟨?_, hParts.owned id⟩, fun hPart => ?_⟩
  · change (r.object id).Alike old (r'.object id)
    rw [hObject]
    split
    · exact Object.alike_renamed hOld (hRegistry.words id)
    · exact Object.alike_self (hRegistry.words id)
  · exact ⟨hForest.has hPart, hRegistry.parts hPart⟩

end Mission
