import Mathlib.Data.List.Dedup
import Mission.Proofs.Session.Reversal

/-! Names that a rename makes one. The new name itself must be free, but every name that contains
the old one is rewritten, and a rewritten name may be that of a Parameter which was mentioned before
its owner was there. The table is built anew from the rewritten names, so of two objects under one
name only the last remains. -/
namespace Mission

open Name

namespace Store

variable {s s' : Store} {r r' : Registry} {old new : String}

/-- The names of the store after a rename, one for each object. -/
def renamedNames (s : Store) (old new : String) : List String :=
  s.objects.keys.map (replace · old new)

theorem keys_renamedPairs (s : Store) (old new : String) :
    (s.renamedPairs old new).map Prod.fst = s.renamedNames old new := by
  rw [renamedPairs, renamedNames, Table.keys, List.map_map, List.map_map]
  rfl

/-- The rebuilt table has all rewritten names, each of them once. -/
theorem keys_ofPairs_perm (s : Store) (old new : String) :
    (Table.ofPairs (s.renamedPairs old new)).keys.Perm (s.renamedNames old new).dedup := by
  refine (List.perm_ext_iff_of_nodup (Table.nodup_keys_ofPairs _) (List.nodup_dedup _)).mpr fun name => ?_
  rw [Table.mem_keys_ofPairs, keys_renamedPairs, List.mem_dedup]

/-- The rebuilt table has all the objects exactly if no name is rewritten to that of another object. -/
theorem entries_ofPairs_iff (s : Store) (old new : String) :
    (Table.ofPairs (s.renamedPairs old new)).entries = s.renamedPairs old new ↔
      (s.renamedNames old new).Nodup := by
  rw [← keys_renamedPairs]
  constructor
  · intro h
    rw [← h]
    exact Table.nodup_keys_ofPairs _
  · intro h
    rw [Table.ofPairs_of_nodup h]

end Store

namespace Session

variable {s s' : Session} {old new : String}

theorem store_rename (h : s.rename old new = (.ok (), s')) :
    s'.store = { s.store with objects := .ofPairs (s.store.renamedPairs old new) } := by
  unfold rename at h
  split at h
  · cases h
  · next hRename =>
      cases h
      exact (Store.eq_of_rename hRename).2.2.1

theorem eq_of_rename_error {e : SessionError} (h : s.rename old new = (.error e, s')) : s' = s := by
  unfold rename at h
  split at h
  · cases h
    rfl
  · cases h

/-- A rename keeps all objects, in their order and each under its rewritten name, exactly if no two
names become one. In any case what remains was there before, and as many objects remain as there are
different names. A rename that is refused changes nothing. -/
theorem rename_keeps_objects_iff (s : Session) (old new : String) :
    (∀ e s', s.rename old new = (.error e, s') → s' = s) ∧
      ∀ s', s.rename old new = (.ok (), s') →
        (s'.store.objects.entries = s.store.renamedPairs old new ↔ (s.store.renamedNames old new).Nodup) ∧
          s'.store.objects.size = (s.store.renamedNames old new).dedup.length ∧
          s'.store.objects.entries ⊆ s.store.renamedPairs old new ∧
          s'.store.solarSystem = s.store.solarSystem := by
  refine ⟨fun e s' h => eq_of_rename_error h, fun s' h => ?_⟩
  have hSize : ∀ t : Table ObjectId, t.size = t.keys.length := fun t => (List.length_map _).symm
  rw [store_rename h, hSize]
  exact ⟨s.store.entries_ofPairs_iff old new, (s.store.keys_ofPairs_perm old new).length_eq,
    fun _ => Table.mem_ofPairs, rfl⟩

/-- A script that mentions a Parameter of a spacecraft, and one of a spacecraft that is not there yet. -/
def expectantScript : Session :=
  let s := ((Session.new {}).add (Catalog.spacecraft "sat1")).2
  let s := (s.classify {} "satA.X").2
  (s.classify {} "sat1.X").2

/-- No two names become one, and a Parameter follows its owner. -/
theorem rename_keeps_objects_expectantScript :
    ∃ s', expectantScript.rename "sat1" "probe" = (.ok (), s') ∧
      s'.store.objects.entries = expectantScript.store.renamedPairs "sat1" "probe" ∧
      s'.store.objects.keys =
        ["EarthMJ2000Eq", "EarthMJ2000Ec", "EarthFixed", "probe", "satA.X", "probe.X"] := by
  have hRuns : (expectantScript.rename "sat1" "probe").1.isOk = true ∧
      (expectantScript.store.renamedNames "sat1" "probe").Nodup ∧
      (expectantScript.rename "sat1" "probe").2.store.objects.keys =
        ["EarthMJ2000Eq", "EarthMJ2000Ec", "EarthFixed", "probe", "satA.X", "probe.X"] := by
    decide +kernel
  obtain ⟨hOk, hNames, hKeys⟩ := hRuns
  have h := rename_of_isOk expectantScript "sat1" "probe" hOk
  exact ⟨_, h, ((rename_keeps_objects_iff expectantScript "sat1" "probe").2 _ h).1.mpr hNames, hKeys⟩

/-- The Parameter of the spacecraft takes the name of the one that was mentioned first, whose object
is lost. -/
theorem rename_drops_parameter :
    ∃ s' id, expectantScript.Reachable ∧ expectantScript.rename "sat1" "satA" = (.ok (), s') ∧
      expectantScript.store.objects.get? "satA.X" = some id ∧ id ∉ s'.store.objects.values ∧
      s'.store.objects.size + 1 = expectantScript.store.objects.size := by
  have hRuns : (expectantScript.rename "sat1" "satA").1.isOk = true ∧
      (expectantScript.store.objects.get? "satA.X").isSome = true ∧
      (∀ id ∈ expectantScript.store.objects.get? "satA.X",
        id ∉ (expectantScript.rename "sat1" "satA").2.store.objects.values) ∧
      (expectantScript.rename "sat1" "satA").2.store.objects.size + 1 =
        expectantScript.store.objects.size := by
    decide +kernel
  obtain ⟨hOk, hThere, hLost, hSize⟩ := hRuns
  obtain ⟨id, hId⟩ := Option.isSome_iff_exists.mp hThere
  have hReachable : expectantScript.Reachable := .classify _ _ (.classify _ _ (.add _ (.new _)))
  exact ⟨_, id, hReachable, rename_of_isOk expectantScript "sat1" "satA" hOk, hId, hLost id hId, hSize⟩

end Session

end Mission
