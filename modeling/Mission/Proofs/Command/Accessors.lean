import Mission.Command.Basic
import Mission.Proofs.Accessor.Writing
import Mission.Proofs.Table

/-! The accessors that commands hold. They come from binding a name and go when the command is cleared;
nothing else adds any. -/
namespace Mission

open List

namespace Equation

/-- The accessors of the leaves. -/
def accessors (eq : Equation) : List Accessor :=
  eq.bindings.values.flatMap Option.toList

variable {eq eq' : Equation} {a x : Accessor}

theorem mem_accessors : x ∈ eq.accessors ↔ some x ∈ eq.bindings.values := by
  simp [accessors]

theorem accessors_clear (eq : Equation) : eq.clear.accessors = [] := by
  refine eq_nil_iff_forall_not_mem.mpr fun x hx => ?_
  obtain ⟨entry, hEntry, hValue⟩ := mem_map.mp (mem_accessors.mp hx)
  obtain ⟨old, -, rfl⟩ := mem_map.mp hEntry
  cases hValue

theorem mem_accessors_bind {name : String} (h : x ∈ (eq.bind name a).1.accessors) :
    x = a ∨ x ∈ eq.accessors := by
  unfold bind at h
  split at h
  · rcases Table.mem_values_insert (mem_accessors.mp h) with hNew | hOld
    · exact .inl (Option.some.inj hNew)
    · exact .inr (mem_accessors.mpr hOld)
  · exact .inr h

/-- Making room for the leaves adds no accessor. -/
theorem mem_accessors_elementNames {names : List String} (h : eq.elementNames = .ok (names, eq'))
    (hx : x ∈ eq'.accessors) : x ∈ eq.accessors := by
  have hRoom : ∀ (names : List String) (b : Bindings),
      some x ∈ (names.foldl (fun b name => if b.contains name then b else b.insert name none) b).values →
        some x ∈ b.values := by
    intro names
    induction names with
    | nil => exact fun _ => id
    | cons name rest ih =>
      intro b hMem
      have hNext := ih _ hMem
      dsimp only at hNext
      split at hNext
      · exact hNext
      · exact (Table.mem_values_insert hNext).resolve_left (by simp)
  obtain ⟨f, -, h⟩ := Outcome.bind_eq_ok.mp h
  cases h
  exact mem_accessors.mpr (hRoom _ _ (mem_accessors.mp hx))

theorem mem_accessors_rename {old new : String} (h : x ∈ (eq.rename old new).accessors) :
    ∃ y ∈ eq.accessors, x = y.rename old new := by
  obtain ⟨entry, hEntry, hValue⟩ := mem_map.mp (mem_accessors.mp h)
  obtain ⟨⟨name, b⟩, hOld, rfl⟩ := mem_map.mp (Table.mem_ofPairs hEntry)
  obtain ⟨y, rfl, rfl⟩ := Option.map_eq_some_iff.mp hValue
  exact ⟨y, mem_accessors.mpr (mem_map.mpr ⟨(name, some y), hOld, rfl⟩), rfl⟩

end Equation

namespace Assignment

variable {c c' : Assignment} {a x : Accessor}

theorem mem_accessors :
    x ∈ c.accessors ↔ c.target = some x ∨ c.source = some x ∨ x ∈ c.equation.accessors := by
  rw [accessors, mem_append, mem_append, Option.mem_toList, Option.mem_toList, or_assoc]
  rfl

theorem accessors_clear (c : Assignment) : c.clear.accessors = [] :=
  Equation.accessors_clear c.equation

theorem mem_accessors_bindTarget (h : x ∈ (c.bindTarget a).accessors) : x = a ∨ x ∈ c.accessors := by
  rcases mem_accessors.mp h with hTarget | hSource | hEquation
  · exact .inl (Option.some.inj hTarget).symm
  · exact .inr (mem_accessors.mpr (.inr (.inl hSource)))
  · dsimp only [bindTarget] at hEquation
    split at hEquation
    · exact (Equation.mem_accessors_bind hEquation).imp_right fun hOld =>
        mem_accessors.mpr (.inr (.inr hOld))
    · exact .inr (mem_accessors.mpr (.inr (.inr hEquation)))

theorem mem_accessors_bindSource {name : String} (h : x ∈ (c.bindSource name a).1.accessors) :
    x = a ∨ x ∈ c.accessors := by
  unfold bindSource at h
  split at h
  · rcases mem_accessors.mp h with hTarget | hSource | hEquation
    · exact .inr (mem_accessors.mpr (.inl hTarget))
    · exact .inr (mem_accessors.mpr (.inr (.inl hSource)))
    · exact (Equation.mem_accessors_bind hEquation).imp_right fun hOld =>
        mem_accessors.mpr (.inr (.inr hOld))
  · split at h
    · rcases mem_accessors.mp h with hTarget | hSource | hEquation
      · exact .inr (mem_accessors.mpr (.inl hTarget))
      · exact .inl (Option.some.inj hSource).symm
      · exact .inr (mem_accessors.mpr (.inr (.inr hEquation)))
    · exact .inr h

theorem mem_accessors_sourceNames {names : List String} (h : c.sourceNames = .ok (names, c'))
    (hx : x ∈ c'.accessors) : x ∈ c.accessors := by
  unfold sourceNames at h
  split at h
  · obtain ⟨⟨names', eq⟩, hNames, h⟩ := Outcome.bind_eq_ok.mp h
    cases h
    rcases mem_accessors.mp hx with hTarget | hSource | hEquation
    · exact mem_accessors.mpr (.inl hTarget)
    · exact mem_accessors.mpr (.inr (.inl hSource))
    · refine mem_accessors.mpr (.inr (.inr ?_))
      exact Equation.mem_accessors_elementNames (CommandError.liftMath_eq_ok.mp hNames) hEquation
  · cases h
    exact hx

theorem mem_accessors_rename {old new : String} (h : x ∈ (c.rename old new).accessors) :
    ∃ y ∈ c.accessors, x = y.rename old new := by
  rcases mem_accessors.mp h with hTarget | hSource | hEquation
  · obtain ⟨y, hy, rfl⟩ := Option.map_eq_some_iff.mp hTarget
    exact ⟨y, mem_accessors.mpr (.inl hy), rfl⟩
  · obtain ⟨y, hy, rfl⟩ := Option.map_eq_some_iff.mp hSource
    exact ⟨y, mem_accessors.mpr (.inr (.inl hy)), rfl⟩
  · obtain ⟨y, hy, rfl⟩ := Equation.mem_accessors_rename hEquation
    exact ⟨y, mem_accessors.mpr (.inr (.inr hy)), rfl⟩

end Assignment

namespace Slot

variable {slots : List Slot} {a x : Accessor}

theorem mem_accessors : x ∈ accessors slots ↔ ∃ s ∈ slots, s.accessor = some x := by
  simp [accessors]

theorem accessors_clear (slots : List Slot) : accessors (slots.map clear) = [] := by
  refine eq_nil_iff_forall_not_mem.mpr fun x hx => ?_
  obtain ⟨s, hs, hAccessor⟩ := mem_accessors.mp hx
  obtain ⟨old, -, rfl⟩ := mem_map.mp hs
  cases hAccessor

theorem mem_accessors_bind {name : String} (h : x ∈ accessors (slots.map (bind name a))) :
    x = a ∨ x ∈ accessors slots := by
  obtain ⟨s, hs, hAccessor⟩ := mem_accessors.mp h
  obtain ⟨old, hOld, rfl⟩ := mem_map.mp hs
  unfold bind at hAccessor
  split at hAccessor
  · exact .inl (Option.some.inj hAccessor).symm
  · exact .inr (mem_accessors.mpr ⟨old, hOld, hAccessor⟩)

theorem mem_accessors_rename {old new : String} (h : x ∈ accessors (slots.map (rename old new))) :
    ∃ y ∈ accessors slots, x = y.rename old new := by
  obtain ⟨s, hs, hAccessor⟩ := mem_accessors.mp h
  obtain ⟨slot, hSlot, rfl⟩ := mem_map.mp hs
  obtain ⟨y, hy, rfl⟩ := Option.map_eq_some_iff.mp hAccessor
  exact ⟨y, mem_accessors.mpr ⟨slot, hSlot, hy⟩, rfl⟩

end Slot

namespace Chain

variable {chain : Chain} {a x : Accessor}

theorem mem_accessors :
    x ∈ chain.accessors ↔ ∃ c ∈ chain.conditions, c.left = some x ∨ c.right = some x := by
  simp [accessors, Condition.accessors]

theorem accessors_clear (chain : Chain) : chain.clear.accessors = [] := by
  refine eq_nil_iff_forall_not_mem.mpr fun x hx => ?_
  obtain ⟨c, hc, hAccessor⟩ := mem_accessors.mp hx
  obtain ⟨old, -, rfl⟩ := mem_map.mp hc
  rcases hAccessor with hAccessor | hAccessor <;> cases hAccessor

theorem mem_accessors_bind {name : String} (h : x ∈ (chain.bind name a).1.accessors) :
    x = a ∨ x ∈ chain.accessors := by
  obtain ⟨c, hc, hAccessor⟩ := mem_accessors.mp h
  obtain ⟨old, hOld, rfl⟩ := mem_map.mp hc
  rcases hAccessor with hLeft | hRight
  · dsimp only [Condition.bind] at hLeft
    split at hLeft
    · exact .inl (Option.some.inj hLeft).symm
    · exact .inr (mem_accessors.mpr ⟨old, hOld, .inl hLeft⟩)
  · dsimp only [Condition.bind] at hRight
    split at hRight
    · exact .inl (Option.some.inj hRight).symm
    · exact .inr (mem_accessors.mpr ⟨old, hOld, .inr hRight⟩)

theorem mem_accessors_rename {old new : String} (h : x ∈ (chain.rename old new).accessors) :
    ∃ y ∈ chain.accessors, x = y.rename old new := by
  obtain ⟨c, hc, hAccessor⟩ := mem_accessors.mp h
  obtain ⟨condition, hCondition, rfl⟩ := mem_map.mp hc
  rcases hAccessor with hLeft | hRight
  · obtain ⟨y, hy, rfl⟩ := Option.map_eq_some_iff.mp hLeft
    exact ⟨y, mem_accessors.mpr ⟨condition, hCondition, .inl hy⟩, rfl⟩
  · obtain ⟨y, hy, rfl⟩ := Option.map_eq_some_iff.mp hRight
    exact ⟨y, mem_accessors.mpr ⟨condition, hCondition, .inr hy⟩, rfl⟩

end Chain

namespace Command

variable {c d : Command} {rest cs : List Command}

/-- The commands inside a command. -/
def inner : Command → List Command
  | branch _ _ body otherwise _ => body ++ otherwise
  | assignment _ _ | report _ _ | propagate _ _ | call _ _ => []

/-- The command is one of the commands or occurs inside one of them. -/
inductive Occurs (c : Command) : List Command → Prop
  | here {rest : List Command} : Occurs c (c :: rest)
  | inside {d : Command} {rest : List Command} : Occurs c d.inner → Occurs c (d :: rest)
  | later {d : Command} {rest : List Command} : Occurs c rest → Occurs c (d :: rest)

theorem occurs_cons : Occurs c (d :: rest) ↔ c = d ∨ Occurs c d.inner ∨ Occurs c rest := by
  constructor
  · intro h
    cases h with
    | here => exact .inl rfl
    | inside h => exact .inr (.inl h)
    | later h => exact .inr (.inr h)
  · rintro (rfl | h | h)
    · exact .here
    · exact .inside h
    · exact .later h

theorem not_occurs_nil : ¬ Occurs c [] := by
  intro h
  cases h

/-- What occurs in the first command occurs in the commands. -/
theorem Occurs.first (h : Occurs c [d]) : Occurs c (d :: rest) := by
  rcases occurs_cons.mp h with rfl | hInside | hNone
  · exact .here
  · exact .inside hInside
  · exact absurd hNone not_occurs_nil

theorem occurs_append {ds : List Command} : Occurs c (cs ++ ds) ↔ Occurs c cs ∨ Occurs c ds := by
  induction cs with
  | nil => simp [not_occurs_nil]
  | cons d rest ih => rw [cons_append, occurs_cons, occurs_cons, ih, or_assoc, or_assoc]

mutual

/-- A command followed by the commands inside it. -/
def preorder : Command → List Command
  | branch kind chain body otherwise line =>
    branch kind chain body otherwise line :: (preorderAll body ++ preorderAll otherwise)
  | assignment a line => [assignment a line]
  | report c line => [report c line]
  | propagate c line => [propagate c line]
  | call c line => [call c line]

/-- The commands of a script in the order in which they are written. -/
def preorderAll : List Command → List Command
  | [] => []
  | c :: rest => preorder c ++ preorderAll rest

end

theorem length_preorder_pos (c : Command) : 0 < c.preorder.length := by
  cases c <;> rw [preorder] <;> exact Nat.succ_pos _

theorem preorderAll_append (cs ds : List Command) :
    preorderAll (cs ++ ds) = preorderAll cs ++ preorderAll ds := by
  induction cs with
  | nil => rfl
  | cons c rest ih => rw [cons_append, preorderAll, preorderAll, ih, append_assoc]

theorem preorder_eq_cons (c : Command) : c.preorder = c :: preorderAll c.inner := by
  cases c with
  | branch kind chain body otherwise line => rw [preorder, inner, preorderAll_append]
  | _ => rfl

theorem Occurs.mem_preorderAll (h : Occurs c cs) : c ∈ preorderAll cs := by
  induction h with
  | here =>
    rw [preorderAll, preorder_eq_cons]
    exact mem_append_left _ mem_cons_self
  | inside _ ih =>
    rw [preorderAll, preorder_eq_cons]
    exact mem_append_left _ (mem_cons_of_mem _ ih)
  | later _ ih =>
    rw [preorderAll]
    exact mem_append_right _ ih

theorem slots_mapStop (c : Propagate) (f : Slot → Slot) : (c.mapStop f).slots = c.slots.map f := by
  unfold Propagate.slots Propagate.mapStop
  cases c.stop <;> rfl

theorem slots_mapSlots (c : Call) (f : Slot → Slot) : (c.mapSlots f).slots = c.slots.map f := by
  rw [Call.slots, Call.slots, map_append, Call.mapSlots]

theorem accessors_clear (c : Command) : c.clear.accessors = [] := by
  cases c with
  | assignment c line => exact Assignment.accessors_clear c
  | branch kind chain body otherwise line => exact Chain.accessors_clear chain
  | report c line => exact Slot.accessors_clear c.slots
  | propagate c line => rw [clear, accessors, slots_mapStop, Slot.accessors_clear]
  | call c line => rw [clear, accessors, slots_mapSlots, Slot.accessors_clear]

theorem mem_accessors_bind {c : Command} {name : String} {a x : Accessor}
    (h : x ∈ (c.bind name a).1.accessors) : x = a ∨ x ∈ c.accessors := by
  cases c with
  | assignment c line => exact Assignment.mem_accessors_bindSource h
  | branch kind chain body otherwise line => exact Chain.mem_accessors_bind h
  | report c line => exact Slot.mem_accessors_bind h
  | propagate c line =>
    rw [bind, accessors, slots_mapStop] at h
    exact Slot.mem_accessors_bind h
  | call c line =>
    rw [bind, accessors, slots_mapSlots] at h
    exact Slot.mem_accessors_bind h

theorem inner_clear (c : Command) : c.clear.inner = c.inner := by
  cases c <;> rfl

theorem inner_bind (c : Command) (name : String) (a : Accessor) : (c.bind name a).1.inner = c.inner := by
  cases c <;> rfl

theorem mem_accessors_rename {c : Command} {old new : String} {x : Accessor}
    (h : x ∈ (c.rename old new).accessors) : ∃ y ∈ c.accessors, x = y.rename old new := by
  cases c with
  | assignment c line => exact Assignment.mem_accessors_rename h
  | branch kind chain body otherwise line => exact Chain.mem_accessors_rename h
  | report c line => exact Slot.mem_accessors_rename h
  | propagate c line =>
    have hSlots := slots_mapStop c (Slot.rename old new)
    change x ∈ Slot.accessors (c.mapStop (Slot.rename old new)).slots at h
    rw [hSlots] at h
    exact Slot.mem_accessors_rename h
  | call c line =>
    rw [rename, accessors, slots_mapSlots] at h
    exact Slot.mem_accessors_rename h

theorem renameAll_eq_map (old new : String) (cs : List Command) :
    renameAll old new cs = cs.map (rename old new) := by
  induction cs with
  | nil => rw [renameAll, map_nil]
  | cons c rest ih => rw [renameAll, ih, map_cons]

theorem inner_rename (c : Command) (old new : String) :
    (c.rename old new).inner = c.inner.map (rename old new) := by
  cases c with
  | branch kind chain body otherwise line =>
    rw [rename, inner, inner, renameAll_eq_map, renameAll_eq_map, map_append]
  | assignment c line => rfl
  | report c line => rfl
  | propagate c line => rfl
  | call c line => rfl

theorem exists_of_occurs_rename {old new : String} (h : Occurs c (cs.map (rename old new))) :
    ∃ d, Occurs d cs ∧ c = d.rename old new := by
  generalize hRenamed : cs.map (rename old new) = ds at h
  induction h generalizing cs with
  | here =>
    cases cs with
    | nil => cases hRenamed
    | cons d rest =>
      cases hRenamed
      exact ⟨d, .here, rfl⟩
  | inside hInner ih =>
    cases cs with
    | nil => cases hRenamed
    | cons d rest =>
      cases hRenamed
      obtain ⟨e, he, hSame⟩ := ih (inner_rename d old new).symm
      exact ⟨e, .inside he, hSame⟩
  | later hRest ih =>
    cases cs with
    | nil => cases hRenamed
    | cons d rest =>
      cases hRenamed
      obtain ⟨e, he, hSame⟩ := ih rfl
      exact ⟨e, .later he, hSame⟩

end Command

end Mission
