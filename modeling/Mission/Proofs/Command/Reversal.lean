import Mission.Proofs.Command.Accessors
import Mission.Proofs.Name.Reversal

/-! Commands that are renamed there and back. All the texts of a command are renamed by the same
scan, each on its own, so a command is restored where the new name stands in none of them. -/
namespace Mission

open Name Accessor Option

namespace Name

/-- The name is an identifier in none of the texts. -/
def Lacks (name : String) (texts : List String) : Prop :=
  ∀ text ∈ texts, name ∉ identifiers text

instance (name : String) (texts : List String) : Decidable (Lacks name texts) :=
  inferInstanceAs (Decidable (∀ text ∈ texts, name ∉ identifiers text))

variable {name text : String} {texts texts' : List String}

@[simp] theorem lacks_cons : Lacks name (text :: texts) ↔ name ∉ identifiers text ∧ Lacks name texts := by
  simp [Lacks]

@[simp] theorem lacks_append : Lacks name (texts ++ texts') ↔ Lacks name texts ∧ Lacks name texts' := by
  simp [Lacks, or_imp, forall_and]

/-- A name is in none of many texts if it is in none of those of any item. -/
theorem lacks_flatMap {α : Type} {items : List α} {f : α → List String} :
    Lacks name (items.flatMap f) ↔ ∀ item ∈ items, Lacks name (f item) := by
  simp only [Lacks, List.mem_flatMap]
  exact ⟨fun h item hItem text hText => h text ⟨item, hItem, hText⟩,
    fun h text ⟨item, hItem, hText⟩ => h item hItem text hText⟩

/-- The names are identifiers, so that the rename from one to the other can be reversed. -/
structure Reversible (old new : String) : Prop where
  old : IsIdentifier old.toList
  new : IsIdentifier new.toList

/-- A text without the new name comes back as it was. -/
theorem Reversible.replace {old new : String} (h : Reversible old new) (hText : new ∉ identifiers text) :
    replace (replace text old new) new old = text :=
  replace_replace h.old h.new hText

end Name

variable {old new : String}

namespace Accessor

/-- The texts of an accessor. -/
def texts : Accessor → List String
  | number d _ | string d _ | boolean d _ | onOff d _ | whole d _ _ => [d]
  | property d p => [d, p.owner, p.part]
  | element d name _ row column => d :: name :: (row.texts ++ column.texts)

/-- The texts of an accessor come back, those of its indices with them. -/
theorem rename_rename (hNames : Reversible old new) {a : Accessor} (h : Lacks new a.texts) :
    (a.rename old new).rename new old = a := by
  induction a with
  | property d p =>
    simp only [texts, lacks_cons] at h
    simp only [rename, hNames.replace h.1, hNames.replace h.2.1, hNames.replace h.2.2.1]
  | element d name array row column ihRow ihColumn =>
    simp only [texts, lacks_cons, lacks_append] at h
    simp only [rename, hNames.replace h.1, hNames.replace h.2.1, ihRow h.2.2.1, ihColumn h.2.2.2]
  | number d x | string d x | boolean d x | onOff d x | whole d x y =>
    simp only [texts, lacks_cons] at h
    simp only [rename, hNames.replace h.1]

/-- The texts of an accessor that may be missing. -/
def textsOf (a : Option Accessor) : List String :=
  a.toList.flatMap texts

/-- A place of a command comes back, filled or not. -/
theorem map_rename_rename (hNames : Reversible old new) {a : Option Accessor} (h : Lacks new (textsOf a)) :
    (a.map (rename old new)).map (rename new old) = a := by
  cases a with
  | none => rfl
  | some a =>
    rw [textsOf, toList_some, List.flatMap_singleton] at h
    rw [map_some, map_some, rename_rename hNames h]

end Accessor

/-- Only the leaves of an expression are renamed. -/
theorem Expr.rename_rename (hNames : Reversible old new) {e : Expr} (h : Lacks new e.leaves) :
    (e.rename old new).rename new old = e := by
  induction e with
  | number x | string text => rfl
  | element name =>
    simp only [leaves, lacks_cons] at h
    rw [rename, rename, hNames.replace h.1]
  | negate e ih | call f e ih => rw [rename, rename, ih h]
  | binary op left right ihLeft ihRight =>
    rw [leaves, lacks_append] at h
    rw [rename, rename, ihLeft h.1, ihRight h.2]
  | atan2 y x ihY ihX =>
    rw [leaves, lacks_append] at h
    rw [rename, rename, ihY h.1, ihX h.2]

namespace Equation

/-- The text of the expression, its leaves, and the leaves that have room for an accessor. -/
def texts (eq : Equation) : List String :=
  eq.formula.toList.flatMap (fun f => f.text :: f.expr.leaves) ++
    eq.bindings.entries.flatMap fun entry => entry.1 :: Accessor.textsOf entry.2

/-- No two leaves become one on the way, so every leaf has its accessor again. -/
theorem rename_rename (hNames : Reversible old new) {eq : Equation} (hKeys : eq.bindings.keys.Nodup)
    (h : Lacks new eq.texts) : (eq.rename old new).rename new old = eq := by
  obtain ⟨formula, bindings⟩ := eq
  rw [texts, lacks_append, lacks_flatMap, lacks_flatMap] at h
  obtain ⟨hFormula, hBindings⟩ := h
  have hTree : (formula.map fun f => f.rename old new).map (fun f => f.rename new old) = formula := by
    cases formula with
    | none => rfl
    | some f =>
      have hf := lacks_cons.mp (hFormula f (List.mem_singleton.mpr rfl))
      rw [map_some, map_some, Formula.rename, Formula.rename, hNames.replace hf.1,
        Expr.rename_rename hNames hf.2]
  have hTable := Table.ofPairs_ofPairs (f := fun name => replace name old new)
    (g := fun name => replace name new old) (F := Option.map (Accessor.rename old new))
    (G := Option.map (Accessor.rename new old)) hKeys
    (fun entry hEntry => hNames.replace (lacks_cons.mp (hBindings entry hEntry)).1)
    (fun entry hEntry => Accessor.map_rename_rename hNames (lacks_cons.mp (hBindings entry hEntry)).2)
  rw [rename, rename, hTree]
  exact congrArg _ hTable

end Equation

namespace Assignment

def texts (a : Assignment) : List String :=
  a.lhs :: a.rhs :: (Accessor.textsOf a.target ++ (Accessor.textsOf a.source ++ a.equation.texts))

/-- Both sides of an assignment come back, with all their accessors. -/
theorem rename_rename (hNames : Reversible old new) {a : Assignment}
    (hKeys : a.equation.bindings.keys.Nodup) (h : Lacks new a.texts) :
    (a.rename old new).rename new old = a := by
  simp only [texts, lacks_cons, lacks_append] at h
  obtain ⟨hLhs, hRhs, hTarget, hSource, hEquation⟩ := h
  simp only [rename, hNames.replace hLhs, hNames.replace hRhs, map_rename_rename hNames hTarget,
    map_rename_rename hNames hSource, Equation.rename_rename hNames hKeys hEquation]

end Assignment

namespace Slot

def texts (s : Slot) : List String :=
  s.name :: Accessor.textsOf s.accessor

theorem rename_rename (hNames : Reversible old new) {s : Slot} (h : Lacks new s.texts) :
    (s.rename old new).rename new old = s := by
  rw [texts, lacks_cons] at h
  simp only [rename, hNames.replace h.1, map_rename_rename hNames h.2]

/-- Slots come back one by one, since each is renamed on its own. -/
theorem map_rename_rename (hNames : Reversible old new) {slots : List Slot}
    (h : Lacks new (slots.flatMap texts)) : (slots.map (rename old new)).map (rename new old) = slots := by
  rw [lacks_flatMap] at h
  rw [List.map_map]
  exact (List.map_congr_left fun s hs => rename_rename hNames (h s hs)).trans (List.map_id _)

end Slot

namespace Chain

def texts (chain : Chain) : List String :=
  chain.conditions.flatMap fun c =>
    c.lhs :: c.rhs :: (Accessor.textsOf c.left ++ Accessor.textsOf c.right)

/-- The comparisons of a chain come back; its operators never change. -/
theorem rename_rename (hNames : Reversible old new) {chain : Chain} (h : Lacks new chain.texts) :
    (chain.rename old new).rename new old = chain := by
  rw [texts, lacks_flatMap] at h
  have hEach : ∀ c ∈ chain.conditions, (c.rename old new).rename new old = c := by
    intro c hc
    have hTexts := h c hc
    simp only [lacks_cons, lacks_append] at hTexts
    obtain ⟨hLhs, hRhs, hLeft, hRight⟩ := hTexts
    simp only [Condition.rename, hNames.replace hLhs, hNames.replace hRhs,
      map_rename_rename hNames hLeft, map_rename_rename hNames hRight]
  have hAll : (chain.conditions.map fun c => c.rename old new).map (fun c => c.rename new old) =
      chain.conditions := by
    rw [List.map_map]
    exact (List.map_congr_left hEach).trans (List.map_id _)
  rw [rename, rename, hAll]

end Chain

namespace Command

/-- The texts of a command, without those of the commands inside it and without the name of a
function. -/
def texts : Command → List String
  | assignment a _ => a.texts
  | branch _ chain _ _ _ => chain.texts
  | report c _ => c.subscriber :: c.slots.flatMap Slot.texts
  | propagate c _ => c.propagator :: (c.spacecraft ++ c.slots.flatMap Slot.texts)
  | call c _ => c.inputs.flatMap Slot.texts ++ c.outputs.flatMap Slot.texts

/-- The accessors of the leaves, if the command is an equation. -/
def bindings : Command → Bindings
  | assignment a _ => a.equation.bindings
  | branch _ _ _ _ _ | report _ _ | propagate _ _ | call _ _ => {}

/-- The name is new to the command, and no leaf of the command is listed twice. -/
structure Restorable (new : String) (c : Command) : Prop where
  lacks : Lacks new c.texts
  keys : c.bindings.keys.Nodup

/-- The two slots of a stopping condition come back. -/
theorem mapStop_rename_rename (hNames : Reversible old new) {c : Propagate}
    (h : Lacks new (c.slots.flatMap Slot.texts)) :
    (c.mapStop (Slot.rename old new)).mapStop (Slot.rename new old) = c := by
  obtain ⟨propagator, spacecraft, stop⟩ := c
  cases stop with
  | none => rfl
  | some pair =>
    simp only [Propagate.slots, List.flatMap_cons, List.flatMap_nil, List.append_nil, lacks_append] at h
    simp only [Propagate.mapStop, map_some, Slot.rename_rename hNames h.1,
      Slot.rename_rename hNames h.2]

mutual

/-- A command comes back with all commands inside it, whatever it calls. -/
theorem rename_rename (hNames : Reversible old new) :
    (c : Command) → (∀ d ∈ c.preorder, d.Restorable new) → (c.rename old new).rename new old = c
  | assignment a line, h => by
      have ha := h (assignment a line) (by simp [preorder])
      rw [rename, rename, Assignment.rename_rename hNames ha.keys ha.lacks]
  | branch kind chain body otherwise line, h => by
      have hHere := h (branch kind chain body otherwise line) (by simp [preorder])
      have hBody := renameAll_renameAll hNames body fun d hd => h d (by simp [preorder, hd])
      have hOtherwise := renameAll_renameAll hNames otherwise fun d hd => h d (by simp [preorder, hd])
      rw [rename, rename, Chain.rename_rename hNames hHere.lacks, hBody, hOtherwise]
  | report c line, h => by
      have hLacks := (h (report c line) (by simp [preorder])).lacks
      rw [texts, lacks_cons] at hLacks
      rw [rename, rename, hNames.replace hLacks.1, Slot.map_rename_rename hNames hLacks.2]
  | propagate c line, h => by
      have hLacks := (h (propagate c line) (by simp [preorder])).lacks
      rw [texts, lacks_cons, lacks_append] at hLacks
      obtain ⟨hPropagator, hSpacecraft, hSlots⟩ := hLacks
      have hNamed : (c.spacecraft.map fun name => replace name old new).map
          (fun name => replace name new old) = c.spacecraft := by
        rw [List.map_map]
        exact (List.map_congr_left fun name hName => hNames.replace (hSpacecraft name hName)).trans
          (List.map_id _)
      have hStop := congrArg Propagate.stop (mapStop_rename_rename hNames hSlots)
      obtain ⟨propagator, spacecraft, stop⟩ := c
      dsimp only [Propagate.mapStop] at hStop
      simp only [rename, Propagate.mapStop, hNames.replace hPropagator, hNamed, hStop]
  | call c line, h => by
      have hLacks := (h (call c line) (by simp [preorder])).lacks
      rw [texts, lacks_append] at hLacks
      simp only [rename, Call.mapSlots, Slot.map_rename_rename hNames hLacks.1,
        Slot.map_rename_rename hNames hLacks.2]

theorem renameAll_renameAll (hNames : Reversible old new) :
    (cs : List Command) → (∀ d ∈ preorderAll cs, d.Restorable new) →
      renameAll new old (renameAll old new cs) = cs
  | [], _ => rfl
  | c :: rest, h => by
      have hFirst := rename_rename hNames c fun d hd => h d (by simp [preorderAll, hd])
      have hRest := renameAll_renameAll hNames rest fun d hd => h d (by simp [preorderAll, hd])
      rw [renameAll, renameAll, hFirst, hRest]

end

end Command

end Mission
