import Mission.Proofs.Accessor.Likeness
import Mission.Proofs.Command.Reversal
import Mission.Proofs.Execution.Likeness

/-! Commands and their renamed counterparts. All texts are replaced, and the accessors correspond.
The leaves of an equation are looked up by name, and they are found under the new names as they were
under the old ones, because no two names become one. -/
namespace Mission

open Name Outcome

variable {old new : String}

theorem Name.replace_inj (hNames : Reversible old new) {text text' : String} (h : new ∉ identifiers text)
    (h' : new ∉ identifiers text') : replace text old new = replace text' old new ↔ text = text' := by
  constructor
  · intro hSame
    rw [← hNames.replace h, hSame, hNames.replace h']
  · rintro rfl
    rfl

/-- What a table has under a name, the table with the replaced keys has under the replaced name. -/
theorem Table.get?_of_replaced (hNames : Reversible old new) {α β : Type} {S : α → β → Prop} {t : Table α}
    {t' : Table β}
    (h : List.Forall₂ (fun e e' => e'.1 = replace e.1 old new ∧ S e.2 e'.2) t.entries t'.entries)
    (hKeys : Lacks new t.keys) {name : String} (hName : new ∉ identifiers name) :
    Option.Rel S (t.get? name) (t'.get? (replace name old new)) := by
  obtain ⟨entries⟩ := t
  obtain ⟨entries'⟩ := t'
  dsimp only at h
  induction h with
  | nil => exact .none
  | @cons e e' rest rest' hHead _ ih =>
    obtain ⟨key, a⟩ := e
    obtain ⟨key', b⟩ := e'
    obtain ⟨rfl, hRel⟩ := hHead
    obtain ⟨hKey, hRest⟩ := lacks_cons.mp hKeys
    have hIff := replace_inj hNames hName hKey
    rw [Table.get?, Table.get?, List.lookup_cons, List.lookup_cons]
    by_cases hSame : name = key
    · rw [beq_iff_eq.mpr hSame, beq_iff_eq.mpr (hIff.mpr hSame)]
      exact .some hRel
    · rw [beq_eq_false_iff_ne.mpr hSame, beq_eq_false_iff_ne.mpr fun h => hSame (hIff.mp h)]
      exact ih hRest

/-- No leaf of the expression, with or without an accessor, mentions the name. -/
def Equation.LacksLeaf (new : String) (eq : Equation) : Prop :=
  Lacks new eq.bindings.keys ∧ ∀ f, eq.formula = some f → Lacks new f.expr.leaves

theorem Expr.alike_of_bindings {b b' : Bindings} (h : ∀ {name}, new ∉ identifiers name →
    Option.Rel (Option.Rel (Accessor.Alike old)) (b.get? name) (b'.get? (replace name old new))) {e : Expr}
    (hLeaves : Lacks new e.leaves) : Expr.Alike old b b' e (e.rename old new) := by
  induction e with
  | number x => exact .number x
  | string text => exact .string text
  | element name =>
    refine .element fun {a} ha => ?_
    have hGet := h (lacks_cons.mp hLeaves).1
    rw [ha] at hGet
    generalize b'.get? (replace name old new) = x at hGet
    cases hGet with
    | some hGet =>
      cases hGet with
      | some hAlike => exact ⟨_, rfl, hAlike⟩
  | negate e ih => exact .negate (ih hLeaves)
  | binary op left right ihLeft ihRight =>
    obtain ⟨hLeft, hRight⟩ := lacks_append.mp hLeaves
    exact .binary op (ihLeft hLeft) (ihRight hRight)
  | call f e ih => exact .call f (ih hLeaves)
  | atan2 y x ihY ihX =>
    obtain ⟨hy, hx⟩ := lacks_append.mp hLeaves
    exact .atan2 (ihY hy) (ihX hx)

/-! ### Renamed commands -/

theorem rel_map_rename (a : Option Accessor) :
    Option.Rel (Accessor.Alike old) a (a.map (Accessor.rename old new)) := by
  cases a with
  | none => exact .none
  | some a => exact .some (a.alike_rename old new)

theorem Slot.alike_rename (slots : List Slot) :
    List.Forall₂ (Slot.Alike old) slots (slots.map (Slot.rename old new)) := by
  induction slots with
  | nil => exact .nil
  | cons slot rest ih => exact .cons (rel_map_rename _) ih

theorem Chain.alike_rename (chain : Chain) : chain.Alike old (chain.rename old new) := by
  refine ⟨rfl, ?_⟩
  rw [Chain.rename]
  induction chain.conditions with
  | nil => exact .nil
  | cons c rest ih => exact .cons ⟨rfl, rel_map_rename _, rel_map_rename _⟩ ih

theorem Equation.alike_rename (hNames : Reversible old new) {eq : Equation} (hKeys : eq.bindings.keys.Nodup)
    (hLacks : eq.LacksLeaf new) : eq.Alike old (eq.rename old new) := by
  have hFormula : (eq.rename old new).formula = eq.formula.map fun f => f.rename old new := rfl
  refine ⟨by rw [hFormula, Option.isSome_map], fun {f f'} hf hf' => ?_⟩
  rw [hFormula, hf, Option.map_some, Option.some.injEq] at hf'
  subst hf'
  refine Expr.alike_of_bindings (fun hName => Table.get?_of_replaced hNames ?_ hLacks.1 hName) (hLacks.2 f hf)
  have hDistinct := Table.nodup_keys_map (f := fun name => replace name old new)
    (g := fun name => replace name new old) (Option.map (Accessor.rename old new)) hKeys
    fun entry hEntry => hNames.replace (hLacks.1 entry.1 (List.mem_map_of_mem hEntry))
  rw [Equation.rename, Table.ofPairs_of_nodup hDistinct]
  generalize eq.bindings.entries = entries
  induction entries with
  | nil => exact .nil
  | cons entry rest ih => exact .cons ⟨rfl, rel_map_rename _⟩ ih

theorem Equation.lacksLeaf_of_texts {eq : Equation} (h : Lacks new eq.texts) : eq.LacksLeaf new := by
  rw [texts, lacks_append, lacks_flatMap, lacks_flatMap] at h
  refine ⟨fun key hKey => ?_, fun f hf => ?_⟩
  · obtain ⟨entry, hEntry, rfl⟩ := List.mem_map.mp hKey
    exact (lacks_cons.mp (h.2 entry hEntry)).1
  · exact (lacks_cons.mp (h.1 f (by simp [hf]))).2

def Command.isCall : Command → Bool
  | .call _ _ => true
  | _ => false

mutual

theorem Command.alike_rename (hNames : Reversible old new) :
    (c : Command) → (∀ d ∈ c.preorder, d.Restorable new ∧ d.isCall = false) → c.Alike old (c.rename old new)
  | .assignment a line, h => by
      obtain ⟨⟨hTexts, hKeys⟩, -⟩ := h (.assignment a line) (by simp [preorder])
      have hLacks : a.equation.LacksLeaf new := by
        simp only [texts, Assignment.texts, lacks_cons, lacks_append] at hTexts
        exact Equation.lacksLeaf_of_texts hTexts.2.2.2.2
      exact .assignment line ⟨rel_map_rename _, rel_map_rename _, Equation.alike_rename hNames hKeys hLacks⟩
  | .branch kind chain body otherwise line, h =>
    .branch kind line (Chain.alike_rename chain)
      (Command.alike_renameAll hNames body fun d hd => h d (by simp [preorder, hd]))
      (Command.alike_renameAll hNames otherwise fun d hd => h d (by simp [preorder, hd]))
  | .report c line, _ => .report line (Slot.alike_rename c.slots)
  | .propagate c line, _ => .propagate c _ line
  | .call c line, h => absurd (h (.call c line) (by simp [preorder])).2 (by simp [isCall])

theorem Command.alike_renameAll (hNames : Reversible old new) :
    (cs : List Command) → (∀ d ∈ preorderAll cs, d.Restorable new ∧ d.isCall = false) →
      AllAlike old cs (renameAll old new cs)
  | [], _ => .nil
  | c :: rest, h =>
    .cons (Command.alike_rename hNames c fun d hd => h d (by simp [preorderAll, hd]))
      (Command.alike_renameAll hNames rest fun d hd => h d (by simp [preorderAll, hd]))

end

end Mission
