/-! Sequences that grow at the end. An item is found and changed along a path of a binary tree, so an
older version of a sequence can be kept beside a newer one, and neither is ever copied. The tree is no
part of the meaning: a sequence is what `get?` says of it. -/
namespace Mission

/-- A binary tree of items. The first item stands at the root, and the others alternate between the
two sides. -/
inductive ItemTree (α : Type)
  | leaf
  | node (item : α) (left right : ItemTree α)

namespace ItemTree

variable {α : Type}

def get? : ItemTree α → Nat → Option α
  | leaf, _ => none
  | node item _ _, 0 => some item
  | node _ left right, i + 1 => if i % 2 = 0 then left.get? (i / 2) else right.get? (i / 2)

def modify (f : α → α) : ItemTree α → Nat → ItemTree α
  | leaf, _ => leaf
  | node item left right, 0 => node (f item) left right
  | node item left right, i + 1 =>
    if i % 2 = 0 then node item (left.modify f (i / 2)) right
    else node item left (right.modify f (i / 2))

/-- Adds an item behind the `n` items of the tree. -/
def push (x : α) : ItemTree α → (n : Nat) → ItemTree α
  | leaf, _ => node x leaf leaf
  | node item left right, n =>
    if (n - 1) % 2 = 0 then node item (left.push x ((n - 1) / 2)) right
    else node item left (right.push x ((n - 1) / 2))

/-- Whether the places that hold an item are exactly the first `n`. -/
def Fills (t : ItemTree α) (n : Nat) : Prop :=
  ∀ i, (t.get? i).isSome ↔ i < n

theorem fills_leaf : (leaf : ItemTree α).Fills 0 := by
  intro i
  simp [get?]

theorem get?_modify (f : α → α) (t : ItemTree α) (i j : Nat) :
    (t.modify f i).get? j = if j = i then (t.get? j).map f else t.get? j := by
  induction t generalizing i j with
  | leaf => simp [modify, get?]
  | node item left right ihLeft ihRight => cases i <;> cases j <;> grind [modify, get?]

theorem fills_modify {t : ItemTree α} {n : Nat} (h : t.Fills n) (f : α → α) (i : Nat) :
    (t.modify f i).Fills n := by
  intro j
  rw [get?_modify, ← h j]
  split <;> simp

theorem fills_left {item : α} {left right : ItemTree α} {n : Nat}
    (h : (node item left right).Fills n) (hn : (n - 1) % 2 = 0) : left.Fills ((n - 1) / 2) := by
  intro k
  have hk := h (2 * k + 1)
  have hz := h 0
  have hd : 2 * k / 2 = k := by omega
  simp only [get?, Nat.mul_mod_right, if_true, hd] at hk
  simp only [get?, Option.isSome_some, true_iff] at hz
  rw [hk]
  omega

theorem fills_right {item : α} {left right : ItemTree α} {n : Nat}
    (h : (node item left right).Fills n) : right.Fills ((n - 1) / 2) := by
  intro k
  have hk := h (2 * k + 1 + 1)
  have hz := h 0
  have hm : ¬ (2 * k + 1) % 2 = 0 := by omega
  have hd : (2 * k + 1) / 2 = k := by omega
  simp only [get?, if_neg hm, hd] at hk
  simp only [get?, Option.isSome_some, true_iff] at hz
  rw [hk]
  omega

theorem get?_push (x : α) {t : ItemTree α} {n : Nat} (h : t.Fills n) (i : Nat) :
    (t.push x n).get? i = if i = n then some x else t.get? i := by
  induction t generalizing n i with
  | leaf =>
    have hn : ¬0 < n := fun hn => absurd ((h 0).mpr hn) Bool.false_ne_true
    cases i <;> grind [push, get?]
  | node item left right ihLeft ihRight =>
    have hn : 0 < n := (h 0).mp rfl
    cases i <;> grind [push, get?, fills_left, fills_right]

theorem fills_push (x : α) {t : ItemTree α} {n : Nat} (h : t.Fills n) :
    (t.push x n).Fills (n + 1) := by
  intro i
  rw [get?_push x h]
  split
  · simp
    omega
  · rw [h i]
    omega

end ItemTree

structure Sequence (α : Type) where
  size : Nat
  tree : ItemTree α
  filled : tree.Fills size

namespace Sequence

variable {α : Type}

def empty : Sequence α :=
  ⟨0, .leaf, ItemTree.fills_leaf⟩

instance : Inhabited (Sequence α) := ⟨empty⟩

/-- The item at a place counted from zero, if there is one. -/
def get? (s : Sequence α) (i : Nat) : Option α :=
  s.tree.get? i

/-- Changes the item at a place. Where there is none, nothing changes. -/
def modify (s : Sequence α) (i : Nat) (f : α → α) : Sequence α :=
  ⟨s.size, s.tree.modify f i, ItemTree.fills_modify s.filled f i⟩

/-- Adds an item at the end. -/
def push (s : Sequence α) (x : α) : Sequence α :=
  ⟨s.size + 1, s.tree.push x s.size, ItemTree.fills_push x s.filled⟩

@[simp] theorem size_empty : (empty : Sequence α).size = 0 := rfl

@[simp] theorem size_modify (s : Sequence α) (i : Nat) (f : α → α) :
    (s.modify i f).size = s.size := rfl

@[simp] theorem size_push (s : Sequence α) (x : α) : (s.push x).size = s.size + 1 := rfl

theorem isSome_get? (s : Sequence α) (i : Nat) : (s.get? i).isSome ↔ i < s.size :=
  s.filled i

theorem get?_modify (s : Sequence α) (i j : Nat) (f : α → α) :
    (s.modify i f).get? j = if j = i then (s.get? j).map f else s.get? j :=
  ItemTree.get?_modify f s.tree i j

theorem get?_push (s : Sequence α) (x : α) (i : Nat) :
    (s.push x).get? i = if i = s.size then some x else s.get? i :=
  ItemTree.get?_push x s.filled i

end Sequence

end Mission
