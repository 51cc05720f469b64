/-! Tables keyed by text that remember the order of insertion. Writing a key that is present keeps its
position; a new key goes to the end. The order is visible in lists and in messages. -/
namespace Mission

structure Table (α : Type) where
  entries : List (String × α) := []

namespace Table

variable {α β : Type}

instance : Inhabited (Table α) := ⟨{}⟩

def get? (t : Table α) (key : String) : Option α :=
  t.entries.lookup key

def contains (t : Table α) (key : String) : Bool :=
  (t.get? key).isSome

/-- Replaces the value of a present key in its place. -/
def replaceEntry (key : String) (value : α) : List (String × α) → List (String × α)
  | [] => []
  | entry :: rest =>
    if entry.1 = key then (key, value) :: rest else entry :: replaceEntry key value rest

def insert (t : Table α) (key : String) (value : α) : Table α :=
  if t.contains key then ⟨replaceEntry key value t.entries⟩
  else ⟨t.entries ++ [(key, value)]⟩

/-- Inserts the pairs in order: of a repeated key the first position and the last value remain. -/
def ofPairs (pairs : List (String × α)) : Table α :=
  pairs.foldl (fun t entry => t.insert entry.1 entry.2) {}

def erase (t : Table α) (key : String) : Table α :=
  ⟨t.entries.filter fun entry => entry.1 ≠ key⟩

def keys (t : Table α) : List String :=
  t.entries.map Prod.fst

def values (t : Table α) : List α :=
  t.entries.map Prod.snd

def size (t : Table α) : Nat :=
  t.entries.length

/-- The position of a key. -/
def index? (t : Table α) (key : String) : Option Nat :=
  t.entries.findIdx? fun entry => entry.1 = key

def getAt? (t : Table α) (position : Nat) : Option α :=
  t.entries[position]?.map Prod.snd

/-- Changes the value at a position and keeps its key. -/
def modifyAt (t : Table α) (position : Nat) (f : α → α) : Table α :=
  ⟨t.entries.modify position fun entry => (entry.1, f entry.2)⟩

def map (f : α → β) (t : Table α) : Table β :=
  ⟨t.entries.map fun entry => (entry.1, f entry.2)⟩

end Table

end Mission
