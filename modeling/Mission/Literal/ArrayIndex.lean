import Mission.Literal.Basic
import Mission.ParseError

/-! Array references `name(row, column)`. The index texts are taken as they stand, up to the commas
and the parenthesis that are not inside further parentheses. -/
namespace Mission

structure ArrayIndex where
  name : String
  /-- `1` when only one index is given. -/
  row : String
  column : String
deriving DecidableEq, Repr

namespace ArrayIndex

/-- Cuts a text in front of the first comma or closing parenthesis outside parentheses. -/
def cut : (depth : Nat) → List Char → List Char × List Char
  | _, [] => ([], [])
  | depth, c :: rest =>
    if depth = 0 && (c = ',' || c = ')') then ([], c :: rest)
    else
      let depth := if c = '(' then depth + 1 else if c = ')' then depth - 1 else depth
      let (taken, after) := cut depth rest
      (c :: taken, after)

theorem cut_append (depth : Nat) (cs : List Char) : (cut depth cs).1 ++ (cut depth cs).2 = cs := by
  induction cs generalizing depth with
  | nil => rfl
  | cons c rest ih =>
    rw [cut]
    split
    · rfl
    · simp [ih]

theorem length_cut (depth : Nat) (cs : List Char) :
    (cut depth cs).1.length + (cut depth cs).2.length = cs.length := by
  rw [← List.length_append, cut_append]

/-- The index texts, each without blanks around it and none empty, and what follows the last one. -/
def indices (source : String) (cs : List Char) :
    Except ParseError (List (List Char) × List Char) :=
  let index := Text.strip (cut 0 cs).1
  if index.isEmpty then .error (.expected "an index" source (cut 0 cs).2.head?)
  else
    match _hr : (cut 0 cs).2 with
    | [] => .ok ([index], [])
    | c :: more =>
      if c = ',' then
        match indices source more with
        | .error e => .error e
        | .ok (others, rest) => .ok (index :: others, rest)
      else .ok ([index], c :: more)
termination_by cs.length
decreasing_by
  have := length_cut 0 cs
  simp only [_hr, List.length_cons] at this
  omega

/-- Reads the parenthesised indices behind a name. One index is a column of the first row, and more
than two are too many. -/
def parseIndices (name source : String) (cs : List Char) : Except ParseError ArrayIndex :=
  match indices source cs with
  | .error e => .error e
  | .ok (texts, rest) =>
    if rest.head? ≠ some ')' then .error (.expected "`)`" source rest.head?)
    else if rest.tail ≠ [] then
      .error (.expected "end of array reference" source rest.tail.head?)
    else
      match texts with
      | [column] => .ok ⟨name, "1", String.ofList column⟩
      | [row, column] => .ok ⟨name, String.ofList row, String.ofList column⟩
      | _ => .error (.tooManyIndices source)

/-- Reads an array reference. A text that does not have the form of a name and something in
parentheses behind it up to its end is none, which is no error. -/
def parse (text : String) : Except ParseError (Option ArrayIndex) :=
  let cs := Text.strip text.toList
  let before := cs.takeWhile (· ≠ '(')
  match cs.dropWhile (· ≠ '(') with
  | [] => .ok none
  | _ :: after =>
    if before.isEmpty || cs.getLast? ≠ some ')' then .ok none
    else
      let name := Text.strip before
      if !name.all Name.isNameChar then .ok none
      else
        match parseIndices (String.ofList name) (String.ofList cs) after with
        | .ok index => .ok (some index)
        | .error e => .error e

theorem length_le_of_mem_indices {source : String} {cs : List Char}
    {texts : List (List Char)} {rest : List Char} (h : indices source cs = .ok (texts, rest)) :
    ∀ t ∈ texts, t.length ≤ cs.length := by
  induction hn : cs.length using Nat.strongRecOn generalizing cs texts rest with
  | ind n ih =>
    subst hn
    have hl := length_cut 0 cs
    have hs := Literal.length_strip_le (cut 0 cs).1
    rw [indices] at h
    split at h
    · cases h
    · split at h
      · cases h
        intro t ht
        rw [List.mem_singleton.mp ht]
        omega
      · rename_i c more hr
        rw [hr, List.length_cons] at hl
        split at h
        · split at h
          · cases h
          · rename_i others rest' hm
            cases h
            intro t ht
            rcases List.mem_cons.mp ht with rfl | ht
            · omega
            · have := ih more.length (by omega) hm rfl t ht
              omega
        · cases h
          intro t ht
          rw [List.mem_singleton.mp ht]
          omega

/-- The index texts of an array reference are shorter than the reference, so reading them as
references in turn comes to an end. -/
theorem length_lt_of_parse {text : String} {index : ArrayIndex}
    (h : parse text = .ok (some index)) :
    index.row.length < text.length ∧ index.column.length < text.length := by
  have hs := Literal.length_strip_le text.toList
  have ht : text.toList.length = text.length := String.length_toList
  rw [parse] at h
  simp only at h
  split at h
  · cases h
  · rename_i c after hd
    split at h
    · cases h
    · rename_i hb
      split at h
      · cases h
      · split at h
        · rename_i index' hp
          cases h
          have hsplit := congrArg List.length
            (List.takeWhile_append_dropWhile (p := (· ≠ '(')) (l := Text.strip text.toList))
          rw [hd, List.length_append, List.length_cons] at hsplit
          have hne : 0 < ((Text.strip text.toList).takeWhile (· ≠ '(')).length := by
            rw [List.length_pos_iff]
            intro he
            rw [he] at hb
            simp at hb
          rw [parseIndices] at hp
          split at hp
          · cases hp
          · rename_i texts rest hi
            have hmem := length_le_of_mem_indices hi
            split at hp
            · cases hp
            · split at hp
              · cases hp
              · split at hp
                · obtain rfl := Except.ok.inj hp
                  have := hmem _ (List.mem_singleton_self _)
                  have : "1".length = 1 := rfl
                  simp only [String.length_ofList]
                  omega
                · obtain rfl := Except.ok.inj hp
                  have := hmem _ List.mem_cons_self
                  have := hmem _ (List.mem_cons_of_mem _ (List.mem_singleton_self _))
                  simp only [String.length_ofList]
                  omega
                · cases hp
        · cases h

end ArrayIndex

end Mission
