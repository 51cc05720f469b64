import Mathlib.Data.Nat.Digits.Defs
import Mission.Proofs.Settings.Grammar
import Mission.Settings.Basic

/-! Settings survive their JSON form. What is written is a JSON text of all fields, and a text that
gives some of the fields, in any order and among whatever other members, is read as those fields
over the defaults. -/
namespace Mission

open List

namespace Json

/-! ### Strings and numbers as they are written -/

theorem decode_cons (c : Char) (codes : List Nat) :
    decode (c.toNat :: codes) = (decode codes).map (c :: ·) := by
  have hPlain : isHighSurrogate c.toNat = false ∧ isLowSurrogate c.toNat = false := by
    have hValid := c.valid
    simp only [UInt32.isValidChar, Nat.isValidChar] at hValid
    simp only [isHighSurrogate, isLowSurrogate, Char.toNat, Bool.and_eq_false_iff, decide_eq_false_iff_not]
    omega
  cases codes with
  | nil => simp [decode, hPlain]
  | cons next rest => simp [decode, hPlain]

theorem decoded_toNat (text : String) : decoded (text.toList.map Char.toNat) = some text := by
  have hDecode (cs : List Char) : decode (cs.map Char.toNat) = some cs := by
    induction cs with
    | nil => rfl
    | cons c cs ih => rw [map_cons, decode_cons, ih]; rfl
  rw [decoded, hDecode, Option.map_some, String.ofList_toList]

theorem StringText.escapeChar {codes : List Nat} {text : List Char} (h : StringText codes text) (c : Char) :
    StringText (c.toNat :: codes) (escapeChar c ++ text) := by
  unfold Json.escapeChar
  split_ifs with hQuote hBackslash hBack hForm hNewline hReturn hTab hControl
  · subst hQuote
    exact .escape rfl h
  · subst hBackslash
    exact .escape rfl h
  · rw [hBack]
    exact .escape rfl h
  · rw [hForm]
    exact .escape rfl h
  · subst hNewline
    exact .escape rfl h
  · subst hReturn
    exact .escape rfl h
  · subst hTab
    exact .escape rfl h
  · have hHex : ∀ n < 16, hexValue? (Nat.digitChar n) = some n := by decide
    have hCode : ((0 * 16 + 0) * 16 + c.toNat / 16) * 16 + c.toNat % 16 = c.toNat := by omega
    have hUnit := StringText.unit (show hexValue? '0' = some 0 from rfl)
      (show hexValue? '0' = some 0 from rfl)
      (hHex (c.toNat / 16) (by omega)) (hHex (c.toNat % 16) (by omega)) h
    rwa [hCode] at hUnit
  · exact .char hQuote hBackslash (Nat.not_lt.mp hControl) h

theorem stringText_escaped (text : String) :
    StringText (text.toList.map Char.toNat) (text.toList.flatMap escapeChar) := by
  induction text.toList with
  | nil => exact .nil
  | cons c cs ih => exact ih.escapeChar c

theorem written_quoted (text : String) : Written (.value (string (some text))) (quoted text).toList := by
  rw [← decoded_toNat text, quoted, String.toList_ofList]
  exact .string (stringText_escaped text)

theorem isWhole_toDigits (n : Nat) : IsWhole (Nat.toDigits 10 n) := by
  have hHead : ∀ n, 0 < n → (Nat.toDigits 10 n).head? ≠ some '0' := by
    intro n
    induction n using Nat.strongRecOn with
    | ind n ih =>
      intro hn
      rw [Nat.toDigits_eq_if (by decide)]
      split
      · next hDigit =>
          have hOne : ∀ d < 10, 0 < d → [Nat.digitChar d].head? ≠ some '0' := by decide
          exact hOne n hDigit hn
      · have hFront := ih (n / 10) (by omega) (by omega)
        obtain ⟨d, tail, hDigits⟩ := exists_cons_of_ne_nil (Nat.toDigits_ne_nil (n := n / 10) (b := 10))
        rw [hDigits] at hFront ⊢
        exact hFront
  cases n with
  | zero => exact .inl rfl
  | succ n =>
    refine .inr ⟨⟨Nat.toDigits_ne_nil, all_eq_true.mpr fun c hc => ?_⟩, hHead _ n.succ_pos⟩
    exact Nat.isDigit_of_mem_toDigits (by decide) (by decide) hc

theorem written_toDigits (n : Nat) : Written (.value (number (some n))) (Nat.toDigits 10 n) := by
  have hValue : digitsValue (Nat.toDigits 10 n) = n := by
    simp only [digitsValue, Nat.mul_comm _ 10]
    exact Nat.ofDigitChars_toDigits (by decide) (by decide)
  have hNumber := @NumberText.parts false false false _ _ _ (isWhole_toDigits n) .absent .absent
  rw [hValue, append_nil, append_nil] at hNumber
  exact .number hNumber

/-! ### Members on lines of their own -/

/-- How a member is written on a line of its own. -/
def line (key text : String) : String :=
  "  " ++ quoted key ++ ": " ++ text

theorem written_lines {entry : String × String × Json} {rest : List (String × String × Json)}
    (h : ∀ entry' ∈ entry :: rest, Written (.value entry'.2.2) entry'.2.1.toList) :
    Written (.members ((entry :: rest).map fun entry => (some entry.1, entry.2.2)))
      ('\n' :: (",\n".intercalate ((entry :: rest).map fun entry => line entry.1 entry.2.1)).toList ++
      ['\n']) := by
  have hStart : Spaces ['\n', ' ', ' '] := rfl
  have hMiddle : Spaces [] := rfl
  have hBefore : Spaces [' '] := rfl
  have hEnd : Spaces ['\n'] := rfl
  induction rest generalizing entry with
  | nil =>
    have hMember := Written.lastMember hStart (stringText_escaped entry.1) hMiddle hBefore
      (h entry mem_cons_self) hEnd
    rw [decoded_toNat] at hMember
    simpa [line, quoted] using hMember
  | cons next rest ih =>
    have hMember := Written.member hStart (stringText_escaped entry.1) hMiddle hBefore
      (h entry mem_cons_self) hMiddle (ih fun entry' hEntry => h entry' (mem_cons_of_mem _ hEntry))
    rw [decoded_toNat] at hMember
    simpa [line, quoted] using hMember

end Json

namespace Settings

/-! ### Fields -/

/-- The fields with their values. -/
def fields (s : Settings) : List (String × Json) :=
  keys.zip [.boolean s.continueOnError, .string (some s.defaultAxisType), .string (some s.manage.name),
    .boolean s.warnOnDefaultString, .number (some s.maxLoopIterations.toNat)]

/-- Some fields of `c`, and `s` for the others. -/
def overlay (s c : Settings) (given : String → Bool) : Settings where
  continueOnError := if given "continue_on_error" then c.continueOnError else s.continueOnError
  defaultAxisType := if given "default_axis_type" then c.defaultAxisType else s.defaultAxisType
  manage := if given "manage" then c.manage else s.manage
  warnOnDefaultString :=
    if given "warn_on_default_string" then c.warnOnDefaultString else s.warnOnDefaultString
  maxLoopIterations := if given "max_loop_iterations" then c.maxLoopIterations else s.maxLoopIterations

/-- The text that is written spells all fields. -/
theorem spells_toJson (s : Settings) :
    Json.Spells (.object (s.fields.map fun entry => (some entry.1, entry.2))) s.toJson := by
  have hValues : ∀ entry ∈ keys.zip (s.fieldTexts.zip (s.fields.map Prod.snd)),
      Json.Written (.value entry.2.2) entry.2.1.toList := by
    have hFlag (flag : Bool) : Json.Written (.value (.boolean flag)) (flagText flag).toList := .flag flag
    simp [keys, fieldTexts, fields, hFlag, Json.written_quoted, Json.written_toDigits]
  refine ⟨[], _, [], ?_, rfl, .object (Json.written_lines hValues), rfl⟩
  simp [toJson, keys, fieldTexts, Json.line]

theorem overlay_overlay (s c : Settings) (given more : String → Bool) :
    (s.overlay c given).overlay c more = s.overlay c fun key => given key || more key := by
  have hOne {α : Type} (x y : α) (first second : Bool) :
      (if second then x else if first then x else y) = if first || second then x else y := by
    cases first <;> cases second <;> rfl
  simp only [overlay, hOne]

variable {s c : Settings}

theorem setField_eq {key : String} {v : Json} (h : key ∈ keys → (key, v) ∈ c.fields) :
    setField s key v = some (s.overlay c fun other => other == key) := by
  by_cases hKey : key ∈ keys
  · have hField := h hKey
    simp only [keys, mem_cons, not_mem_nil, or_false] at hKey
    rcases hKey with rfl | rfl | rfl | rfl | rfl
    · obtain rfl : v = .boolean c.continueOnError := by simpa [fields, keys] using hField
      simp [setField, readFlag, overlay]
    · obtain rfl : v = .string (some c.defaultAxisType) := by simpa [fields, keys] using hField
      simp [setField, readText, overlay]
    · obtain rfl : v = .string (some c.manage.name) := by simpa [fields, keys] using hField
      have hManage : Manage.ofName? c.manage.name = some c.manage := by cases c.manage <;> decide
      simp [setField, readManage, overlay, hManage]
    · obtain rfl : v = .boolean c.warnOnDefaultString := by simpa [fields, keys] using hField
      simp [setField, readFlag, overlay]
    · obtain rfl : v = .number (some c.maxLoopIterations.toNat) := by simpa [fields, keys] using hField
      have hLimit : c.maxLoopIterations.toNat < UInt64.size := c.maxLoopIterations.toNat_lt
      simp [setField, readLimit, overlay, hLimit]
  · simp only [keys, mem_cons, not_mem_nil, or_false, not_or] at hKey
    simp [setField, overlay, hKey, Ne.symm (a := key)]

/-- Members that are fields of `c`, each at most once, or that are not known set those fields. -/
theorem setFields_eq {members : List (String × Json)} {seen : List String}
    (hFields : ∀ entry ∈ members, entry.1 ∈ keys → entry ∈ c.fields)
    (hOnce : ((members.map Prod.fst).filter keys.contains).Nodup)
    (hSeen : ∀ key ∈ seen, key ∈ keys → key ∉ members.map Prod.fst) :
    setFields s seen (members.map fun entry => (some entry.1, entry.2)) =
      some (s.overlay c (members.map Prod.fst).contains) := by
  induction members generalizing s seen with
  | nil => rfl
  | cons entry rest ih =>
    have hFresh : ¬ (keys.contains entry.1 && seen.contains entry.1) = true := by
      rw [Bool.and_eq_true, contains_iff_mem, contains_iff_mem]
      rintro ⟨hKey, hOld⟩
      exact hSeen entry.1 hOld hKey mem_cons_self
    have hRest : ∀ key ∈ entry.1 :: seen, key ∈ keys → key ∉ rest.map Prod.fst := by
      intro key hOld hKey hLater
      rcases mem_cons.mp hOld with rfl | hOld
      · rw [map_cons, filter_cons_of_pos (contains_iff_mem.mpr hKey), nodup_cons] at hOnce
        exact hOnce.1 (mem_filter.mpr ⟨hLater, contains_iff_mem.mpr hKey⟩)
      · exact hSeen key hOld hKey (mem_cons_of_mem _ hLater)
    have hKeys : (fun key => key == entry.1 || (rest.map Prod.fst).contains key) =
        ((entry :: rest).map Prod.fst).contains := by
      funext key
      rw [map_cons, contains_cons]
    rw [map_cons, setFields, if_neg hFresh, setField_eq (hFields entry mem_cons_self)]
    dsimp only
    rw [ih (fun other hOther => hFields other (mem_cons_of_mem _ hOther))
      (hOnce.sublist ((sublist_cons_self _ _).filter _)) hRest, overlay_overlay, hKeys]

/-- Settings come back from the text that is written of them. A text of some of their fields, in any
order and with whatever other members, gives these fields, and the default for each field that it
does not mention. -/
theorem parse_restores_fields (c : Settings) :
    parse c.toJson = some c ∧
    ∀ (members : List (String × Json)) (text : String),
      (∀ entry ∈ members, entry.1 ∈ keys → entry ∈ c.fields) →
      ((members.map Prod.fst).filter keys.contains).Nodup →
      Json.Spells (.object (members.map fun entry => (some entry.1, entry.2))) text →
      parse text = some (overlay {} c (members.map Prod.fst).contains) := by
  have hRead {members : List (String × Json)} {text : String}
      (hFields : ∀ entry ∈ members, entry.1 ∈ keys → entry ∈ c.fields)
      (hOnce : ((members.map Prod.fst).filter keys.contains).Nodup)
      (hText : Json.Spells (.object (members.map fun entry => (some entry.1, entry.2))) text) :
      parse text = some (overlay {} c (members.map Prod.fst).contains) := by
    rw [parse, Json.parse_of_spells hText]
    exact setFields_eq hFields hOnce fun key hKey => absurd hKey List.not_mem_nil
  refine ⟨?_, fun members text => hRead⟩
  have hOnce : (keys.filter keys.contains).Nodup := by decide
  rw [hRead (fun entry hEntry _ => hEntry) hOnce (spells_toJson c)]
  rfl

/-- One field behind a member that is not known. -/
theorem parse_restores_manage :
    Json.Spells (.object [(some "note", .number none), (some "manage", .string (some "Function"))])
      "\x7b\"note\": -1.5e+3 ,\"manage\":\"Function\"\x7d" ∧
    parse "\x7b\"note\": -1.5e+3 ,\"manage\":\"Function\"\x7d" = some { manage := .function } := by
  have hNone : Json.Spaces [] := rfl
  have hSpace : Json.Spaces [' '] := rfl
  have hDigits : ∀ d ∈ ['1', '3', '5'], Json.IsDigits [d] := by simp [Json.IsDigits]
  have hNumber : Json.Written (.value (.number none)) "-1.5e+3".toList :=
    .number (@Json.NumberText.parts true _ _ _ _ _ (.inr ⟨hDigits '1' (by decide), by decide⟩)
      (.present (hDigits '5' (by decide))) (.present (.inl rfl) (.inr (.inl rfl)) (hDigits '3' (by decide))))
  have hManage := Json.Written.lastMember hNone (Json.stringText_escaped "manage") hNone hNone
    (Json.written_quoted "Function") hNone
  have hMembers := Json.Written.member hNone (Json.stringText_escaped "note") hNone hSpace hNumber hSpace
    hManage
  rw [Json.decoded_toNat, Json.decoded_toNat] at hMembers
  have hSpells : Json.Spells
    (.object [(some "note", .number none), (some "manage", .string (some "Function"))])
      "\x7b\"note\": -1.5e+3 ,\"manage\":\"Function\"\x7d" :=
    ⟨[], _, [], by decide +kernel, hNone, .object hMembers, hNone⟩
  refine ⟨hSpells, ?_⟩
  exact (parse_restores_fields { manage := .function }).2
    [("note", .number none), ("manage", .string (some "Function"))] _ (by simp [fields, keys, Manage.name])
    (by decide) hSpells

end Settings

end Mission
