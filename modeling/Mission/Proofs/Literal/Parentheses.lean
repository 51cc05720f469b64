import Mathlib.Data.List.Infix
import Mission.Proofs.Classify.Tracking

/-! Parentheses around a text. The scan that looks for the partner of the first parenthesis finds
the last character exactly if the text between the two is balanced, so what is left of a text is the
text without the pairs that enclose it, and putting pairs around a balanced text changes nothing. -/
namespace Mission

open Text List Name

namespace Literal

/-! ### Balanced texts -/

/-- The characters of a text outside its quoted parts. The text may begin inside quotes. -/
def unquoted : (quoted : Bool) → List Char → List Char
  | _, [] => []
  | quoted, c :: cs =>
    if c = Name.quote then unquoted (!quoted) cs
    else if quoted then unquoted quoted cs
    else c :: unquoted quoted cs

/-- A text that closes `depth` parentheses and, if one is open, a quote. Nowhere does it close more
than has been opened, and it closes what it opens itself. -/
structure Closes (depth : Nat) (quoted : Bool) (cs : List Char) : Prop where
  quotes : (cs.count Name.quote + quoted.toNat) % 2 = 0
  opened : ∀ front, front <+: unquoted quoted cs → front.count ')' ≤ depth + front.count '('
  closed : depth + (unquoted quoted cs).count '(' = (unquoted quoted cs).count ')'

/-- An even number of quotes, and outside the quoted parts a partner for every parenthesis. -/
abbrev Balanced (cs : List Char) : Prop :=
  Closes 0 false cs

instance (depth : Nat) (quoted : Bool) (cs : List Char) : Decidable (Closes depth quoted cs) :=
  decidable_of_iff
    ((cs.count Name.quote + quoted.toNat) % 2 = 0 ∧
      (∀ front ∈ (unquoted quoted cs).inits, front.count ')' ≤ depth + front.count '(') ∧
      depth + (unquoted quoted cs).count '(' = (unquoted quoted cs).count ')')
    ⟨fun h => ⟨h.1, fun front hFront => h.2.1 front (List.mem_inits front _ |>.mpr hFront), h.2.2⟩,
      fun h => ⟨h.quotes, fun front hFront => h.opened front (List.mem_inits front _ |>.mp hFront), h.closed⟩⟩

section

variable {depth : Nat} {quoted : Bool} {c : Char} {cs rest : List Char}

theorem balanced_nil : Balanced [] where
  quotes := rfl
  opened front h := by simp [prefix_nil.mp h]
  closed := rfl

theorem closes_nil_iff : Closes depth quoted [] ↔ depth = 0 ∧ quoted = false := by
  constructor
  · intro h
    have hDepth : depth + 0 = 0 := h.closed
    have hQuotes := h.quotes
    cases quoted with
    | true => cases hQuotes
    | false => exact ⟨hDepth, rfl⟩
  · rintro ⟨rfl, rfl⟩
    exact balanced_nil

/-- What a text closes depends only on its characters outside quotes and on whether it leaves a
quote open. -/
theorem closes_congr {quoted' : Bool} {cs' : List Char}
    (hUnquoted : unquoted quoted cs = unquoted quoted' cs')
    (hQuotes : (cs.count quote + quoted.toNat) % 2 = (cs'.count quote + quoted'.toNat) % 2) :
    Closes depth quoted cs ↔ Closes depth quoted' cs' := by
  constructor
  · rintro ⟨h, hOpened, hClosed⟩
    exact ⟨hQuotes ▸ h, hUnquoted ▸ hOpened, hUnquoted ▸ hClosed⟩
  · rintro ⟨h, hOpened, hClosed⟩
    exact ⟨hQuotes ▸ h, hUnquoted ▸ hOpened, hUnquoted ▸ hClosed⟩

theorem closes_quote_iff : Closes depth quoted (quote :: cs) ↔ Closes depth (!quoted) cs := by
  refine closes_congr (by simp [unquoted]) ?_
  rw [count_cons_self]
  cases quoted
  · rfl
  · simp [Nat.add_assoc]

theorem closes_quoted_iff (hc : c ≠ quote) : Closes depth true (c :: cs) ↔ Closes depth true cs := by
  refine closes_congr (by simp [unquoted, hc]) ?_
  rw [count_cons_of_ne hc]

/-- A character outside quotes counts for itself, in front of everything that follows. -/
theorem closes_cons_iff (hc : c ≠ quote) :
    Closes depth false (c :: cs) ↔ cs.count quote % 2 = 0 ∧
      (∀ front, front <+: unquoted false cs → (c :: front).count ')' ≤ depth + (c :: front).count '(') ∧
      depth + (c :: unquoted false cs).count '(' = (c :: unquoted false cs).count ')' := by
  have hUnquoted : unquoted false (c :: cs) = c :: unquoted false cs := by simp [unquoted, hc]
  have hQuotes : (c :: cs).count quote = cs.count quote := count_cons_of_ne hc
  constructor
  · rintro ⟨h, hOpened, hClosed⟩
    rw [hUnquoted] at hOpened hClosed
    exact ⟨hQuotes ▸ h, fun front hFront => hOpened _ ((prefix_cons_inj c).mpr hFront), hClosed⟩
  · rintro ⟨h, hOpened, hClosed⟩
    refine ⟨hQuotes ▸ h, fun front hFront => ?_, hUnquoted ▸ hClosed⟩
    rw [hUnquoted] at hFront
    rcases prefix_cons_iff.mp hFront with rfl | ⟨tail, rfl, hTail⟩
    · simp
    · exact hOpened tail hTail

theorem closes_open_iff : Closes depth false ('(' :: cs) ↔ Closes (depth + 1) false cs := by
  have hOpen (l : List Char) : ('(' :: l).count '(' = l.count '(' + 1 := count_cons_self
  have hClose (l : List Char) : ('(' :: l).count ')' = l.count ')' := count_cons_of_ne (by decide)
  simp only [closes_cons_iff (show '(' ≠ quote by decide), hOpen, hClose]
  constructor
  · rintro ⟨h, hOpened, hClosed⟩
    exact ⟨h, fun front hFront => by have := hOpened front hFront; omega, by omega⟩
  · rintro ⟨h, hOpened, hClosed⟩
    exact ⟨h, fun front hFront => by have := hOpened front hFront; omega, by omega⟩

theorem closes_close_iff :
    Closes depth false (')' :: cs) ↔ ∃ left, depth = left + 1 ∧ Closes left false cs := by
  have hOpen (l : List Char) : (')' :: l).count '(' = l.count '(' := count_cons_of_ne (by decide)
  have hClose (l : List Char) : (')' :: l).count ')' = l.count ')' + 1 := count_cons_self
  simp only [closes_cons_iff (show ')' ≠ quote by decide), hOpen, hClose]
  constructor
  · rintro ⟨h, hOpened, hClosed⟩
    have hFirst : 1 ≤ depth := hOpened [] nil_prefix
    obtain ⟨left, rfl⟩ := Nat.exists_eq_add_of_le' hFirst
    exact ⟨left, rfl, h, fun front hFront => by have := hOpened front hFront; omega, by omega⟩
  · rintro ⟨left, rfl, h, hOpened, hClosed⟩
    exact ⟨h, fun front hFront => by have := hOpened front hFront; omega, by omega⟩

theorem closes_other_iff (hc : c ≠ quote) (hOpen : c ≠ '(') (hClose : c ≠ ')') :
    Closes depth false (c :: cs) ↔ Closes depth false cs := by
  simp only [closes_cons_iff hc, count_cons_of_ne hOpen, count_cons_of_ne hClose]
  exact ⟨fun h => ⟨h.1, h.2.1, h.2.2⟩, fun h => ⟨h.quotes, h.opened, h.closed⟩⟩

/-- A text that closes what is open, read from the front one character at a time. -/
@[elab_as_elim]
theorem Closes.induction {motive : ∀ depth quoted cs, Closes depth quoted cs → Prop}
    (nil : motive 0 false [] balanced_nil)
    (quote : ∀ depth quoted cs h, motive depth (!quoted) cs h →
      motive depth quoted (Name.quote :: cs) (closes_quote_iff.mpr h))
    (quotedChar : ∀ depth c cs hc h, motive depth true cs h →
      motive depth true (c :: cs) ((closes_quoted_iff hc).mpr h))
    (opening : ∀ depth cs h, motive (depth + 1) false cs h →
      motive depth false ('(' :: cs) (closes_open_iff.mpr h))
    (closing : ∀ depth cs h, motive depth false cs h →
      motive (depth + 1) false (')' :: cs) (closes_close_iff.mpr ⟨depth, rfl, h⟩))
    (other : ∀ depth c cs hc hOpen hClose h, motive depth false cs h →
      motive depth false (c :: cs) ((closes_other_iff hc hOpen hClose).mpr h))
    (h : Closes depth quoted cs) : motive depth quoted cs h := by
  induction cs generalizing depth quoted with
  | nil =>
    obtain ⟨rfl, rfl⟩ := closes_nil_iff.mp h
    exact nil
  | cons c cs ih =>
    by_cases hQuote : c = Name.quote
    · subst hQuote
      exact quote _ _ _ _ (ih (closes_quote_iff.mp h))
    cases quoted with
    | true => exact quotedChar _ _ _ hQuote _ (ih ((closes_quoted_iff hQuote).mp h))
    | false =>
      by_cases hOpen : c = '('
      · subst hOpen
        exact opening _ _ _ (ih (closes_open_iff.mp h))
      by_cases hClose : c = ')'
      · subst hClose
        obtain ⟨left, rfl, hLeft⟩ := closes_close_iff.mp h
        exact closing _ _ _ (ih hLeft)
      · exact other _ _ _ hQuote hOpen hClose _ (ih ((closes_other_iff hQuote hOpen hClose).mp h))

theorem Closes.append {more : Nat} (h : Closes depth quoted cs) (hRest : Closes more false rest) :
    Closes (depth + more) quoted (cs ++ rest) := by
  induction h using Closes.induction with
  | nil => rwa [Nat.zero_add]
  | quote depth quoted cs _ ih => exact closes_quote_iff.mpr ih
  | quotedChar depth c cs hc _ ih => exact (closes_quoted_iff hc).mpr ih
  | opening depth cs _ ih => exact closes_open_iff.mpr (Nat.add_right_comm depth 1 more ▸ ih)
  | closing depth cs _ ih => exact closes_close_iff.mpr ⟨depth + more, Nat.add_right_comm depth 1 more, ih⟩
  | other depth c cs hc hOpen hClose _ ih => exact (closes_other_iff hc hOpen hClose).mpr ih

/-! ### The scan for the partner -/

theorem Closes.afterClosing (h : Closes depth quoted cs) :
    afterClosing (depth + 1) quoted (cs ++ ')' :: rest) = some rest := by
  induction h using Closes.induction with
  | nil => rfl
  | quote depth quoted cs _ ih => simpa [Literal.afterClosing] using ih
  | quotedChar depth c cs hc _ ih => simpa [Literal.afterClosing, hc] using ih
  | opening depth cs _ ih | closing depth cs _ ih => simpa [Literal.afterClosing, Name.quote] using ih
  | other depth c cs hc hOpen hClose _ ih => simpa [Literal.afterClosing, hc, hOpen, hClose] using ih

theorem exists_closes_of_afterClosing (h : Literal.afterClosing (depth + 1) quoted cs = some rest) :
    ∃ body, cs = body ++ ')' :: rest ∧ Closes depth quoted body := by
  induction cs generalizing depth quoted with
  | nil => cases h
  | cons c cs ih =>
    unfold Literal.afterClosing at h
    split at h
    · next hQuote =>
        subst hQuote
        obtain ⟨body, rfl, hBody⟩ := ih h
        exact ⟨quote :: body, rfl, closes_quote_iff.mpr hBody⟩
    next hQuote =>
    split at h
    · next hQuoted =>
        subst hQuoted
        obtain ⟨body, rfl, hBody⟩ := ih h
        exact ⟨c :: body, rfl, (closes_quoted_iff hQuote).mpr hBody⟩
    next hQuoted =>
    obtain rfl := Bool.eq_false_iff.mpr hQuoted
    split at h
    · next hOpen =>
        subst hOpen
        obtain ⟨body, rfl, hBody⟩ := ih h
        exact ⟨'(' :: body, rfl, closes_open_iff.mpr hBody⟩
    next hOpen =>
    split at h
    · next hClose =>
        subst hClose
        cases depth with
        | zero =>
          cases h
          exact ⟨[], rfl, balanced_nil⟩
        | succ depth =>
          obtain ⟨body, rfl, hBody⟩ := ih h
          exact ⟨')' :: body, rfl, closes_close_iff.mpr ⟨depth, rfl, hBody⟩⟩
    · next hClose =>
        obtain ⟨body, rfl, hBody⟩ := ih h
        exact ⟨c :: body, rfl, (closes_other_iff hQuote hOpen hClose).mpr hBody⟩

/-- The scan finds the partner of the first parenthesis at the end exactly if what stands between
them is balanced. -/
theorem isParenthesised_iff :
    isParenthesised cs = true ↔ ∃ body, cs = '(' :: body ++ [')'] ∧ Balanced body := by
  rw [isParenthesised, Bool.and_eq_true, decide_eq_true_eq, decide_eq_true_eq]
  constructor
  · rintro ⟨hHead, hScan⟩
    obtain ⟨tail, rfl⟩ := List.head?_eq_some_iff.mp hHead
    have hPartner : afterClosing (0 + 1) false tail = some [] := hScan
    obtain ⟨body, rfl, hBody⟩ := exists_closes_of_afterClosing hPartner
    exact ⟨body, rfl, hBody⟩
  · rintro ⟨body, rfl, hBody⟩
    exact ⟨rfl, hBody.afterClosing⟩

/-! ### Pairs around a text -/

/-- A text between two parentheses that are partners. -/
def Enclosed (cs : List Char) : Prop :=
  ∃ body, cs = '(' :: body ++ [')'] ∧ Balanced body

/-- `cs` with any number of pairs of parentheses around it, and blanks inside and outside of them. -/
inductive Wraps (cs : List Char) : List Char → Prop
  | blanks {before behind : List Char} (hBefore : Gap before) (hBehind : Gap behind) :
      Wraps cs (before ++ cs ++ behind)
  | pair {before inside behind : List Char} (hBefore : Gap before) (hInside : Wraps cs inside)
      (hBehind : Gap behind) : Wraps cs (before ++ ('(' :: inside ++ [')']) ++ behind)

theorem balanced_gap {gap : List Char} (h : Gap gap) : Balanced gap := by
  induction gap with
  | nil => exact balanced_nil
  | cons c gap ih =>
    obtain ⟨hBlank, hGap⟩ := gap_cons.mp h
    have hNot {other : Char} (hOther : isBlank other = false) : c ≠ other := by
      rintro rfl
      cases hBlank.symm.trans hOther
    exact (closes_other_iff (hNot rfl) (hNot rfl) (hNot rfl)).mpr (ih hGap)

theorem Enclosed.balanced (h : Enclosed cs) : Balanced cs := by
  obtain ⟨body, rfl, hBody⟩ := h
  have hClosing : Closes 1 false [')'] := closes_close_iff.mpr ⟨0, rfl, balanced_nil⟩
  exact closes_open_iff.mpr (hBody.append hClosing)

theorem Wraps.balanced {wrapped : List Char} (h : Wraps cs wrapped) (hBalanced : Balanced cs) :
    Balanced wrapped := by
  induction h with
  | blanks hBefore hBehind => exact ((balanced_gap hBefore).append hBalanced).append (balanced_gap hBehind)
  | pair hBefore _ hBehind ih =>
    exact ((balanced_gap hBefore).append (Enclosed.balanced ⟨_, rfl, ih⟩)).append (balanced_gap hBehind)

theorem strip_between_gaps {before behind : List Char} (hBefore : Gap before) (hBehind : Gap behind)
    (cs : List Char) : strip (before ++ cs ++ behind) = strip cs := by
  have hEnd : stripEnd (cs ++ behind) = stripEnd cs := by
    obtain ⟨gap, hGap, hSplit⟩ := exists_gap_end cs
    have hGaps : Gap (gap ++ behind) := by
      rw [Gap, all_append, hGap, hBehind]
      rfl
    rw [hSplit, append_assoc, stripEnd_append (getLast?_stripEnd cs), stripEnd_append (getLast?_stripEnd cs),
      stripEnd_eq_nil hGap, stripEnd_eq_nil hGaps]
  rw [strip, strip, append_assoc, stripStart_gap hBefore, ← stripStart_stripEnd, hEnd, stripStart_stripEnd]

theorem strip_enclosed (body : List Char) : strip ('(' :: body ++ [')']) = '(' :: body ++ [')'] := by
  rw [strip, cons_append, stripStart_cons (by decide), ← cons_append, stripEnd_concat (by decide)]

theorem unparenthesiseChars_of_pair {before body behind : List Char} (hBefore : Gap before)
    (hBehind : Gap behind) (hBody : Balanced body) :
    unparenthesiseChars (before ++ ('(' :: body ++ [')']) ++ behind) = unparenthesiseChars body := by
  have hEnclosed : isParenthesised ('(' :: body ++ [')']) = true := isParenthesised_iff.mpr ⟨body, rfl, hBody⟩
  have hInner : inner ('(' :: body ++ [')']) = body := by simp [inner]
  rw [unparenthesiseChars]
  simp only [strip_between_gaps hBefore hBehind, strip_enclosed, hEnclosed, hInner, dif_pos]

theorem Wraps.unparenthesiseChars {wrapped : List Char} (h : Wraps cs wrapped) (hBalanced : Balanced cs) :
    unparenthesiseChars wrapped = unparenthesiseChars cs := by
  induction h with
  | blanks hBefore hBehind =>
    rw [Literal.unparenthesiseChars]
    simp only [strip_between_gaps hBefore hBehind]
    rw [← Literal.unparenthesiseChars]
  | pair hBefore hInside hBehind ih =>
    rw [unparenthesiseChars_of_pair hBefore hBehind (hInside.balanced hBalanced), ih]

theorem not_enclosed_unparenthesiseChars (cs : List Char) : ¬ Enclosed (unparenthesiseChars cs) := by
  fun_induction unparenthesiseChars cs with
  | case1 cs stripped _ ih => exact ih
  | case2 cs stripped h => exact fun hEnclosed => h (isParenthesised_iff.mpr hEnclosed)

/-- Nothing but blanks and pairs is lost. -/
theorem wraps_unparenthesiseChars (cs : List Char) : Wraps (unparenthesiseChars cs) cs := by
  have hSplit (cs : List Char) : ∃ before behind, Gap before ∧ Gap behind ∧ cs =
    before ++ strip cs ++ behind := by
    obtain ⟨before, hBefore, hFront⟩ := exists_gap cs
    obtain ⟨behind, hBehind, hEnd⟩ := exists_gap_end (stripStart cs)
    refine ⟨before, behind, hBefore, hBehind, ?_⟩
    rw [strip, append_assoc, ← hEnd, ← hFront]
  fun_induction unparenthesiseChars cs with
  | case1 cs stripped h ih =>
    obtain ⟨before, behind, hBefore, hBehind, hCs⟩ := hSplit cs
    obtain ⟨body, hBody, -⟩ := isParenthesised_iff.mp h
    have hInner : inner stripped = body := by simp [hBody, inner]
    rw [hCs, show strip cs = _ from hBody]
    exact .pair hBefore (hInner ▸ ih) hBehind
  | case2 cs stripped h =>
    obtain ⟨before, behind, hBefore, hBehind, hCs⟩ := hSplit cs
    rw [hCs]
    exact .blanks hBefore hBehind

end

/-- Exactly the pairs of parentheses around a text are removed, with the blanks. What is left has no
blanks around it, is between no two partners and stays as it is; and pairs around a balanced text
make no difference, neither to what is left of it nor to its meaning. -/
theorem unparenthesise_removes_pairs (text : String) :
    Wraps (unparenthesise text).toList text.toList ∧
    Text.trim (unparenthesise text) = unparenthesise text ∧
    unparenthesise (unparenthesise text) = unparenthesise text ∧
    ¬ Enclosed (unparenthesise text).toList ∧
    ∀ wrapped : String, Balanced text.toList → Wraps text.toList wrapped.toList →
      unparenthesise wrapped = unparenthesise text ∧
      ∀ kinds options, classify kinds options wrapped = classify kinds options text := by
  have hTrim := trim_unparenthesise text
  have hOpen := not_enclosed_unparenthesiseChars text.toList
  refine ⟨?_, hTrim, ?_, ?_, fun wrapped hBalanced hWraps => ?_⟩
  · rw [unparenthesise, String.toList_ofList]
    exact wraps_unparenthesiseChars text.toList
  · have hStrip : strip (unparenthesise text).toList = (unparenthesise text).toList := by
      rw [Text.trim] at hTrim
      rw [← String.toList_ofList (l := strip _), hTrim]
    have hStay : ¬ isParenthesised (unparenthesise text).toList = true := by
      rw [isParenthesised_iff, unparenthesise, String.toList_ofList]
      exact hOpen
    conv_lhs => rw [unparenthesise, unparenthesiseChars]
    simp only [hStrip, hStay]
    simp
  · rwa [unparenthesise, String.toList_ofList]
  · have hSame : unparenthesise wrapped = unparenthesise text :=
      congrArg String.ofList (hWraps.unparenthesiseChars hBalanced)
    refine ⟨hSame, fun kinds options => ?_⟩
    rw [classify, classify, Phrase.parse, Phrase.parse, hSame]

/-- The parenthesis in quotes has no partner and needs none. -/
theorem unparenthesise_around_quoted :
    Balanced "x(')')".toList ∧ Wraps "x(')')".toList " ((\u00a0x(')') ) )".toList ∧
    unparenthesise " ((\u00a0x(')') ) )" = unparenthesise "x(')')" := by
  have hBalanced : Balanced "x(')')".toList := by decide
  have hNone : Gap [] := rfl
  have hSpace : Gap [' '] := rfl
  have hNoBreak : Gap ['\u00a0'] := rfl
  have hWraps : Wraps "x(')')".toList " ((\u00a0x(')') ) )".toList :=
    .pair hSpace (.pair hNone (.blanks hNoBreak hSpace) hSpace) hNone
  exact ⟨hBalanced, hWraps, ((unparenthesise_removes_pairs "x(')')").2.2.2.2 _ hBalanced hWraps).1⟩

end Literal

end Mission
