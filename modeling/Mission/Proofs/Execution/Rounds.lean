import Mathlib.Logic.Function.Iterate
import Mission.Proofs.Execution.Interpreter
import Mission.Proofs.Execution.Termination

/-! How often a loop goes through its body. The states between the rounds are those that the body
leaves one after the other, and a loop stops in exactly one way: in a state where its conditions do
not hold or cannot be decided, in the state after as many rounds as it may go, or where its body
fails. -/
namespace Mission.Execution

/-- The state after a number of rounds through a body. -/
def rounds (body : Run) (s : RunState) (k : Nat) : RunState :=
  (fun s => (body s).2)^[k] s

/-- The conditions hold before each of the first rounds, and the body succeeds in each. -/
def Goes (holds : Registry → Except CommandError Bool) (body : Run) (s : RunState) (k : Nat) : Prop :=
  ∀ i < k, holds (rounds body s i).registry = .ok true ∧ (body (rounds body s i)).1 = .ok ()

/-- The ways in which a loop stops after `k` rounds when it may go `n` of them. -/
inductive Stops (holds : Registry → Except CommandError Bool) (locate : CommandError → ValidationError)
    (late : CommandError) (body : Run) (n : Nat) (s : RunState) :
    Nat → Except ValidationError Unit × RunState → Prop
  | done {k} (within : k ≤ n) (goes : Goes holds body s k) (ends : holds (rounds body s k).registry =
      .ok false) :
      Stops holds locate late body n s k (.ok (), rounds body s k)
  | undecided {k e} (within : k ≤ n) (goes : Goes holds body s k)
      (undecided : holds (rounds body s k).registry = .error e) :
      Stops holds locate late body n s k (.error (locate e), rounds body s k)
  | exceeded (goes : Goes holds body s n) (more : holds (rounds body s n).registry = .ok true) :
      Stops holds locate late body n s n (.error (locate late), rounds body s n)
  | failed {k e} (within : k < n) (goes : Goes holds body s k)
      (more : holds (rounds body s k).registry = .ok true) (fails : (body (rounds body s k)).1 = .error e) :
      Stops holds locate late body n s k (.error e, rounds body s (k + 1))

section

variable {holds : Registry → Except CommandError Bool} {locate : CommandError → ValidationError}
  {late : CommandError} {body : Run} {n k : Nat} {s : RunState} {out : Except ValidationError Unit × RunState}

theorem rounds_succ (body : Run) (s : RunState) (k : Nat) :
    rounds body s (k + 1) = (body (rounds body s k)).2 :=
  Function.iterate_succ_apply' _ k s

theorem rounds_first (body : Run) (s : RunState) (k : Nat) :
    rounds body s (k + 1) = rounds body (body s).2 k :=
  Function.iterate_succ_apply _ k s

theorem goes_zero : Goes holds body s 0 :=
  fun _ h => absurd h (Nat.not_lt_zero _)

theorem Goes.first (hHolds : holds s.registry = .ok true) (hBody : (body s).1 = .ok ())
    (h : Goes holds body (body s).2 k) : Goes holds body s (k + 1) := by
  intro i hi
  cases i with
  | zero => exact ⟨hHolds, hBody⟩
  | succ i =>
    rw [rounds_first]
    exact h i (Nat.lt_of_succ_lt_succ hi)

/-- A loop that stops after its first round stops as the loop with one round less does from there. -/
theorem Stops.first (hHolds : holds s.registry = .ok true) (hBody : (body s).1 = .ok ())
    (h : Stops holds locate late body n (body s).2 k out) :
    Stops holds locate late body (n + 1) s (k + 1) out := by
  cases h with
  | done within goes ends =>
    rw [← rounds_first] at ends ⊢
    exact .done (Nat.succ_le_succ within) (goes.first hHolds hBody) ends
  | undecided within goes undecided =>
    rw [← rounds_first] at undecided ⊢
    exact .undecided (Nat.succ_le_succ within) (goes.first hHolds hBody) undecided
  | exceeded goes more =>
    rw [← rounds_first] at more ⊢
    exact .exceeded (goes.first hHolds hBody) more
  | failed within goes more fails =>
    rw [← rounds_first] at more fails ⊢
    exact .failed (Nat.succ_lt_succ within) (goes.first hHolds hBody) more fails

/-- A loop stops in one of the ways. -/
theorem exists_stops (holds : Registry → Except CommandError Bool) (locate : CommandError → ValidationError)
    (late : CommandError) (body : Run) (n : Nat) (s : RunState) :
    ∃ k, Stops holds locate late body n s k (loop holds locate late body n s) := by
  induction n generalizing s with
  | zero =>
    rcases hHolds : holds s.registry with e | _ | _
    · rw [loop_of_error hHolds]
      exact ⟨0, .undecided (Nat.le_refl 0) goes_zero hHolds⟩
    · rw [loop_of_false hHolds]
      exact ⟨0, .done (Nat.le_refl 0) goes_zero hHolds⟩
    · rw [loop_zero_of_true hHolds]
      exact ⟨0, .exceeded goes_zero hHolds⟩
  | succ n ih =>
    rcases hHolds : holds s.registry with e | _ | _
    · rw [loop_of_error hHolds]
      exact ⟨0, .undecided (Nat.zero_le _) goes_zero hHolds⟩
    · rw [loop_of_false hHolds]
      exact ⟨0, .done (Nat.zero_le _) goes_zero hHolds⟩
    · rcases hBody : (body s).1 with e | _
      · rw [loop_succ_of_fail hHolds (Prod.ext hBody rfl)]
        exact ⟨0, .failed (Nat.succ_pos n) goes_zero hHolds hBody⟩
      · rw [loop_succ_of_ok hHolds (Prod.ext hBody rfl)]
        obtain ⟨k, hk⟩ := ih (body s).2
        exact ⟨k + 1, hk.first hHolds hBody⟩

/-- Where a loop stops it does not go on. -/
theorem Stops.le (h : Stops holds locate late body n s k out) {j : Nat}
    (hj : Goes holds body s j) (hn : j ≤ n) : j ≤ k := by
  by_contra hLess
  obtain ⟨hHolds, hBody⟩ := hj k (Nat.lt_of_not_le hLess)
  cases h with
  | done _ _ ends =>
    rw [ends] at hHolds
    cases hHolds
  | undecided _ _ undecided =>
    rw [undecided] at hHolds
    cases hHolds
  | exceeded => exact hLess hn
  | failed _ _ _ fails =>
    rw [fails] at hBody
    cases hBody

theorem Stops.goes (h : Stops holds locate late body n s k out) : k ≤ n ∧ Goes holds body s k := by
  cases h with
  | done within goes _ => exact ⟨within, goes⟩
  | undecided within goes _ => exact ⟨within, goes⟩
  | exceeded goes _ => exact ⟨Nat.le_refl _, goes⟩
  | failed within goes _ _ => exact ⟨Nat.le_of_lt within, goes⟩

/-- A loop stops in one way only. -/
theorem Stops.unique (h : Stops holds locate late body n s k out) {k' : Nat}
    {out' : Except ValidationError Unit × RunState} (h' : Stops holds locate late body n s k' out') :
    out = out' := by
  obtain rfl : k = k' := Nat.le_antisymm (h'.le h.goes.2 h.goes.1) (h.le h'.goes.2 h'.goes.1)
  cases h <;> cases h' <;> simp_all

theorem loop_eq_iff :
    loop holds locate late body n s = out ↔ ∃ k, Stops holds locate late body n s k out := by
  obtain ⟨k, hk⟩ := exists_stops holds locate late body n s
  constructor
  · rintro rfl
    exact ⟨k, hk⟩
  · rintro ⟨j, hj⟩
    exact hk.unique hj

/-- A loop may go no further exactly if it has met no other reason to stop. -/
theorem goes_limit_iff :
    Goes holds body s n ∧ holds (rounds body s n).registry = .ok true ↔
      ¬ ∃ k ≤ n, Goes holds body s k ∧
        (holds (rounds body s k).registry ≠ .ok true ∨ k < n ∧ (body (rounds body s k)).1 ≠ .ok ()) := by
  constructor
  · rintro ⟨hGoes, hMore⟩ ⟨k, hk, -, hStops⟩
    rcases Nat.lt_or_eq_of_le hk with hLess | rfl
    · obtain ⟨hHolds, hBody⟩ := hGoes k hLess
      exact hStops.elim (· hHolds) fun h => h.2 hBody
    · exact hStops.elim (· hMore) fun h => Nat.lt_irrefl _ h.1
  · intro hNever
    have hHolds : ∀ k ≤ n, Goes holds body s k → holds (rounds body s k).registry = .ok true :=
      fun k hk hGoes => by_contra fun hNot => hNever ⟨k, hk, hGoes, .inl hNot⟩
    have hGoes : ∀ k ≤ n, Goes holds body s k := by
      intro k
      induction k with
      | zero => exact fun _ => goes_zero
      | succ k ih =>
        intro hk i hi
        have hBefore := ih (Nat.le_of_lt hk)
        rcases Nat.lt_succ_iff_lt_or_eq.mp hi with hLess | rfl
        · exact hBefore i hLess
        · refine ⟨hHolds i (Nat.le_of_lt hk) hBefore, by_contra fun hFails => ?_⟩
          exact hNever ⟨i, Nat.le_of_lt hk, hBefore, .inr ⟨hk, hFails⟩⟩
    exact ⟨hGoes n (Nat.le_refl n), hHolds n (Nat.le_refl n) (hGoes n (Nat.le_refl n))⟩

/-- The lines that are in the report of the second state only. -/
def written (s s' : RunState) : List ReportLine :=
  s'.output.toList.drop s.output.size

theorem output_rounds (hBody : ∀ s, RunState.Follows s (body s).2) (s : RunState) (k : Nat) :
    (rounds body s k).output.toList =
      s.output.toList ++ (List.range k).flatMap fun i => written (rounds body s i) (rounds body s (i + 1)) :=
      by
  induction k with
  | zero => exact (List.append_nil _).symm
  | succ k ih =>
    obtain ⟨lines, hLines⟩ := (hBody (rounds body s k)).output
    rw [List.range_succ, List.flatMap_append, ← List.append_assoc, ← ih, List.flatMap_singleton, written,
      rounds_succ, hLines, ← Array.length_toList, List.drop_left]

end

/-- A loop goes through its body as often as its conditions say, and as it may. It succeeds exactly
if the conditions fail to hold after a number of rounds, in the state after these. It fails for want
of rounds exactly if the conditions hold after all that it may go, in the state after these, and
otherwise with the error of the conditions or of the body, in the state that the body has left. What
the rounds report stands in the report in their order. -/
theorem execute_while (depth : Nat) (ck : Checker) (scope : Scope) (stack : List String) (chain : Chain)
    (body otherwise : List Command) (line : Option Nat) (s : RunState) :
    let round := executeAll ck (invoke depth ck scope stack) body
    let run := execute ck (invoke depth ck scope stack) (.branch .whileLoop chain body otherwise line) s
    let goes := Goes chain.evaluate round s
    let holds := fun k => chain.evaluate (rounds round s k).registry
    (∀ t, run = (.ok (), t) ↔ ∃ k ≤ limit ck, goes k ∧ holds k = .ok false ∧ t = rounds round s k) ∧
    (∀ e t, run = (.error e, t) ↔
      (goes (limit ck) ∧ holds (limit ck) = .ok true ∧ e = loopError ck chain line (exceeded ck chain) ∧
        t = rounds round s (limit ck)) ∨
      (∃ k ≤ limit ck, ∃ cause, goes k ∧ holds k = .error cause ∧ e = loopError ck chain line cause ∧
        t = rounds round s k) ∨
      ∃ k < limit ck, goes k ∧ holds k = .ok true ∧ round (rounds round s k) = (.error e, t)) ∧
    (goes (limit ck) ∧ holds (limit ck) = .ok true ↔
      ¬ ∃ k ≤ limit ck, goes k ∧ (holds k ≠ .ok true ∨ k < limit ck ∧ (round (rounds round s k)).1 ≠ .ok ()))
        ∧
    ∀ k, (rounds round s k).output.toList =
      s.output.toList ++ (List.range k).flatMap fun i => written (rounds round s i)
        (rounds round s (i + 1)) := by
  intro round run goes holds
  have hRun : ∀ {out}, run = out ↔
      ∃ k, Stops chain.evaluate (loopError ck chain line) (exceeded ck chain) round (limit ck) s k out := by
    intro out
    rw [← loop_eq_iff]
    simp only [run, execute]
    rfl
  refine ⟨fun t => hRun.trans ⟨?_, ?_⟩, fun e t => hRun.trans ⟨?_, ?_⟩, goes_limit_iff,
    output_rounds (executeAll_follows (invoke_follows depth ck scope stack) body) s⟩
  · rintro ⟨k, hStops⟩
    cases hStops with
    | done within goes ends => exact ⟨k, within, goes, ends, rfl⟩
  · rintro ⟨k, hk, hGoes, hEnds, rfl⟩
    exact ⟨k, .done hk hGoes hEnds⟩
  · rintro ⟨k, hStops⟩
    cases hStops with
    | undecided within goes undecided => exact .inr (.inl ⟨k, within, _, goes, undecided, rfl, rfl⟩)
    | exceeded goes more => exact .inl ⟨goes, more, rfl, rfl⟩
    | failed within goes more fails =>
      exact .inr (.inr ⟨k, within, goes, more, Prod.ext fails (rounds_succ round s k).symm⟩)
  · rintro (⟨hGoes, hMore, rfl, rfl⟩ | ⟨k, hk, cause, hGoes, hCause, rfl, rfl⟩ | ⟨k, hk, hGoes, hMore,
      hFails⟩)
    · exact ⟨_, .exceeded hGoes hMore⟩
    · exact ⟨k, .undecided hk hGoes hCause⟩
    · obtain rfl : t = rounds round s (k + 1) := by rw [rounds_succ, hFails]
      exact ⟨k, .failed hk hGoes hMore (congrArg Prod.fst hFails)⟩

end Mission.Execution
