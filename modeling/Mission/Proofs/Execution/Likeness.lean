import Mission.Proofs.Accessor.Likeness
import Mission.Proofs.Execution.Termination

/-! Runs of commands that differ in names only. A run from alike states through alike commands takes
the same branches and goes through its loops as often, so it ends in alike states, and it reports
the same texts if what is reported are numbers. -/
namespace Mission

open Outcome

mutual

/-- Commands of one form with alike accessors. -/
inductive Command.Alike (old : String) : Command → Command → Prop
  | assignment {a a' : Assignment} (line : Option Nat) (h : a.Alike old a') :
      Alike old (.assignment a line) (.assignment a' line)
  | branch {chain chain' : Chain} {body body' otherwise otherwise' : List Command} (kind : BranchKind)
      (line : Option Nat) (hChain : chain.Alike old chain') (hBody : Command.AllAlike old body body')
      (hOtherwise : Command.AllAlike old otherwise otherwise') :
      Alike old (.branch kind chain body otherwise line) (.branch kind chain' body' otherwise' line)
  | report {c c' : Report} (line : Option Nat) (h : List.Forall₂ (Slot.Alike old) c.slots c'.slots) :
      Alike old (.report c line) (.report c' line)
  | propagate (c c' : Propagate) (line : Option Nat) : Alike old (.propagate c line) (.propagate c' line)

inductive Command.AllAlike (old : String) : List Command → List Command → Prop
  | nil : AllAlike old [] []
  | cons {c c' : Command} {rest rest' : List Command} (first : Command.Alike old c c')
      (others : AllAlike old rest rest') : AllAlike old (c :: rest) (c' :: rest')

end

/-- States with alike registries after reports of the same texts. -/
structure RunState.Alike (old new : String) (s s' : RunState) : Prop where
  registry : s.registry.Alike old new s'.registry
  output : s'.output.toList.map ReportLine.text = s.output.toList.map ReportLine.text

namespace Execution

variable {old new : String}

/-- Tasks of one form with alike accessors. -/
inductive Task.Alike (old : String) : Task → Task → Prop
  | all {cs cs' : List Command} (h : Command.AllAlike old cs cs') : Alike old (.all cs) (.all cs')
  | one {c c' : Command} (h : c.Alike old c') : Alike old (.one c) (.one c')
  | loop {chain chain' : Chain} {body body' : List Command} (line : Option Nat) (rounds : Nat)
      (hChain : chain.Alike old chain') (hBody : Command.AllAlike old body body') :
      Alike old (.loop chain body line rounds) (.loop chain' body' line rounds)

/-- At this position no report writes anything but numbers. -/
def Position.ReportsNumbers (p : Position) : Prop :=
  ∀ c line, p.task = .one (.report c line) → Report.WritesNumbers c.slots p.state.registry

/-- Wherever a run from this position comes, reports write numbers only. -/
def Position.OnlyNumbers (p : Position) : Prop :=
  ∀ q, Relation.ReflTransGen Leads p q → q.ReportsNumbers

theorem Position.OnlyNumbers.leads {p q : Position} (h : p.OnlyNumbers) (hLeads : p.Leads q) :
    q.OnlyNumbers :=
  fun other hOther => h other (.head hLeads hOther)

section

variable {s s' s₁ : RunState} {locate locate' : CommandError → ValidationError}

theorem runAssignment_alike (hName : Name.Wordless old) {a a' : Assignment} (h : a.Alike old a')
    (hs : s.Alike old new s') (hRun : runAssignment a locate s = (.ok (), s₁)) :
    ∃ s₁', runAssignment a' locate' s' = (.ok (), s₁') ∧ s₁.Alike old new s₁' := by
  unfold runAssignment at hRun
  split at hRun
  · next r hExecute =>
      cases hRun
      obtain ⟨r', hExecute', hAlike⟩ := h.execute hName hs.registry r hExecute
      exact ⟨{ s' with registry := r' }, by rw [runAssignment, hExecute'], hAlike, hs.output⟩
  · cases hRun

theorem runReport_alike {c c' : Report} (h : List.Forall₂ (Slot.Alike old) c.slots c'.slots)
    (hs : s.Alike old new s') (hNumbers : Report.WritesNumbers c.slots s.registry)
    (hRun : runReport c locate s = (.ok (), s₁)) :
    ∃ s₁', runReport c' locate' s' = (.ok (), s₁') ∧ s₁.Alike old new s₁' := by
  unfold runReport at hRun
  split at hRun
  · next written hWritten =>
      cases hRun
      obtain ⟨texts, hTexts, hLine⟩ := bind_eq_ok.mp hWritten
      cases hLine
      obtain ⟨_, hTexts', rfl⟩ := Report.carries_values h hs.registry hNumbers texts hTexts
      have hWritten' : c'.reportLine s'.registry = .ok ⟨c'.subscriber, " ".intercalate texts⟩ :=
        bind_eq_ok.mpr ⟨texts, hTexts', rfl⟩
      have hRun' : ∃ log, runReport c' locate' s' = (.ok (),
          ⟨s'.registry, log, s'.output.push ⟨c'.subscriber, " ".intercalate texts⟩⟩) :=
        ⟨_, by rw [runReport, hWritten']; rfl⟩
      obtain ⟨log, hRun'⟩ := hRun'
      refine ⟨_, hRun', hs.registry, ?_⟩
      simp [RunState.note, hs.output]
  · cases hRun

end

/-- A run that comes to an end without an error has its like among the runs of alike tasks. -/
theorem Runs.alike (hName : Name.Wordless old) {ck : Checker} {scope scope' : Scope} {stack : List String}
    {t t' : Task} {s s' s₁ : RunState} {out : Except ValidationError Unit × RunState}
    (h : Runs ck scope stack t s out) (hOk : out = (.ok (), s₁)) (ht : t.Alike old t')
    (hs : s.Alike old new s') (hNumbers : Position.OnlyNumbers ⟨ck, scope, stack, t, s⟩) :
    ∃ s₁', Runs ck scope' stack t' s' (.ok (), s₁') ∧ s₁.Alike old new s₁' := by
  induction h generalizing t' s' s₁ with
  | nil =>
    cases hOk
    cases ht with
    | all h =>
      cases h with
      | nil => exact ⟨s', .nil, hs⟩
  | stop => cases hOk
  | @next ck scope stack c rest s s₂ out first others ihFirst ihOthers =>
    cases ht with
    | all h =>
      cases h with
      | cons hFirst hOthers =>
        obtain ⟨s₂', hRuns, hs₂⟩ := ihFirst rfl (.one hFirst) hs (hNumbers.leads .first)
        obtain ⟨s₁', hRuns', hs₁⟩ := ihOthers hOk (.all hOthers) hs₂ (hNumbers.leads (.next first))
        exact ⟨s₁', .next hRuns hRuns', hs₁⟩
  | assignment =>
    cases ht with
    | one h =>
      cases h with
      | assignment line h =>
        obtain ⟨s₁', hRun, hs₁⟩ := runAssignment_alike hName h hs hOk
        exact ⟨s₁', hRun ▸ .assignment, hs₁⟩
  | @report ck scope stack c line s =>
    cases ht with
    | one h =>
      cases h with
      | report line h =>
        obtain ⟨s₁', hRun, hs₁⟩ := runReport_alike h hs (hNumbers _ .refl c line rfl) hOk
        exact ⟨s₁', hRun ▸ .report, hs₁⟩
  | propagate =>
    cases hOk
    cases ht with
    | one h =>
      cases h with
      | propagate c c' line => exact ⟨_, .propagate, hs.registry, hs.output⟩
  | undecided => cases hOk
  | taken holds inner ih =>
    cases ht with
    | one h =>
      cases h with
      | branch kind line hChain hBody hOtherwise =>
        obtain ⟨_, hHolds, rfl⟩ := hChain.evaluate hs.registry _ holds
        obtain ⟨s₁', hRuns, hs₁⟩ := ih hOk (.all hBody) hs (hNumbers.leads (.taken holds))
        exact ⟨s₁', .taken hHolds hRuns, hs₁⟩
  | passed holds inner ih =>
    cases ht with
    | one h =>
      cases h with
      | branch kind line hChain hBody hOtherwise =>
        obtain ⟨_, hHolds, rfl⟩ := hChain.evaluate hs.registry _ holds
        obtain ⟨s₁', hRuns, hs₁⟩ := ih hOk (.all hOtherwise) hs (hNumbers.leads (.passed holds))
        exact ⟨s₁', .passed hHolds hRuns, hs₁⟩
  | repeated rounds ih =>
    cases ht with
    | one h =>
      cases h with
      | branch kind line hChain hBody hOtherwise =>
        obtain ⟨s₁', hRuns, hs₁⟩ := ih hOk (.loop _ 0 hChain hBody) hs (hNumbers.leads .repeated)
        exact ⟨s₁', .repeated hRuns, hs₁⟩
  | loopUndecided => cases hOk
  | loopDone holds =>
    cases hOk
    cases ht with
    | loop line n hChain hBody =>
      obtain ⟨_, hHolds, rfl⟩ := hChain.evaluate hs.registry _ holds
      exact ⟨s', .loopDone hHolds, hs⟩
  | loopExceeded => cases hOk
  | loopFailed => cases hOk
  | loopNext holds more inner others ihInner ihOthers =>
    cases ht with
    | loop line n hChain hBody =>
      obtain ⟨_, hHolds, rfl⟩ := hChain.evaluate hs.registry _ holds
      obtain ⟨s₂', hRuns, hs₂⟩ := ihInner rfl (.all hBody) hs (hNumbers.leads (.round holds more))
      obtain ⟨s₁', hRuns', hs₁⟩ :=
        ihOthers hOk (.loop _ _ hChain hBody) hs₂ (hNumbers.leads (.again holds more inner))
      exact ⟨s₁', .loopNext hHolds more hRuns hRuns', hs₁⟩
  | recursive | unknown | refused | failed => cases hOk
  | returned =>
    cases ht with
    | one h => cases h

end Execution

end Mission
