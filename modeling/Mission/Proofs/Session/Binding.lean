import Mission.Proofs.Session.Tracking

/-! Where the properties of a checked script are bound. Checking binds each property to an object
and a position. Running can replace the parts of an object, and then the property stays bound to a
part that the names no longer lead to. It is bound where its names lead exactly as long as the
object it is bound to is still the owner or a part of it, and a value that is written is read back
under the same description as long as this is so. -/
namespace Mission

open Registry Outcome Execution

namespace Command

theorem Occurs.of_occurs {c d : Command} {cs : List Command} (hc : Occurs c [d]) (hd : Occurs d cs) :
    Occurs c cs := by
  induction hd with
  | here => exact hc.first
  | inside _ ih => exact .inside ih
  | later _ ih => exact .later ih

theorem occurs_of_mem {c : Command} {cs : List Command} (h : c ∈ cs) : Occurs c cs := by
  induction h with
  | head => exact .here
  | tail _ _ ih => exact .later ih

end Command

namespace PropertyRef

/-- What is stored when a value is written through the reference: the value, converted to the type of the
property. -/
def Stores (p : PropertyRef) (r : Registry) (v stored : Value) : Prop :=
  ∃ id i property, p.target = some (id, i) ∧ (r.object id).property i = .ok property ∧
    property.convert (r.object id).name v = .ok stored

/-- What is written through one reference is read through every reference that is bound to the same
place. -/
theorem stores_of_setValue {d : String} {p : PropertyRef} {r r' : Registry} {v : Value}
    (h : (Accessor.property d p).setValue r v = .ok r') :
    ∃ stored, p.Stores r v stored ∧
      ∀ {d' q}, q.target = p.target → (Accessor.property d' q).evaluate r' = .ok stored := by
  obtain ⟨⟨id, i⟩, hBound, h⟩ := bind_eq_ok.mp h
  have hTarget : p.target = some (id, i) := by
    cases hTarget : p.target with
    | none =>
      rw [hTarget] at hBound
      cases hBound
    | some target =>
      rw [hTarget] at hBound
      cases hBound
      rfl
  obtain ⟨property, stored, hProperty, hConvert, hStored⟩ :=
    getAt_of_setProperty (liftObject_eq_ok.mp h)
  refine ⟨stored, ⟨id, i, property, hTarget, hProperty, hConvert⟩, fun {d' q} hSame => ?_⟩
  rw [Accessor.evaluate, hSame, hTarget]
  exact liftObject_eq_ok.mpr hStored

theorem Fresh.target_eq {p q : PropertyRef} {s : Scope} {r : Registry} (hp : p.Fresh s r)
    (hq : q.Fresh s r) (hOwner : q.owner = p.owner) (hPart : q.part = p.part)
    (hProperty : q.property = p.property) : q.target = p.target := by
  rw [← hp.2, ← hq.2, hOwner, hPart, hProperty]

end PropertyRef

namespace Session

/-- Runs a command of the session, with its functions. -/
def executeCommand (s : Session) (c : Command) : Run :=
  Execution.execute s.checker
    (Execution.invoke s.checker.functions.size s.checker s.workspace.scope []) c

/-- The objects that running commands of the session can lead to, in any order and any number of times,
whether they succeed or fail. -/
inductive RunsTo (s : Session) : Registry → Prop
  | start : RunsTo s s.registry
  | step {state : RunState} {c : Command} : RunsTo s state.registry → c.Occurs s.commands →
      RunsTo s (s.executeCommand c state).2.registry

/-- Running the whole session is one way to run its commands. -/
theorem runsTo_execute (s : Session) : s.RunsTo s.execute.2.registry := by
  have hAll : ∀ (cs : List Command) (state : RunState), (∀ c ∈ cs, c.Occurs s.commands) →
      s.RunsTo state.registry →
      s.RunsTo (executeAll s.checker
        (invoke s.checker.functions.size s.checker s.workspace.scope []) cs state).2.registry := by
    intro cs
    induction cs with
    | nil =>
      intro state _ h
      rw [executeAll]
      exact h
    | cons c rest ih =>
      intro state hCommands h
      have hFirst := h.step (hCommands c List.mem_cons_self)
      have hRest : ∀ d ∈ rest, d.Occurs s.commands := fun d hd => hCommands d (List.mem_cons_of_mem c hd)
      rw [executeAll]
      rw [executeCommand] at hFirst
      split
      · next e state' hRun =>
          rw [hRun] at hFirst
          exact hFirst
      · next state' hRun =>
          rw [hRun] at hFirst
          exact ih state' hRest hFirst
  have hRun := hAll s.commands { registry := s.registry, log := s.log }
    (fun c => Command.occurs_of_mem) .start
  unfold Session.execute
  dsimp only
  split <;> exact hRun

/-- Whatever commands run, the workspace of the session has come of the one they were checked in. -/
theorem RunsTo.becomes {s : Session} (hSound : s.workspace.Sound)
    (hWritable : Checker.AllWritable s.commands s.workspace) {r : Registry} (h : s.RunsTo r) (log : Log) :
    s.workspace.Becomes { registry := r, scope := s.workspace.scope, log } := by
  induction h generalizing log with
  | start => exact ⟨⟨hSound.forest, hSound.scope⟩, .refl _ _, rfl, fun _ => rfl, rfl⟩
  | @step state c _ hc ih =>
    have hCommand : Checker.AllWritable [c] s.workspace :=
      ⟨fun hd ha => hWritable.writable (hd.of_occurs hc) ha⟩
    have hStep : s.workspace.Becomes ((s.executeCommand c state).2.workspace s.workspace.scope) :=
      Execution.execute_becomes _ (ih state.log) hCommand
    exact ⟨⟨hStep.sound.forest, hStep.sound.scope⟩,
      hStep.path.registry, hStep.path.system, hStep.path.named, hStep.path.outer⟩

theorem validate_tracks {s s₁ : Session} (hReachable : s.Reachable) (h : s.validate = (.ok (), s₁)) :
    s₁.workspace.Sound ∧ Checker.AllTracked s₁.commands s₁.workspace := by
  obtain ⟨hBecomes, hTracked⟩ := validate_spec hReachable.sound.workspace h
  exact ⟨hBecomes.sound, hTracked (validated_of_validate h)⟩

/-- In a script that has been checked, whatever commands have run since: a property that a command
holds is bound where its names lead if and only if the object it is bound to is still attached. When
a value has been written through it and it is attached, a fresh classification of the same
description, which names the same part, reads that value. -/
theorem property_fresh_iff_attached {s s₁ : Session} (hReachable : s.Reachable)
    (hValid : s.validate = (.ok (), s₁)) {r : Registry} (hRun : s₁.RunsTo r) {c : Command}
    (hc : c.Occurs s₁.commands) {a : Accessor} (ha : a ∈ c.accessors) {d : String} {p : PropertyRef}
    (hp : (d, p) ∈ a.propertyRefs) :
    (p.Fresh s₁.workspace.scope r ↔ p.Attached s₁.workspace.scope r) ∧
      ∀ {before : Registry} {v : Value}, (Accessor.property d p).setValue before v = .ok r →
        ∃ stored, p.Stores before v stored ∧ (p.Attached s₁.workspace.scope r →
          ∀ {kinds options text log q w}, q.part = p.part →
            Mission.classify kinds options text { registry := r, scope := s₁.workspace.scope, log } =
              (.ok (.property d q), w) →
            (Accessor.property d q).evaluate w.registry = .ok stored) := by
  obtain ⟨hSound, hAll⟩ := validate_tracks hReachable hValid
  have hBecomes := hRun.becomes hSound hAll.allWritable
  have hTracked : ∀ log, p.Tracked d { registry := r, scope := s₁.workspace.scope, log } := fun log =>
    ((hAll.later (hBecomes log).path).tracked hc ha).refs hp
  have hFresh := (hTracked {}).fresh_iff_attached (hBecomes {}).sound
  refine ⟨hFresh, fun {before v} hWrite => ?_⟩
  obtain ⟨stored, hStores, hRead⟩ := PropertyRef.stores_of_setValue hWrite
  refine ⟨stored, hStores, fun hAttached {kinds options text log q w} hPart hClassify => ?_⟩
  have hGives : Classify.Gives { registry := r, scope := s₁.workspace.scope, log } w (.property d q) :=
    (Meets.of_ok hClassify).mp (classify_meets (hBecomes log).sound kinds options text)
  obtain ⟨hNow, hRegistry⟩ := hGives.property rfl
  have hNames : q.Tracked d w := hGives.tracked.refs (List.mem_singleton.mpr rfl)
  have hOwner : q.owner = p.owner := hNames.owner.trans (hTracked log).owner.symm
  have hProperty : q.property = p.property := hNames.property.trans (hTracked log).property.symm
  rw [hRegistry]
  exact hRead ((hFresh.mpr hAttached).target_eq hNow hOwner hPart hProperty)

/-- A script that writes a property of a part of one force model, after another force model has been
copied over it if `copied`. -/
def potentialScript (copied : Bool) : Session :=
  let s := ((Session.new {}).add (Catalog.forceModel "fm1")).2
  let s := (s.add (Catalog.forceModel "fm2")).2
  let s := if copied then s.push (.assignment (.make "fm1" "fm2") none) else s
  s.push (.assignment (.make "fm1.GravityField.Earth.PotentialFile" "'EGM96.cof'") none)

theorem reachable_potentialScript (copied : Bool) : (potentialScript copied).Reachable := by
  refine .push _ ?_
  cases copied with
  | false => exact .add _ (.add _ (.new _))
  | true => exact .push _ (.add _ (.add _ (.new _)))

/-- The script can be checked, its last command assigns to a property, and when the whole script has
run the command can be executed once more and leaves the property and the objects as `test` asks. -/
def lastProperty (s : Session) (test : Session → PropertyRef → Registry → Bool) : Bool :=
  match s.validate with
  | (.error _, _) => false
  | (.ok (), s₁) =>
    match s₁.commands.getLast? with
    | some (.assignment c _) =>
      match c.target, c.execute s₁.execute.2.registry with
      | some (.property _ p), .ok r => test s₁ p r
      | _, _ => false
    | _ => false

theorem exists_of_lastProperty {s : Session} {test : Session → PropertyRef → Registry → Bool}
    (h : s.lastProperty test = true) :
    ∃ s₁ c line d p r, s.validate = (.ok (), s₁) ∧ Command.assignment c line ∈ s₁.commands ∧
      c.target = some (.property d p) ∧ c.execute s₁.execute.2.registry = .ok r ∧ test s₁ p r = true := by
  unfold lastProperty at h
  split at h
  · cases h
  · next s₁ hValid =>
      split at h
      · next c line hLast =>
          split at h
          · next d p r hTarget hRun =>
              exact ⟨s₁, c, line, d, p, r, hValid, List.mem_of_getLast? hLast, hTarget, hRun, h⟩
          · cases h
      · cases h

/-- In the script without a copy the property is written and stays attached, and the value is read
back. -/
theorem property_fresh_after_write :
    (∃ s₁ r d p before v, (potentialScript false).validate = (.ok (), s₁) ∧ s₁.RunsTo r ∧
      p.Fresh s₁.workspace.scope r ∧ (Accessor.property d p).setValue before v = .ok r ∧
      ∃ stored, p.Stores before v stored ∧
        ∀ {kinds options text log q w}, q.part = p.part →
          Mission.classify kinds options text { registry := r, scope := s₁.workspace.scope, log } =
            (.ok (.property d q), w) →
          (Accessor.property d q).evaluate w.registry = .ok stored) ∧
    ((potentialScript false).run.2.evaluate "fm1.GravityField.Earth.PotentialFile").1.toOption.map
      Value.toText = some "EGM96.cof" := by
  refine ⟨?_, by decide +kernel⟩
  have hScript : (potentialScript false).lastProperty
      (fun s₁ p r => decide (p.Fresh s₁.workspace.scope r)) = true := by decide +kernel
  obtain ⟨s₁, c, line, d, p, r, hValid, hMem, hTarget, hExecute, hFresh⟩ := exists_of_lastProperty hScript
  have hOccurs := Command.occurs_of_mem hMem
  have hRun : s₁.RunsTo r := by
    let state : RunState := { registry := s₁.execute.2.registry }
    have hStep : s₁.RunsTo (s₁.executeCommand (.assignment c line) state).2.registry :=
      .step s₁.runsTo_execute hOccurs
    rwa [executeCommand, Execution.execute, Execution.runAssignment, hExecute] at hStep
  have hAccessor : Accessor.property d p ∈ (Command.assignment c line).accessors :=
    Assignment.mem_accessors.mpr (.inl hTarget)
  obtain ⟨hIff, hRead⟩ := property_fresh_iff_attached (reachable_potentialScript false) hValid hRun hOccurs
    hAccessor (List.mem_singleton.mpr rfl)
  have hFresh := of_decide_eq_true hFresh
  obtain ⟨before, v, hWrite⟩ := Assignment.setValue_of_execute hTarget hExecute
  obtain ⟨stored, hStores, hRead⟩ := hRead hWrite
  exact ⟨s₁, r, d, p, before, v, hValid, hRun, hFresh, hWrite, stored, hStores, hRead (hIff.mp hFresh)⟩

/-- In the script with a copy the write is lost. The copy has given the force model new parts, so
the property is not bound where its names lead, and the value read under its description is that of
the new part. -/
theorem write_lost_after_copy :
    (∃ s₁ c line d p, (potentialScript true).validate = (.ok (), s₁) ∧
      Command.assignment c line ∈ s₁.commands ∧ c.target = some (.property d p) ∧
      s₁.RunsTo s₁.execute.2.registry ∧ ¬ p.Fresh s₁.workspace.scope s₁.execute.2.registry) ∧
    ((potentialScript true).run.2.evaluate "fm1.GravityField.Earth.PotentialFile").1.toOption.map
      Value.toText = some "JGM2.cof" := by
  refine ⟨?_, by decide +kernel⟩
  have hScript : (potentialScript true).lastProperty
      (fun s₁ p _ => decide (¬ p.Fresh s₁.workspace.scope s₁.execute.2.registry)) = true := by
    decide +kernel
  obtain ⟨s₁, c, line, d, p, r, hValid, hMem, hTarget, -, hStale⟩ := exists_of_lastProperty hScript
  exact ⟨s₁, c, line, d, p, hValid, hMem, hTarget, s₁.runsTo_execute, of_decide_eq_true hStale⟩

end Session

end Mission
