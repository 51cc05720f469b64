import Mission.Proofs.Execution.CallByValue
import Mission.Proofs.Session.Completeness

/-! Calls by value. When a script calls a function, and all its functions write to their local names
only, the call leaves every object of the script as it was, apart from those that it writes through
its own outputs, and it writes these only if the body has succeeded. This needs an argument for
every formal input, since a formal name without one is looked up outside, and types that tell
Parameters from other objects. -/
namespace Mission

open Registry Outcome

/-- The objects from which the value of an object is computed: the object, and the owner and the
dependency of a system Parameter. -/
def Registry.sources (r : Registry) (id : ObjectId) : List ObjectId :=
  id :: match (r.object id).parameter? with
    | some p => p.owner.toList ++ p.dependencyObject.toList
    | none => []

theorem Registry.evaluate_of_sources {r r' : Registry} {id : ObjectId}
    (h : ∀ o ∈ r.sources id, r'.entry o = r.entry o) : r'.evaluate id = r.evaluate id := by
  have hObject : ∀ o ∈ r.sources id, r'.object o = r.object o := fun o ho => congrArg Entry.object (h o ho)
  have hSelf : r'.object id = r.object id := hObject id List.mem_cons_self
  unfold Registry.evaluate
  rw [hSelf]
  dsimp only
  split
  · next p hContent =>
      have hParameter : (r.object id).parameter? = some p := by rw [Object.parameter?, hContent]
      have hSources : r.sources id = id :: (p.owner.toList ++ p.dependencyObject.toList) := by
        rw [Registry.sources, hParameter]
      rw [hSources] at hObject
      have hDependency : p.dependencyObject.map r'.object = p.dependencyObject.map r.object := by
        cases hBound : p.dependencyObject with
        | none => rfl
        | some o =>
          have hSame := hObject o (by simp [hBound])
          simp [hSame]
      cases hOwner : p.owner with
      | none =>
        rw [ownerOf, hOwner]
        rfl
      | some owner =>
        have hSame := hObject owner (by simp [hOwner])
        rw [ownerOf, hOwner, hDependency]
        change p.kind.quantity.compute (r'.object owner) _ = p.kind.quantity.compute (r.object owner) _
        rw [hSame]
  · rfl

/-- An accessor for an object that is copied as a whole does not stand for a system Parameter. -/
def Accessor.isPlain (r : Registry) : Accessor → Bool
  | .whole _ .object (some id) => (r.object id).parameter?.isNone
  | _ => true

namespace Session

/-- What copying takes: the function gets an argument for every formal input, and the types of
objects tell Parameters from other objects. -/
structure Copies (s : Session) (r : Registry) (c : Call) : Prop where
  arguments : ∀ f ∈ s.checker.functions.get? c.function, f.inputs.length ≤ c.inputs.length
  registry : r.Regular s.checker.kinds
  locals : ∀ f ∈ s.checker.functions.values, ∀ e ∈ f.locals,
    e.object.Regular s.checker.kinds ∧ e.object.parameter? = none
  plain : ∀ a ∈ Slot.accessors c.slots, a.isPlain r = true

instance (s : Session) (r : Registry) (c : Call) : Decidable (s.Copies r c) :=
  decidable_of_iff
    ((∀ f ∈ s.checker.functions.get? c.function, f.inputs.length ≤ c.inputs.length) ∧
      r.Regular s.checker.kinds ∧
      (∀ f ∈ s.checker.functions.values, ∀ e ∈ f.locals,
        e.object.Regular s.checker.kinds ∧ e.object.parameter? = none) ∧
      ∀ a ∈ Slot.accessors c.slots, a.isPlain r = true)
    ⟨fun h => ⟨h.1, h.2.1, h.2.2.1, h.2.2.2⟩, fun h => ⟨h.arguments, h.registry, h.locals, h.plain⟩⟩

/-- The call up to the point where its outputs are to be written. -/
def callBody (s : Session) (c : Call) (line : Option Nat) (state : RunState) :
    Except ValidationError (UserFunction × Store) × RunState :=
  Execution.callBody s.checker.functions.size s.checker s.workspace.scope [] c
    (s.checker.locate · c.text line)
    state

/-- The objects that the call writes through its outputs: none if its body fails. -/
def outputsWritten (s : Session) (c : Call) (line : Option Nat) (state : RunState) : List ObjectId :=
  match s.callBody c line state with
  | (.error _, _) => []
  | (.ok _, ended) => (Slot.accessors c.outputs).flatMap (Accessor.written ended.registry)

variable {s : Session} {c : Call} {line : Option Nat} {state : RunState}

/-- The accessors of a call in a script that has been checked stand for what they are taken for. -/
theorem admissible_of_occurs (hReachable : s.Reachable) (hValidated : s.validated = true)
    (hRun : s.RunsTo state.registry) (hc : (Command.call c line).Occurs s.commands)
    (hCopies : s.Copies state.registry c) : c.Admissible s.checker.functions state.registry where
  arguments hf := hCopies.arguments _ hf
  standing {a} ha := by
    have hWritable := hReachable.sound.writable hValidated
    have hBecomes := hRun.becomes hReachable.sound.workspace hWritable {}
    refine ⟨fun {d k id} hWhole => ?_, fun {d id} hWhole => ?_⟩
    · exact hBecomes.path.registry.has ((hWritable.writable hc ha).whole hWhole).has
    · have hPlain := hCopies.plain a ha
      rw [hWhole, Accessor.isPlain] at hPlain
      exact Option.isNone_iff_eq_none.mp hPlain

/-- The surroundings of all calls of a script. -/
theorem setting_of_runsTo (hReachable : s.Reachable) (hValidated : s.validated = true)
    (hRun : s.RunsTo state.registry)
    (hFunctions : ∀ f ∈ s.checker.functions.values, f.WritesLocally s.store state.registry)
    (hCopies : s.Copies state.registry c) : Execution.Setting s.checker state.registry s.store := by
  have hKinds : s.checker.kinds = ParameterKinds.builtin :=
    hReachable.checker_of (P := fun ck => ck.kinds = ParameterKinds.builtin) (fun _ => rfl) fun _ h => h
  have hBecomes :=
    hRun.becomes hReachable.sound.workspace (hReachable.sound.writable hValidated) {}
  have hValues : ∀ {name f}, s.checker.functions.get? name = some f → f ∈ s.checker.functions.values :=
    fun hf => List.mem_map.mpr ⟨_, Table.mem_of_get? hf, rfl⟩
  exact
    { apart := hKinds ▸ ParameterKinds.apart_builtin
      forest := hBecomes.sound.forest
      store := hBecomes.sound.scope.store
      functions := fun hf => hFunctions _ (hValues hf)
      locals := fun hf => hCopies.locals _ (hValues hf) }

/-- In a script that has been checked, whatever commands have run since, and whether a call succeeds
or fails: if all functions write to their local names only, the call changes no object of the script
but those that it writes through its outputs. All others keep their properties, their parts and
their value; that of a system Parameter is kept if the objects it is computed from are. -/
theorem call_by_value (hReachable : s.Reachable) (hValidated : s.validated = true)
    (hRun : s.RunsTo state.registry) (hc : (Command.call c line).Occurs s.commands)
    (hFunctions : ∀ f ∈ s.checker.functions.values, f.WritesLocally s.store state.registry)
    (hCopies : s.Copies state.registry c) :
    (∀ id, state.registry.Has id → id ∉ s.outputsWritten c line state →
      (s.executeCommand (.call c line) state).2.registry.entry id = state.registry.entry id) ∧
    (∀ id, (∀ o ∈ state.registry.sources id, state.registry.Has o ∧ o ∉ s.outputsWritten c line state) →
      (s.executeCommand (.call c line) state).2.registry.evaluate id = state.registry.evaluate id) := by
  have hSetting := setting_of_runsTo hReachable hValidated hRun hFunctions hCopies
  have hAdmissible := admissible_of_occurs hReachable hValidated hRun hc hCopies
  have hBody : Writes s.checker.kinds state.registry.Lacks state.registry
      (s.callBody c line state).2.registry :=
    Execution.callBody_writes _ hSetting rfl (.refl hCopies.registry) hAdmissible
  have hEntry : ∀ id, state.registry.Has id → id ∉ s.outputsWritten c line state →
      (s.executeCommand (.call c line) state).2.registry.entry id = state.registry.entry id := by
    intro id hId hNot
    have hKept := hBody.entry hId fun hLacks => hLacks hId
    rw [executeCommand, Execution.execute, Execution.invoke_eq, ← Session.callBody]
    rw [outputsWritten] at hNot
    rcases hCall : s.callBody c line state with ⟨_ | ⟨f, locals⟩, ended⟩
    · rw [hCall] at hKept
      exact hKept
    · rw [hCall] at hNot hBody hKept
      -- The outputs are written where their accessors led before the call.
      have hOutputs : ∀ a ∈ Slot.accessors c.outputs, a.Standing ended.registry ∧
          ∀ o ∈ a.written ended.registry,
            o ∈ (Slot.accessors c.outputs).flatMap (Accessor.written ended.registry) := by
        intro a ha
        have hStanding := hAdmissible.standing (Call.mem_accessors_slots.mpr (.inr ha))
        exact ⟨hStanding.later hBody, fun o ho => List.mem_flatMap.mpr ⟨a, ha, ho⟩⟩
      have hFinish : Writes s.checker.kinds
          (· ∈ (Slot.accessors c.outputs).flatMap (Accessor.written ended.registry)) ended.registry
          (Execution.finish c f locals (s.checker.locate · c.text line) ended).2.registry :=
        Execution.finish_writes hSetting.apart hBody.regular locals hOutputs
      exact (hFinish.entry (hBody.has hId) hNot).trans hKept
  refine ⟨hEntry, fun id hSources => evaluate_of_sources fun o ho => ?_⟩
  exact hEntry o (hSources o ho).1 (hSources o ho).2

/-- The state in which a run of the script starts. -/
def start (s : Session) : RunState :=
  { registry := s.registry, log := s.log }

/-- The last command of the script is a call as `test` asks. -/
def lastCall (s : Session) (test : Call → Option Nat → Bool) : Bool :=
  match s.commands.getLast? with
  | some (.call c line) => test c line
  | _ => false

theorem exists_of_lastCall {test : Call → Option Nat → Bool} (h : s.lastCall test = true) :
    ∃ c line, (Command.call c line).Occurs s.commands ∧ test c line = true := by
  unfold lastCall at h
  split at h
  · next c line hLast => exact ⟨c, line, Command.occurs_of_mem (List.mem_of_getLast? hLast), h⟩
  · cases h

/-- A function that writes to its inputs and passes one of them to another function, which writes to
it as well. -/
def nestedScript : Session :=
  let s := ((Session.new {}).add (Catalog.userString "title" "old")).2
  let s := (s.add (Catalog.userString "result" "")).2
  let s := (s.add (Catalog.reportFile "file")).2
  let s := s.addFunction
    { name := "Inner", inputs := ["m"], outputs := ["m"],
      body := [.assignment (.make "m" "'inner'") none] }
  let s := s.addFunction
    { name := "Outer", inputs := ["t", "f"], outputs := ["r"], locals := [Catalog.userString "r" ""],
      body := [.assignment (.make "f.Filename" "'local.txt'") none, .assignment (.make "t" "'changed'") none,
        .call (.make "Inner" ["t"] ["r"]) none] }
  (s.push (.call (.make "Outer" ["title", "file"] ["result"]) none)).validate.2

theorem reachable_nestedScript : nestedScript.Reachable :=
  .validate (.push _ (.addFunction _ (.addFunction _ (.add _ (.add _ (.add _ (.new _)))))))

/-- Both inputs are written in the functions and keep their values in the script. -/
theorem call_by_value_nestedScript :
    (∃ c line, nestedScript.validated = true ∧ (Command.call c line).Occurs nestedScript.commands ∧
      (∀ f ∈ nestedScript.checker.functions.values,
        f.WritesLocally nestedScript.store nestedScript.start.registry) ∧
      nestedScript.Copies nestedScript.start.registry c ∧
      (nestedScript.outputsWritten c line nestedScript.start).length = 1 ∧
      ∀ id, nestedScript.start.registry.Has id →
        id ∉ nestedScript.outputsWritten c line nestedScript.start →
        (nestedScript.executeCommand (.call c line) nestedScript.start).2.registry.entry id =
          nestedScript.start.registry.entry id) ∧
    (["title", "file.Filename", "result"].map fun text =>
      (nestedScript.run.2.evaluate text).1.toOption.map Value.toText) =
      [some "old", some "file.txt", some "inner"] := by
  refine ⟨?_, by decide +kernel⟩
  have hScript : nestedScript.validated = true ∧
      (∀ f ∈ nestedScript.checker.functions.values,
        f.WritesLocally nestedScript.store nestedScript.start.registry) ∧
      nestedScript.lastCall (fun c line => decide (nestedScript.Copies nestedScript.start.registry c ∧
        (nestedScript.outputsWritten c line nestedScript.start).length = 1)) = true := by
    decide +kernel
  obtain ⟨hValidated, hFunctions, hCall⟩ := hScript
  obtain ⟨c, line, hOccurs, hTest⟩ := exists_of_lastCall hCall
  obtain ⟨hCopies, hLength⟩ := of_decide_eq_true hTest
  exact ⟨c, line, hValidated, hOccurs, hFunctions, hCopies, hLength,
    (call_by_value reachable_nestedScript hValidated .start hOccurs hFunctions hCopies).1⟩

/-- A function is called without an argument for its input. -/
def unfilledScript : Session :=
  let s := ((Session.new { manage := .unmanaged }).add (Catalog.userString "b" "old")).2
  let s := s.addFunction
    { name := "F", inputs := ["b"], outputs := [], body := [.assignment (.make "b" "'new'") none] }
  (s.push (.call (.make "F" [] []) none)).validate.2

/-- An argument is no Parameter and has the type name of one. -/
def disguisedScript : Session :=
  let s := ((Session.new {}).add
    (.ofObject (Catalog.plain "probe" "Probe" .spacecraft [.string "X" "old"]))).2
  let s := (s.add (.ofObject (Catalog.plain "mark" "X" .unknown []))).2
  let s := s.addFunction
    { name := "Inner", inputs := ["m"], outputs := [], body := [.assignment (.make "m" "'new'") none] }
  let s := s.addFunction
    { name := "Outer", inputs := ["n"], outputs := [],
      body := [.assignment (.make "n" "probe.X") none, .call (.make "Inner" ["n"] []) none] }
  (s.push (.call (.make "Outer" ["mark"] []) none)).validate.2

/-- A property of an object, or its value, as text. -/
def textOf (r : Registry) (id : ObjectId) : Option String → Option String
  | some property => ((r.object id).get property).toOption.map Value.toText
  | none => (r.evaluate id).toOption.map Value.toText

/-- All functions of the script write to their local names only, and still a call changes the object
of that name, which none of its outputs writes. -/
def Leaks (s : Session) (name : String) (property : Option String) : Prop :=
  s.Reachable ∧ s.validated = true ∧
    (∀ f ∈ s.checker.functions.values, f.WritesLocally s.store s.start.registry) ∧
    ∃ c line id, (Command.call c line).Occurs s.commands ∧ s.find? name = some id ∧
      id ∉ s.outputsWritten c line s.start ∧
      textOf (s.executeCommand (.call c line) s.start).2.registry id property ≠
        textOf s.start.registry id property

theorem leaks_of_lastCall {name : String} {property : Option String} (hReachable : s.Reachable)
    (h : s.validated = true ∧
      (∀ f ∈ s.checker.functions.values, f.WritesLocally s.store s.start.registry) ∧
      s.lastCall (fun c line => (s.find? name).any fun id => decide (id ∉ s.outputsWritten c line s.start ∧
        textOf (s.executeCommand (.call c line) s.start).2.registry id property ≠
          textOf s.start.registry id property)) = true) : s.Leaks name property := by
  obtain ⟨hValidated, hFunctions, hCall⟩ := h
  obtain ⟨c, line, hOccurs, hTest⟩ := exists_of_lastCall hCall
  obtain ⟨id, hFind, hChanged⟩ := (Option.any_eq_true _ _).mp hTest
  exact ⟨hReachable, hValidated, hFunctions, c, line, id, hOccurs, hFind, of_decide_eq_true hChanged⟩

/-- Without an argument the formal name leads to the object of the script, which the function then
writes. And an object with the type name of a Parameter becomes one when it is overwritten with a
Parameter; a function it is passed to copies the Parameter with its owner, and writes that. -/
theorem call_changes_caller :
    unfilledScript.Leaks "b" none ∧ disguisedScript.Leaks "probe" (some "X") := by
  constructor
  · refine leaks_of_lastCall ?_ (by decide +kernel)
    exact .validate (.push _ (.addFunction _ (.add _ (.new _))))
  · refine leaks_of_lastCall ?_ (by decide +kernel)
    exact .validate (.push _ (.addFunction _ (.addFunction _ (.add _ (.add _ (.new _))))))

end Session

end Mission
