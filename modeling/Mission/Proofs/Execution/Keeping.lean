import Mission.Execution
import Mission.Proofs.Accessor.Writing
import Mission.Proofs.Checking.Changes

/-! What a run keeps. All that a run does to objects is to write through the accessors of commands,
to add the values of right-hand sides, and to prepare calls. So a relation that each of these keeps
holds between the objects before and after a run, whichever way it ends. -/
namespace Mission

open Registry Outcome List Call Execution

/-- The objects of a run and the names in a scope. -/
def RunState.workspace (s : RunState) (scope : Scope) : Workspace :=
  { registry := s.registry, scope, log := s.log }

/-! ### Writing -/

/-- A relation that writing keeps, where `Through` holds of the accessors that are written through.
It need hold of a registry and itself only where something is written. -/
structure Registry.KeptByWrites (R : Registry → Registry → Prop) (Through : Accessor → Registry → Prop) :
    Prop where
  trans : ∀ {r r' r''}, R r r' → R r' r'' → R r r''
  last : ∀ {r r'}, R r r' → R r' r'
  later : ∀ {a r r'}, Through a r → R r r' → Through a r'
  object : ∀ {a r source r'}, R r r → Through a r → a.setObject r source = .ok r' → R r r'
  value : ∀ {a r v r'}, R r r → Through a r → a.setValue r v = .ok r' → R r r'
  output : ∀ {c : Assignment} {r source r'}, R r r → c.output r = .ok (source, r') → R r r'

section

variable {R : Registry → Registry → Prop} {Through : Accessor → Registry → Prop} {r r' : Registry}

/-- An assignment writes through its target alone. -/
theorem Registry.KeptByWrites.assignment (hR : KeptByWrites R Through) (hr : R r r) {a : Assignment}
    (hTarget : ∀ {t}, a.target = some t → Through t r) (h : a.execute r = .ok r') : R r r' := by
  obtain ⟨source, r₁, target, hOutput, hSome, hTransfer⟩ := Assignment.execute_eq_ok h
  have hFirst := hR.output hr hOutput
  have hThrough := hR.later (hTarget hSome) hFirst
  rcases Assignment.transfer_eq_ok hTransfer with ⟨id, -, hSet⟩ | ⟨-, v, hSet⟩
  · exact hR.trans hFirst (hR.object (hR.last hFirst) hThrough hSet)
  · exact hR.trans hFirst (hR.value (hR.last hFirst) hThrough hSet)

/-- A local object is written over another, or a value is written. -/
theorem Call.writeOutput_eq_ok {locals : Store} {function formal : String} {slot : Slot}
    (h : writeOutput locals function formal slot r = .ok r') :
    ∃ target id, slot.accessor = some target ∧ locals.find? r formal = some id ∧
      (target.setObject r id = .ok r' ∨ target.kind ≠ .object ∧ ∃ v, target.setValue r v = .ok r') := by
  unfold writeOutput at h
  split at h
  · cases h
  · cases h
  · next target id hTarget hFind =>
      refine ⟨target, id, hTarget, hFind, ?_⟩
      split at h
      · exact .inl (CommandError.liftAccess_eq_ok.mp h)
      · next hKind =>
          obtain ⟨v, -, h⟩ := bind_eq_ok.mp h
          exact .inr ⟨hKind, v, CommandError.liftAccess_eq_ok.mp h⟩

theorem Registry.KeptByWrites.writeOutput (hR : KeptByWrites R Through) (hr : R r r) {locals : Store}
    {function formal : String} {slot : Slot} (hSlot : ∀ {a}, slot.accessor = some a → Through a r)
    (h : writeOutput locals function formal slot r = .ok r') : R r r' := by
  obtain ⟨target, id, hTarget, -, hSet | ⟨-, v, hSet⟩⟩ := writeOutput_eq_ok h
  · exact hR.object hr (hSlot hTarget) hSet
  · exact hR.value hr (hSlot hTarget) hSet

/-- Outputs that have been written stay when a later one is refused. -/
theorem Registry.KeptByWrites.writeOutputs (hR : KeptByWrites R Through) (hr : R r r) (locals : Store)
    (function : String) {outputs : List (String × Slot)}
    (hOutputs : ∀ output ∈ outputs, ∀ {a}, output.2.accessor = some a → Through a r) :
    R r (writeOutputs locals function outputs r).2 := by
  induction outputs generalizing r with
  | nil => exact hr
  | cons output rest ih =>
    obtain ⟨formal, slot⟩ := output
    rw [writeOutputs]
    cases hWrite : Call.writeOutput locals function formal slot r with
    | error e => exact hr
    | ok r' =>
      have hFirst := hR.writeOutput hr (hOutputs _ mem_cons_self) hWrite
      refine hR.trans hFirst (ih (hR.last hFirst) fun output hMem a ha => ?_)
      exact hR.later (hOutputs output (mem_cons_of_mem _ hMem) ha) hFirst

end

/-! ### The local store of a call -/

/-- An object is added if its name is free, and under that name. -/
theorem Store.add_eq_ok {s s' : Store} {r r' : Registry} {a : Assembly} {id : ObjectId}
    (h : s.add r a = .ok (id, s', r')) :
    s.contains a.object.name = false ∧ id = (r.install a).1 ∧
      s' = { s with objects := s.objects.insert a.object.name (r.install a).1 } ∧ r' = (r.install a).2 := by
  dsimp only [add] at h
  split at h
  · cases h
  · next hFree =>
      cases h
      exact ⟨by simpa using hFree, rfl, rfl, rfl⟩

namespace Call

section

/-! What each added object keeps, the filled store has. -/

variable {J : Store → Registry → Prop} {c : Call} {declared : List Assembly} {s s' : Store} {r r' : Registry}
  (hAdd : ∀ {s r a id s' r'}, J s r → (a ∈ declared ∨ ∃ formal, ∃ actual ∈ Slot.accessors c.inputs,
    inputObject r formal actual = .ok a) → s.add r a = .ok (id, s', r') → J s' r')
include hAdd

theorem addLocal_keeps {a : Assembly} (hJ : J s r) (hSource : a ∈ declared ∨
      ∃ formal, ∃ actual ∈ Slot.accessors c.inputs, inputObject r formal actual = .ok a)
    (h : addLocal s r a = .ok (s', r')) : J s' r' := by
  obtain ⟨⟨id, s₁, r₁⟩, hStore, hDone⟩ := bind_eq_ok.mp h
  cases hDone
  exact hAdd hJ hSource (CommandError.liftObject_eq_ok.mp hStore)

theorem addInputs_keeps {inputs : List (String × Slot)} (hInputs : ∀ input ∈ inputs, input.2 ∈ c.inputs)
    (hJ : J s r) (h : addInputs inputs s r = .ok (s', r')) : J s' r' := by
  induction inputs generalizing s r with
  | nil =>
    cases h
    exact hJ
  | cons input rest ih =>
    rw [addInputs] at h
    split at h
    · cases h
    · next actual hActual =>
        obtain ⟨a, hInput, h⟩ := bind_eq_ok.mp h
        obtain ⟨⟨s₁, r₁⟩, hFirst, h⟩ := bind_eq_ok.mp h
        have hMem : actual ∈ Slot.accessors c.inputs :=
          Slot.mem_accessors.mpr ⟨_, hInputs _ mem_cons_self, hActual⟩
        exact ih (fun input hMem => hInputs input (mem_cons_of_mem _ hMem))
          (addLocal_keeps hAdd hJ (.inr ⟨_, _, hMem, hInput⟩) hFirst) h

theorem addLocals_keeps {locals : List Assembly} (hLocals : locals ⊆ declared) (hJ : J s r)
    (h : addLocals locals s r = .ok (s', r')) : J s' r' := by
  induction locals generalizing s r with
  | nil =>
    cases h
    exact hJ
  | cons a rest ih =>
    obtain ⟨⟨s₁, r₁⟩, hFirst, h⟩ := bind_eq_ok.mp h
    rw [cons_subset] at hLocals
    exact ih hLocals.2 (addLocal_keeps hAdd hJ (.inl hLocals.1) hFirst) h

/-- What holds while objects are added one by one holds of the store of a call. -/
theorem localStore_keeps {f : UserFunction} (hDeclared : f.locals.map r.copy ⊆ declared) (hJ : J {} r)
    (h : c.localStore f r = .ok (s', r')) : J s' r' := by
  obtain ⟨⟨s, r₁⟩, hInputs, h⟩ := bind_eq_ok.mp h
  exact addLocals_keeps hAdd hDeclared (addInputs_keeps hAdd (fun _ hMem => (of_mem_zip hMem).2) hJ hInputs) h

end

end Call

namespace Execution

variable {ck : Checker} {scope : Scope} {stack : List String} {c : Call} {f : UserFunction}
  {locate : CommandError → ValidationError} {s s' : RunState}

/-- A call is refused, or the body of the function is checked among its local objects. -/
theorem prepare_cases {x : Except ValidationError Frame} (h : prepare ck scope c f locate s = (x, s')) :
    (s' = s ∧ ∃ e, x = .error e) ∨
    ∃ store r y body checked, c.localStore f s.registry = .ok (store, r) ∧
      (ck.enter c.function).validateAll f.body
        { workspace := { registry := r, scope := scope.enter store, log := s.log } } = (y, body, checked) ∧
      s' = { s with registry := checked.workspace.registry, log := checked.workspace.log } ∧
      ∀ {frame}, x = .ok frame → frame = ⟨checked.workspace.scope, body⟩ ∧ ∃ valid, y = .ok valid := by
  unfold prepare at h
  split at h
  · cases h
    exact .inl ⟨rfl, _, rfl⟩
  · next store r hLocal =>
      dsimp only at h
      rcases hCheck : (ck.enter c.function).validateAll f.body
        { workspace := { registry := r, scope := scope.enter store, log := s.log } } with ⟨y, body, checked⟩
      rw [hCheck] at h
      refine .inr ⟨store, r, y, body, checked, hLocal, hCheck, ?_⟩
      cases y with
      | error e =>
        cases h
        exact ⟨rfl, nofun⟩
      | ok valid =>
        cases h
        refine ⟨rfl, fun hFrame => ?_⟩
        cases hFrame
        exact ⟨rfl, valid, rfl⟩

/-- What a round keeps, the loop keeps, also where it is cut off. -/
theorem loop_keeps {J : RunState → Prop} {holds : Registry → Except CommandError Bool}
    {exceeded : CommandError} {body : Run} (hBody : ∀ {s}, J s → J (body s).2) (budget : Nat) (h : J s) :
    J (loop holds locate exceeded body budget s).2 := by
  induction budget generalizing s with
  | zero =>
    rw [loop]
    split <;> exact h
  | succ budget ih =>
    rw [loop]
    split
    · exact h
    · exact h
    · have hNext := hBody h
      rcases hRun : body s with ⟨x, s'⟩
      rw [hRun] at hNext
      cases x with
      | error e => exact hNext
      | ok _ => exact ih hNext

/-- The objects are related, and the report has only grown. -/
structure Keeps (R : Registry → Registry → Prop) (s s' : RunState) : Prop where
  registry : R s.registry s'.registry
  output : ∃ written, s'.output.toList = s.output.toList ++ written

theorem Keeps.of_registry {R : Registry → Registry → Prop} (h : R s.registry s'.registry)
    (hOutput : s'.output = s.output) : Keeps R s s' :=
  ⟨h, [], by rw [hOutput, append_nil]⟩

/-- A call ends by writing its outputs, and writes nothing else. -/
theorem finish_keeps {R : Registry → Registry → Prop} {Through : Accessor → Registry → Prop}
    (hR : Registry.KeptByWrites R Through) (hs : R s.registry s.registry)
    (hOutputs : ∀ {a}, a ∈ Slot.accessors c.outputs → Through a s.registry) (locals : Store) :
    Keeps R s (finish c f locals locate s).2 := by
  have hWritten : R s.registry (writeOutputs locals c.function (f.outputs.zip c.outputs) s.registry).2 := by
    refine hR.writeOutputs hs locals c.function fun output hOutput a ha => hOutputs ?_
    exact Slot.mem_accessors.mpr ⟨output.2, (of_mem_zip hOutput).2, ha⟩
  unfold finish
  rcases hRun : writeOutputs locals c.function (f.outputs.zip c.outputs) s.registry with ⟨x, r⟩
  rw [hRun] at hWritten
  cases x <;> exact .of_registry hWritten rfl

/-- A relation that every command keeps which is `Fine` in its scope. -/
structure Steady (R : Registry → Registry → Prop) (Through : Accessor → Registry → Prop)
    (Fine : Checker → Scope → Registry → List Command → Prop) : Prop extends Registry.KeptByWrites R Through
      where
  refl : ∀ {ck scope r cs}, Fine ck scope r cs → R r r
  next : ∀ {ck scope r r' cs}, Fine ck scope r cs → R r r' → Fine ck scope r' cs
  part : ∀ {ck scope r cs ds}, Fine ck scope r cs → (∀ {c}, Command.Occurs c ds → Command.Occurs c cs) →
    Fine ck scope r ds
  assigned : ∀ {ck scope r a line t}, Fine ck scope r [.assignment a line] → a.target = some t → Through t r
  called : ∀ {ck scope r c line a}, Fine ck scope r [.call c line] → a ∈ Slot.accessors c.outputs →
    Through a r
  prepared : ∀ {ck scope c line f locate s x s'}, Fine ck scope s.registry [.call c line] →
    ck.functions.get? c.function = some f → prepare ck scope c f locate s = (x, s') →
    R s.registry s'.registry ∧ ∀ {frame}, x = .ok frame → Fine (ck.enter c.function) frame.scope s'.registry
      frame.body

namespace Steady

variable {R : Registry → Registry → Prop} {Through : Accessor → Registry → Prop}
  {Fine : Checker → Scope → Registry → List Command → Prop}
  {onCall : Call → (CommandError → ValidationError) → Run}

theorem chain (hR : Steady R Through Fine) {s'' : RunState} (h : Keeps R s s') (h' : Keeps R s' s'') :
    Keeps R s s'' := by
  obtain ⟨written, hWritten⟩ := h.output
  obtain ⟨more, hMore⟩ := h'.output
  exact ⟨hR.trans h.registry h'.registry, written ++ more, by rw [hMore, hWritten, append_assoc]⟩

mutual

theorem execute_of (hR : Steady R Through Fine)
    (hCall : ∀ c line locate s, Fine ck scope s.registry [.call c line] → Keeps R s (onCall c locate s).2)
    (c : Command) {s : RunState} (hs : Fine ck scope s.registry [c]) :
    Keeps R s (execute ck onCall c s).2 := by
  have hSame : Keeps R s s := .of_registry (hR.refl hs) rfl
  cases c with
  | assignment a line =>
    rw [execute, runAssignment]
    cases hRun : a.execute s.registry with
    | error e => exact hSame
    | ok r => exact .of_registry (hR.assignment (hR.refl hs) (hR.assigned hs) hRun) rfl
  | branch kind chain body otherwise line =>
    have hBody := hR.part hs fun hc => .inside (Command.occurs_append.mpr (.inl hc))
    cases kind with
    | ifThen =>
      rw [execute]
      split
      · exact hSame
      · exact executeAll_of hR hCall body hBody
      · exact executeAll_of hR hCall otherwise
          (hR.part hs fun hc => .inside (Command.occurs_append.mpr (.inr hc)))
    | whileLoop =>
      rw [execute]
      refine loop_keeps (J := Keeps R s) (fun {s'} hs' => ?_) _ hSame
      exact hR.chain hs' (executeAll_of hR hCall body (hR.next hBody hs'.registry))
  | report c line =>
    rw [execute, runReport]
    split
    · next written _ => exact ⟨hSame.registry, [written], by simp [RunState.note]⟩
    · exact hSame
  | propagate c line =>
    rw [execute]
    exact .of_registry (hR.refl hs) rfl
  | call c line =>
    rw [execute]
    exact hCall c line _ s hs

/-- What one command keeps, a list keeps up to the command that fails. -/
theorem executeAll_of (hR : Steady R Through Fine)
    (hCall : ∀ c line locate s, Fine ck scope s.registry [.call c line] → Keeps R s (onCall c locate s).2)
    (cs : List Command) {s : RunState} (hs : Fine ck scope s.registry cs) :
    Keeps R s (executeAll ck onCall cs s).2 := by
  cases cs with
  | nil =>
    rw [executeAll]
    exact .of_registry (hR.refl hs) rfl
  | cons c rest =>
    have hFirst := execute_of hR hCall c (hR.part hs Command.Occurs.first)
    rw [executeAll]
    rcases hRun : execute ck onCall c s with ⟨x, s'⟩
    rw [hRun] at hFirst
    cases x with
    | error e => exact hFirst
    | ok _ =>
      have hRest := hR.next (hR.part hs fun hc => .later hc) hFirst.registry
      exact hR.chain hFirst (executeAll_of hR hCall rest hRest)

end

/-- Calls inside calls keep it as well. The induction is on how deep they can still go. -/
theorem invoke (hR : Steady R Through Fine) (depth : Nat) (stack : List String) (c : Call) (line : Option Nat)
    (locate : CommandError → ValidationError) (s : RunState) (hs : Fine ck scope s.registry [.call c line]) :
    Keeps R s (invoke depth ck scope stack c locate s).2 := by
  have hSame : ∀ {s : RunState}, R s.registry s.registry → Keeps R s s := fun h => .of_registry h rfl
  induction depth generalizing ck scope stack c line locate s with
  | zero =>
    unfold invoke
    dsimp only
    split
    · exact hSame (hR.refl hs)
    · cases ck.functions.get? c.function <;> exact hSame (hR.refl hs)
  | succ depth ih =>
    unfold invoke
    dsimp only
    split
    · exact hSame (hR.refl hs)
    · cases hf : ck.functions.get? c.function with
      | none => exact hSame (hR.refl hs)
      | some f =>
        dsimp only
        rcases hPrepare : prepare ck scope c f locate s with ⟨x, s₁⟩
        obtain ⟨hFirst, hFrame⟩ := hR.prepared hs hf hPrepare
        have hOutput : s₁.output = s.output := by
          rcases prepare_cases hPrepare with ⟨rfl, -⟩ | ⟨_, _, _, _, _, -, -, rfl, -⟩ <;> rfl
        have hPrepared : Keeps R s s₁ := .of_registry hFirst hOutput
        cases x with
        | error e => exact hPrepared
        | ok frame =>
          have hBody := executeAll_of hR (ih (c.function :: stack)) frame.body (hFrame rfl)
          dsimp only
          rcases hRun : executeAll (ck.enter c.function)
            (invoke depth (ck.enter c.function) frame.scope (c.function :: stack)) frame.body s₁
            with ⟨y, s₂⟩
          rw [hRun] at hBody
          have hRan := hR.chain hPrepared hBody
          cases y with
          | error e => exact hRan
          | ok _ =>
            have hLater := hR.next hs hRan.registry
            exact hR.chain hRan (finish_keeps hR.toKeptByWrites (hR.refl hLater) (hR.called hLater) _)

theorem execute (hR : Steady R Through Fine) (depth : Nat) (stack : List String) {c : Command}
    (hs : Fine ck scope s.registry [c]) :
    Keeps R s (execute ck (Execution.invoke depth ck scope stack) c s).2 :=
  execute_of hR (hR.invoke depth stack) c hs

theorem executeAll (hR : Steady R Through Fine) (depth : Nat) (stack : List String) {cs : List Command}
    (hs : Fine ck scope s.registry cs) :
    Keeps R s (executeAll ck (Execution.invoke depth ck scope stack) cs s).2 :=
  executeAll_of hR (hR.invoke depth stack) cs hs

end Steady

end Execution

end Mission
