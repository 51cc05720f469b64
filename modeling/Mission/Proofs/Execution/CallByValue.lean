import Mission.Proofs.Classify.Locality
import Mission.Proofs.Execution.Tracking

/-! Functions work on copies. A call fills a local store with copies of its inputs and with the
objects that the function declares, all of them new. A function that writes to its local names only,
and calls only such functions, writes nothing that was there before the call until its outputs are
written. -/
namespace Mission

open Registry Outcome List Call Slot

namespace UserFunction

/-- The names of the objects that a call of the function makes. -/
def localNames (f : UserFunction) : List String :=
  f.inputs ++ f.locals.map fun e => e.object.name

/-- The function writes to its local names only, which are identifiers, and the script has no object
under such a name. -/
structure WritesLocally (f : UserFunction) (globals : Store) (r : Registry) : Prop where
  valid : ∀ name ∈ f.localNames, Name.isValid name = true ∧ name ≠ "SolarSystem"
  free : ∀ name ∈ f.localNames, ∀ key ∈ globals.names r, Name.isUnder name key = false
  written : ∀ c ∈ Command.preorderAll f.body, ∀ text ∈ c.targets, (Phrase.parse text).Within f.localNames

instance (f : UserFunction) (globals : Store) (r : Registry) : Decidable (f.WritesLocally globals r) :=
  decidable_of_iff
    ((∀ name ∈ f.localNames, Name.isValid name = true ∧ name ≠ "SolarSystem") ∧
      (∀ name ∈ f.localNames, ∀ key ∈ globals.names r, Name.isUnder name key = false) ∧
      ∀ c ∈ Command.preorderAll f.body, ∀ text ∈ c.targets, (Phrase.parse text).Within f.localNames)
    ⟨fun h => ⟨h.1, h.2.1, h.2.2⟩, fun h => ⟨h.valid, h.free, h.written⟩⟩

end UserFunction

/-! ### Filling the local store -/

theorem WholeKind.eq_object {k : WholeKind} (h : k.kind = .object) : k = .object := by
  cases k with
  | object => rfl
  | _ => cases h

theorem Accessor.exists_of_evaluateObject {a : Accessor} {id : ObjectId} (h : a.evaluateObject = .ok id) :
    ∃ d k, a = .whole d k (some id) := by
  cases a with
  | whole d k target =>
    cases boundTo_eq_ok h
    exact ⟨d, k, rfl⟩
  | _ => cases h

namespace Call

variable {kinds : ParameterKinds} {r r' now : Registry} {store store' : Store}
variable {a : Assembly} {names : List String}

/-- A copy of an input is no Parameter. -/
theorem inputObject_spec (hApart : kinds.Apart) (hRegular : r.Regular kinds) {formal : String}
    {actual : Accessor} (hStanding : actual.Standing r) (h : inputObject r formal actual = .ok a) :
    a.object.name = formal ∧ a.Regular kinds ∧ a.object.parameter? = none := by
  unfold inputObject at h
  split at h
  · next hKind =>
      obtain ⟨id, hObject, h⟩ := bind_eq_ok.mp h
      cases h
      have hAssembly := regular_assembly hApart hRegular id
      have hNone : (r.object id).parameter? = none := by
        obtain ⟨d, k, rfl⟩ := Accessor.exists_of_evaluateObject (CommandError.liftAccess_eq_ok.mp hObject)
        obtain rfl := WholeKind.eq_object hKind
        exact hStanding.copied rfl
      refine ⟨rfl, hAssembly.withObject (hAssembly.object.sameKind ⟨rfl, rfl, rfl⟩), ?_⟩
      change (r.assembly id).object.parameter? = none
      rw [object_assembly, hNone]
  · obtain ⟨v, -, h⟩ := bind_eq_ok.mp h
    split at h
    · next m =>
        obtain ⟨o, hStore, h⟩ := bind_eq_ok.mp h
        cases h
        have hTakes := Object.takes_store (CommandError.liftObject_eq_ok.mp hStore)
        have hArray := Assembly.regular_userArray hApart formal m.rows m.cols
        exact ⟨hTakes.sameShape.name, hArray.withObject (hArray.object.sameKind hTakes.sameKind),
          hTakes.sameKind.parameter⟩
    · cases h
      exact ⟨rfl, Assembly.regular_userVariable hApart _ _, rfl⟩
    · cases h
      exact ⟨rfl, Assembly.regular_userVariable hApart _ _, rfl⟩
    · cases h
      exact ⟨rfl, Assembly.regular_userString hApart _ _, rfl⟩

/-- A local store that is being filled with new objects under these names. -/
structure Copies (kinds : ParameterKinds) (r : Registry) (names : List String) (store : Store)
    (now : Registry) : Prop where
  writes : Writes kinds r.Lacks r now
  system : store.solarSystem = none
  fresh : ∀ {key id}, store.objects.get? key = some id →
    (r.Lacks id ∧ now.Has id) ∧ (now.object id).parameter? = none
  named : ∀ {name}, name ∈ names → ∃ id, store.objects.get? name = some id

theorem Copies.add (h : Copies kinds r names store now) (hAssembly : a.Regular kinds)
    (hNone : a.object.parameter? = none) (hAdd : addLocal store now a = .ok (store', r')) :
    Copies kinds r (names ++ [a.object.name]) store' r' ∧ Writes kinds r.Lacks now r' := by
  obtain ⟨⟨id, s, r₁⟩, hAdd, hDone⟩ := bind_eq_ok.mp hAdd
  cases hDone
  obtain ⟨-, rfl, rfl, rfl⟩ := Store.add_eq_ok (CommandError.liftObject_eq_ok.mp hAdd)
  have hWrites : Writes kinds r.Lacks now (now.install a).2 := writes_install h.writes.regular hAssembly
  have hLoose := (install_grows now a).2
  refine ⟨⟨h.writes.trans hWrites, h.system, ?_, ?_⟩, hWrites⟩
  · intro key id hKey
    by_cases hSame : key = a.object.name
    · rw [hSame, Table.get?_insert_self] at hKey
      cases hKey
      refine ⟨⟨fun hOld => hLoose.new (h.writes.has hOld), hLoose.has⟩, ?_⟩
      rw [object_install, hNone]
    · rw [Table.get?_insert_of_ne hSame] at hKey
      obtain ⟨⟨hLacks, hHas⟩, hOld⟩ := h.fresh hKey
      exact ⟨⟨hLacks, hWrites.has hHas⟩, (hWrites.parameter hHas).trans hOld⟩
  · intro name hName
    by_cases hSame : name = a.object.name
    · exact ⟨_, by rw [hSame, Table.get?_insert_self]⟩
    · rw [Table.get?_insert_of_ne hSame]
      rcases mem_append.mp hName with hOld | hNew
      · exact h.named hOld
      · exact absurd (mem_singleton.mp hNew) hSame

theorem Copies.addInputs (hApart : kinds.Apart) {pairs : List (String × Slot)}
    (h : Copies kinds r names store now)
    (hStanding : ∀ pair ∈ pairs, ∀ {a}, pair.2.accessor = some a → a.Standing now)
    (hAdd : addInputs pairs store now = .ok (store', r')) :
    Copies kinds r (names ++ pairs.map Prod.fst) store' r' ∧ Writes kinds r.Lacks now r' := by
  induction pairs generalizing names store now with
  | nil =>
    cases hAdd
    rw [map_nil, append_nil]
    exact ⟨h, .refl h.writes.regular⟩
  | cons pair rest ih =>
    obtain ⟨formal, slot⟩ := pair
    rw [addInputs] at hAdd
    cases hSlot : slot.accessor with
    | none =>
      rw [hSlot] at hAdd
      cases hAdd
    | some actual =>
      rw [hSlot] at hAdd
      obtain ⟨a, hInput, hAdd⟩ := bind_eq_ok.mp hAdd
      obtain ⟨⟨s, r₁⟩, hFirst, hRest⟩ := bind_eq_ok.mp hAdd
      obtain ⟨rfl, hRegular, hNone⟩ := inputObject_spec hApart h.writes.regular
        (hStanding _ mem_cons_self hSlot) hInput
      obtain ⟨hCopies, hWrites⟩ := h.add hRegular hNone hFirst
      obtain ⟨hCopies', hWrites'⟩ := ih hCopies (fun pair hPair _ ha =>
        (hStanding pair (mem_cons_of_mem _ hPair) ha).later hWrites) hRest
      refine ⟨?_, hWrites.trans hWrites'⟩
      rwa [append_assoc] at hCopies'

theorem Copies.addLocals {locals : List Assembly} (h : Copies kinds r names store now)
    (hLocals : ∀ a ∈ locals, a.Regular kinds ∧ a.object.parameter? = none)
    (hAdd : addLocals locals store now = .ok (store', r')) :
    Copies kinds r (names ++ locals.map fun a => a.object.name) store' r' ∧ Writes kinds r.Lacks now r' := by
  induction locals generalizing names store now with
  | nil =>
    cases hAdd
    rw [map_nil, append_nil]
    exact ⟨h, .refl h.writes.regular⟩
  | cons a rest ih =>
    obtain ⟨⟨s, r₁⟩, hFirst, hRest⟩ := bind_eq_ok.mp hAdd
    obtain ⟨hRegular, hNone⟩ := hLocals a mem_cons_self
    obtain ⟨hCopies, hWrites⟩ := h.add hRegular hNone hFirst
    obtain ⟨hCopies', hWrites'⟩ := ih hCopies (fun b hb => hLocals b (mem_cons_of_mem _ hb)) hRest
    refine ⟨?_, hWrites.trans hWrites'⟩
    rwa [append_assoc] at hCopies'

/-- The local store of a call holds copies under all local names of the function. -/
theorem copies_localStore (hApart : kinds.Apart) {c : Call} {f : UserFunction}
    (hNow : Writes kinds r.Lacks r now) (hArguments : f.inputs.length ≤ c.inputs.length)
    (hStanding : ∀ {a}, a ∈ accessors c.inputs → a.Standing now)
    (hLocals : ∀ e ∈ f.locals, e.object.Regular kinds ∧ e.object.parameter? = none)
    (h : c.localStore f now = .ok (store, r')) :
    Copies kinds r f.localNames store r' ∧ Writes kinds r.Lacks now r' := by
  obtain ⟨⟨s, r₁⟩, hInputs, hDeclared⟩ := bind_eq_ok.mp h
  have hEmpty : Copies kinds r [] {} now := ⟨hNow, rfl, nofun, nofun⟩
  have hSlots : ∀ pair ∈ f.inputs.zip c.inputs, ∀ {a}, pair.2.accessor = some a → a.Standing now := by
    intro pair hPair a ha
    refine hStanding (mem_flatMap.mpr ⟨pair.2, (of_mem_zip hPair).2, ?_⟩)
    rw [ha]
    exact mem_singleton.mpr rfl
  obtain ⟨hCopies, hWrites⟩ := hEmpty.addInputs hApart hSlots hInputs
  obtain ⟨hCopies', hWrites'⟩ := hCopies.addLocals (fun a ha => by
    obtain ⟨e, he, rfl⟩ := mem_map.mp ha
    exact ⟨regular_copy hApart hNow.regular (hLocals e he).1, (hLocals e he).2⟩) hDeclared
  rw [nil_append, map_fst_zip hArguments, map_map] at hCopies'
  exact ⟨hCopies', hWrites.trans hWrites'⟩

theorem Copies.sheltered (h : Copies kinds r names store now) {globals : Store} (log : Log) :
    Workspace.Sheltered kinds r globals names
      { registry := now, scope := { store, outer := some globals }, log } where
  writes := h.writes
  outer := rfl
  system := h.system
  fresh hKey := (h.fresh hKey).1
  named hName := by
    obtain ⟨id, hKey⟩ := h.named hName
    exact ⟨id, hKey, (h.fresh hKey).2⟩
  owners _ _ hKey hParameter := by
    rw [(h.fresh hKey).2] at hParameter
    cases hParameter

end Call

/-! ### Running the body -/

/-- Every formal input gets an argument, and the arguments stand for what they are taken for. -/
structure Call.Admissible (functions : Table UserFunction) (r : Registry) (c : Call) : Prop where
  arguments : ∀ {f}, functions.get? c.function = some f → f.inputs.length ≤ c.inputs.length
  standing : ∀ {a}, a ∈ Slot.accessors c.slots → a.Standing r

theorem Call.mem_accessors_slots {c : Call} {a : Accessor} :
    a ∈ accessors c.slots ↔ a ∈ accessors c.inputs ∨ a ∈ accessors c.outputs := by
  rw [accessors, slots, flatMap_append, mem_append]
  rfl

theorem Call.Admissible.later {functions : Table UserFunction} {kinds : ParameterKinds}
    {changed : ObjectId → Prop} {r r' : Registry} {c : Call} (h : c.Admissible functions r)
    (hWrites : Writes kinds changed r r') : c.Admissible functions r' :=
  ⟨h.arguments, fun ha => (h.standing ha).later hWrites⟩

namespace Execution

/-- What the commands write satisfies `changed`. -/
structure Confined (functions : Table UserFunction) (changed : ObjectId → Prop) (r : Registry)
    (cs : List Command) : Prop where
  assigned : ∀ {a line t}, Command.Occurs (.assignment a line) cs → a.target = some t →
    t.Standing r ∧ ∀ id ∈ t.written r, changed id
  called : ∀ {c line}, Command.Occurs (.call c line) cs →
    c.Admissible functions r ∧ ∀ a ∈ Slot.accessors c.outputs, ∀ id ∈ a.written r, changed id

section

variable {functions : Table UserFunction} {kinds : ParameterKinds} {changed : ObjectId → Prop}
  {r r' : Registry} {cs : List Command}

theorem Confined.later (h : Confined functions changed r cs) (hWrites : Writes kinds changed r r') :
    Confined functions changed r' cs where
  assigned hOccurs hTarget := by
    obtain ⟨hStanding, hWritten⟩ := h.assigned hOccurs hTarget
    refine ⟨hStanding.later hWrites, ?_⟩
    rwa [hStanding.written_later hWrites]
  called {c line} hOccurs := by
    obtain ⟨hAdmissible, hOutputs⟩ := h.called hOccurs
    refine ⟨hAdmissible.later hWrites, fun a ha => ?_⟩
    have hStanding := hAdmissible.standing (mem_accessors_slots.mpr (.inr ha))
    rw [hStanding.written_later hWrites]
    exact hOutputs a ha

theorem Confined.of_occurs {ds : List Command} (h : Confined functions changed r cs)
    (hInside : ∀ {c}, Command.Occurs c ds → Command.Occurs c cs) : Confined functions changed r ds :=
  ⟨fun hOccurs => h.assigned (hInside hOccurs), fun hOccurs => h.called (hInside hOccurs)⟩

end

theorem keptByWrites_writes {kinds : ParameterKinds} (hApart : kinds.Apart) (changed : ObjectId → Prop) :
    KeptByWrites (Writes kinds changed) fun a r => a.Standing r ∧ ∀ id ∈ a.written r, changed id where
  trans := .trans
  last h := .refl h.regular
  later h hr := ⟨h.1.later hr, by rw [h.1.written_later hr]; exact h.2⟩
  object hr h hSet := Accessor.writes_setObject hApart hr.regular hSet h.1 h.2
  value hr h hSet := Accessor.writes_setValue hr.regular hSet h.2
  output hr := Assignment.writes_output hApart hr.regular

/-- A script in which functions are called: its objects, the store that names them, and functions
that write locally. -/
structure Setting (ck : Checker) (r : Registry) (globals : Store) : Prop where
  apart : ck.kinds.Apart
  forest : r.Forest
  store : globals.Sound r
  functions : ∀ {name f}, ck.functions.get? name = some f → f.WritesLocally globals r
  locals : ∀ {name f}, ck.functions.get? name = some f →
    ∀ e ∈ f.locals, e.object.Regular ck.kinds ∧ e.object.parameter? = none

section

variable {ck : Checker} {r : Registry} {globals : Store} {scope : Scope} {stack : List String} {c : Call}
  {f : UserFunction} {locate : CommandError → ValidationError} {s : RunState}

theorem Setting.surroundings (h : Setting ck r globals) {name : String}
    (hf : ck.functions.get? name = some f) : Surroundings ck.kinds r globals f.localNames :=
  ⟨h.apart, h.forest, h.store, fun hName => (h.functions hf).valid _ hName,
    fun hName hKey => (h.functions hf).free _ hName _ hKey⟩

/-- A body that is accepted has all its calls checked. -/
theorem admitted_of_validateAll {function : String} {cs cs' : List Command} {t t' : CheckState} {valid : Bool}
    (h : (ck.enter function).validateAll cs t = (.ok valid, cs', t')) {line : Option Nat}
    (hc : Command.Occurs (.call c line) cs') (hf : ck.functions.get? c.function = some f) :
    f.inputs.length ≤ c.inputs.length := by
  obtain ⟨refused, collected, hAgrees, -⟩ := (ck.enter function).validateAll_agrees cs t
  have hSelf : (ck.enter function).collecting false = ck.enter function := rfl
  have hValid : valid = true := by
    refine hAgrees.valid.2 ?_
    rw [hSelf, h]
    rfl
  rw [hValid] at h
  have hManaged : (ck.enter function).settings.manage ≠ .unmanaged := nofun
  have hTakes : ∀ d, Command.Occurs d cs' → (ck.enter function).Takes d := by
    refine (ck.enter function).validateAll_passes ?_ ?_ h
    · intro d w d' w' hCheck
      exact ((Ends.of_ok hCheck).mp ((ck.enter function).check_fills hManaged w)).2
    · intro d body otherwise hd
      cases d <;> exact hd
  have hCall : (ck.enter function).checkCall c = .ok () := hTakes _ hc
  unfold Checker.checkCall at hCall
  rw [show (ck.enter function).functions = ck.functions from rfl, hf] at hCall
  dsimp only at hCall
  split at hCall
  · cases hCall
  · next hLength => exact Nat.le_of_eq (Decidable.not_not.mp hLength)

/-- The commands of a checked body write only what the registry lacks. -/
theorem confined_of_settled {kinds : ParameterKinds} {functions : Table UserFunction} {names : List String}
    {w w' : Workspace} (hs : Surroundings kinds r globals names) (h : w.Sheltered kinds r globals names)
    {cs : List Command}
    (hSettled : Checker.AllSettled kinds (fun text => (Phrase.parse text).Within names) w w' cs)
    (hAdmitted : ∀ {c line f}, Command.Occurs (.call c line) cs → functions.get? c.function = some f →
      f.inputs.length ≤ c.inputs.length) : Confined functions r.Lacks w'.registry cs where
  assigned hOccurs hTarget := by
    have hCommand := hSettled.settled hOccurs
    have hContained := h.contained_of_classified hs id (hCommand.assigned rfl hTarget)
    exact ⟨hContained.standing, hContained.written (hCommand.targets (mem_singleton.mpr rfl))⟩
  called {c line} hOccurs := by
    have hCommand := hSettled.settled hOccurs
    -- Every accessor of the call is that of a slot, whose name it was made for.
    have hSlot : ∀ {slots : List Slot} {a}, (∀ slot ∈ slots, slot ∈ c.slots) → a ∈ accessors slots →
        ∃ slot ∈ slots, a.Contained r ((Phrase.parse slot.name).Within names) w'.registry := by
      intro slots a hSlots ha
      obtain ⟨slot, hMem, hAccessor⟩ := mem_flatMap.mp ha
      refine ⟨slot, hMem, h.contained_of_classified hs id (hCommand.places ?_)⟩
      refine mem_map.mpr ⟨slot, hSlots slot hMem, ?_⟩
      rw [Option.mem_toList.mp hAccessor]
    refine ⟨⟨hAdmitted hOccurs, fun ha => ?_⟩, fun a ha => ?_⟩
    · obtain ⟨slot, -, hContained⟩ := hSlot (fun _ => id) ha
      exact hContained.standing
    · obtain ⟨slot, hMem, hContained⟩ := hSlot (fun _ hOutput => mem_append_right _ hOutput) ha
      exact hContained.written (hCommand.targets (mem_map.mpr ⟨slot, hMem, rfl⟩))

/-- Preparing a call writes only what the registry lacks, and so does the body that is ready to be
run. -/
theorem prepare_writes (hSetting : Setting ck r globals) (hScope : scope.outer.getD scope.store = globals)
    (hf : ck.functions.get? c.function = some f) (h : Writes ck.kinds r.Lacks r s.registry)
    (hc : c.Admissible ck.functions s.registry) {x : Except ValidationError Frame} {s' : RunState}
    (hPrepare : prepare ck scope c f locate s = (x, s')) :
    Writes ck.kinds r.Lacks s.registry s'.registry ∧
      ∀ {frame}, x = .ok frame → frame.scope.outer = some globals ∧
        Confined ck.functions r.Lacks s'.registry frame.body := by
  rcases prepare_cases hPrepare with ⟨rfl, e, rfl⟩ |
    ⟨store, now, y, body, checked, hLocal, hCheck, rfl, hFrame⟩
  · exact ⟨.refl h.regular, nofun⟩
  · have hInputs : ∀ {a}, a ∈ accessors c.inputs → a.Standing s.registry :=
      fun ha => hc.standing (mem_accessors_slots.mpr (.inl ha))
    obtain ⟨hCopies, hWrites⟩ :=
      copies_localStore hSetting.apart h (hc.arguments hf) hInputs (hSetting.locals hf) hLocal
    have hSheltered : Workspace.Sheltered ck.kinds r globals f.localNames
        { registry := now, scope := { store, outer := some globals }, log := s.log } :=
      hCopies.sheltered s.log
    have hs := hSetting.surroundings hf
    have hEnter : scope.enter store = { store, outer := some globals } := by rw [Scope.enter, hScope]
    rw [hEnter] at hCheck
    have hWritten : Checker.AllWritten (fun text => (Phrase.parse text).Within f.localNames) f.body :=
      ⟨fun hOccurs hText => (hSetting.functions hf).written _ hOccurs.mem_preorderAll _ hText⟩
    obtain ⟨hChanges, hSettled⟩ := (ck.enter c.function).validateAll_changes hWritten hCheck
    obtain ⟨hSheltered', hChecked⟩ := hSheltered.changes hs id hChanges
    refine ⟨hWrites.trans hChecked, fun hx => ?_⟩
    obtain ⟨rfl, valid, rfl⟩ := hFrame hx
    refine ⟨hSheltered'.outer, confined_of_settled hs hSheltered (hSettled valid rfl) ?_⟩
    exact fun hOccurs hCalled => admitted_of_validateAll hCheck hOccurs hCalled

end

/-! ### Calls -/

/-- A call up to the point where its outputs are to be written. Gives the function and its local
store if the body has succeeded. -/
def callBody (depth : Nat) (ck : Checker) (scope : Scope) (stack : List String) (c : Call)
    (locate : CommandError → ValidationError) (s : RunState) :
    Except ValidationError (UserFunction × Store) × RunState :=
  if stack.contains c.function then (.error (locate (.recursiveCall c.function)), s)
  else
    match ck.functions.get? c.function, depth with
    | none, _ => (.error (locate (.undefinedFunction c.function)), s)
    | some _, 0 => (.error (locate (.recursiveCall c.function)), s)
    | some f, depth + 1 =>
      match prepare ck scope c f locate s with
      | (.error e, s) => (.error e, s)
      | (.ok frame, s) =>
        let inner := ck.enter c.function
        match executeAll inner (invoke depth inner frame.scope (c.function :: stack)) frame.body s with
        | (.error e, s) => (.error e, s)
        | (.ok (), s) => (.ok (f, frame.scope.store), s)

section

variable {ck : Checker} {r : Registry} {globals : Store} {scope : Scope} {stack : List String} {c : Call}
  {f : UserFunction} {locate : CommandError → ValidationError} {s : RunState}

/-- A call runs the body and then writes the outputs. -/
theorem invoke_eq (depth : Nat) :
    invoke depth ck scope stack c locate s =
      match callBody depth ck scope stack c locate s with
      | (.error e, s) => (.error e, s)
      | (.ok (f, locals), s) => finish c f locals locate s := by
  unfold invoke callBody
  dsimp only
  split
  · rfl
  · cases ck.functions.get? c.function with
    | none => rfl
    | some f =>
      cases depth with
      | zero => rfl
      | succ depth =>
        dsimp only
        rcases prepare ck scope c f locate s with ⟨_ | frame, s₁⟩
        · rfl
        · dsimp only
          rcases executeAll (ck.enter c.function)
            (invoke depth (ck.enter c.function) frame.scope (c.function :: stack)) frame.body s₁ with
            ⟨_ | _, s₂⟩ <;> rfl

/-- The outputs are written through the accessors of the arguments. -/
theorem finish_writes {changed : ObjectId → Prop} {kinds : ParameterKinds} (hApart : kinds.Apart)
    (hRegular : s.registry.Regular kinds) (locals : Store)
    (hOutputs : ∀ a ∈ accessors c.outputs, a.Standing s.registry ∧
      ∀ id ∈ a.written s.registry, changed id) :
    Writes kinds changed s.registry (finish c f locals locate s).2.registry :=
  (finish_keeps (keptByWrites_writes hApart changed) (.refl hRegular) (fun ha => hOutputs _ ha)
    locals).registry

theorem Setting.enter (h : Setting ck r globals) (function : String) :
    Setting (ck.enter function) r globals :=
  ⟨h.apart, h.forest, h.store, h.functions, h.locals⟩

/-- Commands within a function, which write only what was not there when the outermost call began. -/
structure Encloses (kinds : ParameterKinds) (r : Registry) (globals : Store) (ck : Checker) (scope : Scope)
    (now : Registry) (cs : List Command) : Prop where
  kinds : ck.kinds = kinds
  setting : Setting ck r globals
  scope : scope.outer.getD scope.store = globals
  writes : Writes ck.kinds r.Lacks r now
  confined : Confined ck.functions r.Lacks now cs

theorem steady_writes {kinds : ParameterKinds} (hApart : kinds.Apart) (r : Registry) (globals : Store) :
    Steady (Writes kinds r.Lacks) (fun a now => a.Standing now ∧ ∀ id ∈ a.written now, r.Lacks id)
      (Encloses kinds r globals) where
  toKeptByWrites := keptByWrites_writes hApart r.Lacks
  refl h := h.kinds ▸ .refl h.writes.regular
  next h hr := ⟨h.kinds, h.setting, h.scope, h.writes.trans (h.kinds ▸ hr), h.confined.later hr⟩
  part h hIn := ⟨h.kinds, h.setting, h.scope, h.writes, h.confined.of_occurs hIn⟩
  assigned h hTarget := h.confined.assigned .here hTarget
  called h ha := by
    obtain ⟨hAdmissible, hOutputs⟩ := h.confined.called .here
    exact ⟨hAdmissible.standing (mem_accessors_slots.mpr (.inr ha)), hOutputs _ ha⟩
  prepared h hf hPrepare := by
    obtain ⟨hWrites, hFrame⟩ :=
      prepare_writes h.setting h.scope hf h.writes (h.confined.called .here).1 hPrepare
    refine ⟨h.kinds ▸ hWrites, fun hx => ?_⟩
    obtain ⟨hOuter, hConfined⟩ := hFrame hx
    exact ⟨h.kinds, h.setting.enter _, by rw [hOuter]; rfl, h.writes.trans hWrites, hConfined⟩

/-- Before its outputs are written, a call has written only what the registry lacks. -/
theorem callBody_writes (depth : Nat) (hSetting : Setting ck r globals)
    (hScope : scope.outer.getD scope.store = globals) (h : Writes ck.kinds r.Lacks r s.registry)
    (hc : c.Admissible ck.functions s.registry) :
    Writes ck.kinds r.Lacks s.registry (callBody depth ck scope stack c locate s).2.registry := by
  unfold callBody
  split
  · exact .refl h.regular
  · cases hf : ck.functions.get? c.function with
    | none => exact .refl h.regular
    | some f =>
      cases depth with
      | zero => exact .refl h.regular
      | succ depth =>
        dsimp only
        rcases hPrepare : prepare ck scope c f locate s with ⟨x, s₁⟩
        obtain ⟨hWrites, hFrame⟩ := prepare_writes hSetting hScope hf h hc hPrepare
        cases x with
        | error e => exact hWrites
        | ok frame =>
          obtain ⟨hOuter, hConfined⟩ := hFrame rfl
          have hStart : Encloses ck.kinds r globals (ck.enter c.function) frame.scope s₁.registry
            frame.body :=
            ⟨rfl, hSetting.enter _, by rw [hOuter]; rfl, h.trans hWrites, hConfined⟩
          have hBody := ((steady_writes hSetting.apart r globals).executeAll depth (c.function :: stack)
            hStart).registry
          dsimp only
          rcases hRun : executeAll (ck.enter c.function)
            (invoke depth (ck.enter c.function) frame.scope (c.function :: stack)) frame.body s₁ with
            ⟨y, s₂⟩
          rw [hRun] at hBody
          cases y <;> exact hWrites.trans hBody

end

end Execution

end Mission
