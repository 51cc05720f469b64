import Mathlib.Logic.Relation
import Mission.Proofs.Execution.Typing
import Mission.Proofs.Session.Tracking

/-! Type soundness of scripts. A client builds objects of the catalogue, asks a session for whatever
it offers, keeps the accessors that texts are classified as, and writes through them. Whatever it
does and whether it succeeds or fails, each property holds a value of its type, each accessor gives
a value of the type that it announces, and an Array keeps the size that it was given. -/
namespace Mission

open Registry Outcome List Store

variable {given : String → Prop}

/-! ### Stores -/

namespace Store

variable {s s' : Store} {r r' : Registry}

theorem Within.remove (h : s.Within r) (name : String) : (s.remove name).Within r := by
  refine ⟨fun hMem => ?_, h.system⟩
  obtain ⟨entry, hEntry, rfl⟩ := mem_map.mp hMem
  exact h.objects (mem_map.mpr ⟨entry, (mem_filter.mp hEntry).1, rfl⟩)

theorem preserves_rename {old new : String} (hr : r.Catalogued given) (hs : s.Within r)
    (h : s.rename r old new = .ok (s', r')) : Preserves given r r' ∧ s'.Within r' := by
  have hForm : ∀ (o : Object) (name : String), o.SameForm { o with name } ∧
      ({ o with name } : Object).properties = o.properties := fun _ _ => ⟨⟨rfl, rfl, .refl _⟩, rfl⟩
  have hBoth : Preserves given r r' := by
    refine rename_keeps (J := Preserves given r) (fun {now id} name hNow => ?_) (fun {now id} hNow => ?_)
      (.refl hr) h
    · refine hNow.trans (preserves_modifyObject hNow.catalogued (hForm _ _).1 ?_)
      exact (hNow.catalogued.object id).keep (hForm _ _)
    · refine hNow.trans (preserves_modifyObject hNow.catalogued (Object.sameForm_renameReferences _ old new)
        ?_)
      exact (hNow.catalogued.object id).renameReferences old new
  refine ⟨hBoth, fun hMem => hBoth.has (hs.objects ((rename_keys h).2.1 _ hMem)), fun hSystem => ?_⟩
  rw [(eq_of_rename h).2.2.1] at hSystem
  exact hBoth.has (hs.system hSystem)

end Store

/-! ### Requests -/

namespace Session

variable {s s' s'' : Session}

/-- The objects are as those of the catalogue, and the commands of a checked script write through
accessors that fit them. -/
structure Catalogued (given : String → Prop) (s : Session) : Prop where
  registry : s.registry.Catalogued given
  store : s.store.Within s.registry
  checker : s.checker.Supplied given
  fit : s.validated = true → Checker.AllFit s.registry s.commands

/-- The second session has come of the first by requests. -/
structure Preserves (given : String → Prop) (s s' : Session) : Prop where
  registry : Registry.Preserves given s.registry s'.registry
  catalogued : s'.Catalogued given

theorem Preserves.refl (h : s.Catalogued given) : s.Preserves given s :=
  ⟨.refl h.registry, h⟩

theorem Preserves.trans (h : s.Preserves given s') (h' : s'.Preserves given s'') : s.Preserves given s'' :=
  ⟨h.registry.trans h'.registry, h'.catalogued⟩

theorem Catalogued.workspace (h : s.Catalogued given) : s.workspace.Catalogued given :=
  ⟨h.registry, h.store, fun hOuter => by cases hOuter⟩

/-- The script has changed, so that its commands will be checked before they run. -/
theorem Preserves.changed (hr : Registry.Preserves given s.registry s'.registry)
    (hStore : s'.store.Within s'.registry) (hChecker : s'.checker.Supplied given)
    (hValidated : s'.validated = false) : s.Preserves given s' := by
  refine ⟨hr, hr.catalogued, hStore, hChecker, fun hTrue => ?_⟩
  rw [hValidated] at hTrue
  cases hTrue

/-- The objects have changed under commands that stay as they are. -/
theorem Catalogued.kept (h : s.Catalogued given) (hr : Registry.Preserves given s.registry s'.registry)
    (hStore : s'.store.Within s'.registry) (hChecker : s'.checker = s.checker)
    (hCommands : s'.commands = s.commands) (hValidated : s'.validated = s.validated) :
    s.Preserves given s' := by
  refine ⟨hr, hr.catalogued, hStore, hChecker ▸ h.checker, fun hTrue => ?_⟩
  rw [hCommands]
  exact (h.fit (hValidated ▸ hTrue)).later hr

theorem Catalogued.write (h : s.Catalogued given) {r : Registry}
    (hr : Registry.Preserves given s.registry r) : s.Preserves given { s with registry := r } :=
  h.kept hr (h.store.later hr) rfl rfl rfl

theorem Catalogued.withWorkspace (h : s.Catalogued given) {w : Workspace}
    (hw : s.workspace.Preserves given w) : s.Preserves given (s.withWorkspace w) :=
  h.kept hw.registry hw.scope.store rfl rfl rfl

theorem catalogued_new (settings : Settings) : (new settings).Catalogued given := by
  have hSystem : Registry.Preserves given {} (install {} Catalog.solarSystem).2 :=
    preserves_install catalogued_empty Catalog.Builds.solarSystem.catalogued
  have hDefaults : (withDefaults {}).2.Catalogued given ∧
      (withDefaults {}).1.Within (withDefaults {}).2 := by
    refine withDefaults_keeps (J := fun s r => r.Catalogued given ∧ s.Within r) ?_
      ⟨hSystem.catalogued, ?_, ?_⟩
    · intro s r _ _ _ _ _ _ ⟨hr, hs⟩ known hAdd
      obtain ⟨hGrown, hStore⟩ := preserves_add hr hs (Catalog.catalogued_coordinateSystem known) hAdd
      exact ⟨hGrown.catalogued, hStore⟩
    · exact fun hMem => by cases hMem
    · rintro id ⟨⟩
      exact (install_grows {} Catalog.solarSystem).2.has
  refine ⟨hDefaults.1, hDefaults.2, ⟨rfl, fun f hf => ?_⟩, fun hTrue => by cases hTrue⟩
  cases hf

theorem Catalogued.add (h : s.Catalogued given) {a : Assembly} (ha : a.Catalogued given) :
    s.Preserves given (s.add a).2 := by
  dsimp only [Session.add]
  split
  · next hAdd =>
      obtain ⟨hGrown, hStore⟩ := preserves_add h.registry h.store ha hAdd
      exact .changed hGrown hStore h.checker rfl
  · exact .changed (.refl h.registry) h.store h.checker rfl

theorem Catalogued.create (h : s.Catalogued given) (typeName name : String) :
    s.Preserves given (s.create typeName name).2 := by
  unfold Session.create
  split
  · next built => exact h.add (Catalog.builds_create built).catalogued
  · exact .refl h

theorem Catalogued.remove (h : s.Catalogued given) (name : String) : s.Preserves given (s.remove name).2 :=
  .changed (.refl h.registry) (h.store.remove name) h.checker rfl

theorem Catalogued.addFunction (h : s.Catalogued given) {f : FunctionDeclaration}
    (hLocals : ∀ a ∈ f.locals, a.Catalogued given) : s.Preserves given (s.addFunction f) := by
  obtain ⟨hObjects, hHeld⟩ := every_holdAll h.registry.objects hLocals
  have hr : Registry.Preserves given s.registry (s.registry.holdAll f.locals).2 :=
    .of_grows h.registry (holdAll_grows _ _) hObjects
  refine .changed hr (h.store.later hr) ⟨h.checker.kinds, fun g hg => ?_⟩ rfl
  rcases Table.mem_values_insert hg with rfl | hOld
  · exact hHeld
  · exact h.checker.locals g hOld

theorem Catalogued.push (h : s.Catalogued given) (c : Command) : s.Preserves given (s.push c) :=
  .changed (.refl h.registry) h.store h.checker rfl

/-- The commands follow a rename, and their accessors stand for the objects they stood for. -/
theorem allFit_renameAll {r : Registry} {cs : List Command} (h : Checker.AllFit r cs) (old new : String) :
    Checker.AllFit r (Command.renameAll old new cs) := by
  rw [Command.renameAll_eq_map]
  refine ⟨fun {a line t} hc ht => ?_, fun {c line t} hc ht => ?_⟩
  · obtain ⟨d, hd, hSame⟩ := Command.exists_of_occurs_rename hc
    cases d with
    | assignment b line =>
      cases hSame
      obtain ⟨u, hu, rfl⟩ := Option.map_eq_some_iff.mp ht
      exact (h.assigned hd hu).rename old new
    | _ => cases hSame
  · obtain ⟨d, hd, hSame⟩ := Command.exists_of_occurs_rename hc
    cases d with
    | call b line =>
      cases hSame
      obtain ⟨u, hu, rfl⟩ := Slot.mem_accessors_rename ht
      exact (h.called hd hu).rename old new
    | _ => cases hSame

variable (h : s.Catalogued given)
include h

theorem Catalogued.rename (old new : String) :
    s.Preserves given (s.rename old new).2 := by
  unfold Session.rename
  split
  · exact .refl h
  · next store r hRename =>
      obtain ⟨hRenamed, hStore⟩ := preserves_rename h.registry h.store hRename
      refine ⟨hRenamed, hRenamed.catalogued, hStore, h.checker, fun hTrue => ?_⟩
      exact allFit_renameAll ((h.fit hTrue).later hRenamed) old new

/-- A text is classified, and what it is classified as fits the objects. -/
theorem Catalogued.classify (options : ClassifyOptions) (text : String) :
    s.Preserves given (s.classify options text).2 ∧
      ∀ {a}, (s.classify options text).1 = .ok a → a.Fits (s.classify options text).2.registry := by
  have hChanges : Changes .builtin (fun _ => True) s.workspace
      (Mission.classify .builtin options text s.workspace).2 :=
    classify_changing options text s.workspace
  have hFits := classify_fits .builtin h.workspace.linked options text
  unfold Session.classify
  rw [h.checker.kinds]
  rcases hRun : Mission.classify .builtin options text s.workspace with ⟨x, w⟩
  rw [hRun] at hChanges
  have hTaken := h.withWorkspace (hChanges.preserves h.workspace)
  cases x with
  | error e => exact ⟨hTaken, nofun⟩
  | ok a =>
    refine ⟨hTaken, ?_⟩
    rintro _ ⟨⟩
    exact ((Meets.of_ok hRun).mp hFits).2

theorem Catalogued.evaluate (text : String) :
    s.Preserves given (s.evaluate text).2 := by
  rw [evaluate_state]
  exact (h.classify {} text).1

theorem Catalogued.validate : s.Preserves given s.validate.2 := by
  obtain ⟨x, commands, c, w, errors, validated, hAll, hLast, hValid, hState⟩ := s.validate_state
  obtain ⟨hChanges, hSettled⟩ := s.checker.validateAll_settles hAll
  rw [h.checker.kinds] at hChanges hSettled
  have hChecked := hChanges.preserves h.workspace
  have hFinal : c.workspace.Preserves given w := by
    rcases hLast with rfl | rfl
    · exact .refl hChecked.catalogued
    · exact s.checker.preserves_finalPass hChecked.catalogued
  have hBoth := hChecked.trans hFinal
  rw [hState]
  refine ⟨hBoth.registry, hBoth.registry.catalogued, hBoth.scope.store, h.checker, fun hTrue => ?_⟩
  obtain ⟨valid, rfl⟩ := hValid hTrue
  exact ((hSettled valid rfl).allFit h.workspace).later hFinal.registry

theorem Catalogued.execute (hValidated : s.validated = true) :
    s.Preserves given s.execute.2 := by
  have hStart : Execution.Supplies given s.checker { store := s.store } s.registry s.commands :=
    ⟨h.checker, h.registry, h.workspace.scope, h.fit hValidated⟩
  have hRun := ((Execution.steady_preserves given).executeAll (s := { registry := s.registry, log := s.log })
    s.checker.functions.size [] hStart).registry
  obtain ⟨log, hState⟩ := s.execute_state
  rw [hState]
  exact h.kept hRun (h.store.later hRun) rfl rfl rfl

theorem Catalogued.run : s.Preserves given s.run.2 := by
  rcases s.run_state with ⟨hValidated, hState⟩ | hState | ⟨hValidated, hState⟩ <;> rw [hState]
  · exact h.execute hValidated
  · exact h.validate
  · exact h.validate.trans (h.validate.catalogued.execute hValidated)

end Session

/-! ### Clients -/

/-- The registry after a write. One that fails has changed nothing. -/
def Registry.after {ε : Type} (r : Registry) : Except ε Registry → Registry
  | .ok r' => r'
  | .error _ => r

theorem Registry.preserves_after {ε : Type} {r : Registry} {x : Except ε Registry} (h : r.Catalogued given)
    (hOk : ∀ {r'}, x = .ok r' → Preserves given r r') : Preserves given r (r.after x) := by
  cases x with
  | error e => exact .refl h
  | ok r' => exact hOk rfl

/-- An object gives way to another of its form. -/
theorem Registry.preserves_replaced {r : Registry} {id : ObjectId} {x : Except ObjectError Object}
    (h : r.Catalogued given) (hOk : ∀ {o}, x = .ok o → (r.object id).SameForm o ∧ o.Catalogued given) :
    Preserves given r (r.after (x.map (r.setObject id))) := by
  cases x with
  | error e => exact .refl h
  | ok o =>
    obtain ⟨hForm, hObject⟩ := hOk rfl
    exact preserves_setObject h hForm hObject

/-- A session, and the accessors that its client keeps. -/
structure Client where
  session : Session
  held : List Accessor

namespace Client

/-- What a client can write: through an accessor that it keeps, by an assignment or an output that
does, or to the value, a property, an element or the size of an object directly. Writing one object
over another directly, which does not look at their types, is left out. -/
inductive Edits (held : List Accessor) (r : Registry) : Registry → Prop
  | accessor {a : Accessor} {x : Except AccessError Registry} (kept : a ∈ held) (sets : a.Sets r x) :
      Edits held r (r.after x)
  | assignment {a : Assignment} (kept : ∀ {target}, a.target = some target → target ∈ held) :
      Edits held r (r.after (a.execute r))
  | output (locals : Store) (function formal : String) {slot : Slot}
      (kept : ∀ {target}, slot.accessor = some target → target ∈ held) :
      Edits held r (r.after (Call.writeOutput locals function formal slot r))
  | value (id : ObjectId) (v : Value) : Edits held r (r.after (r.assign id v))
  | property (id : ObjectId) (index : Nat) (v : Value) : Edits held r (r.after (r.setProperty id index v))
  | field (id : ObjectId) (property : String) (v : Value) :
      Edits held r (r.after (((r.object id).set property v).map (r.setObject id)))
  | element (id : ObjectId) (row col : Nat) (x : Float) : Edits held r (r.after (r.setElement id row col x))
  | size (id : ObjectId) (rows cols : Nat) :
      Edits held r (r.after (((r.object id).resize rows cols).map (r.setObject id)))

/-- What a client can do in one step. What it builds comes from the catalogue, and texts can be
classified among the objects of the script or in any other scope. -/
inductive Acts (given : String → Prop) : Client → Client → Prop
  | add {c : Client} {a : Assembly} (built : Catalog.Builds given a) :
      Acts given c { c with session := (c.session.add a).2 }
  | create {c : Client} (typeName name : String) :
      Acts given c { c with session := (c.session.create typeName name).2 }
  | remove {c : Client} (name : String) : Acts given c { c with session := (c.session.remove name).2 }
  | addFunction {c : Client} {f : FunctionDeclaration} (built : ∀ a ∈ f.locals, Catalog.Builds given a) :
      Acts given c { c with session := c.session.addFunction f }
  | push {c : Client} (command : Command) : Acts given c { c with session := c.session.push command }
  | rename {c : Client} (old new : String) :
      Acts given c { c with session := (c.session.rename old new).2 }
  | classify {c d : Client} {options : ClassifyOptions} {text : String} {x : Except SessionError Accessor}
      (run : c.session.classify options text = (x, d.session))
      (held : d.held = x.toOption.toList ++ c.held) : Acts given c d
  | classifyIn {c : Client} {scope : Scope} (known : scope.Within c.session.registry) {w : Workspace}
      {options : ClassifyOptions} {text : String} {x : Except ClassifyError Accessor}
      (run : Mission.classify c.session.checker.kinds options text { c.session.workspace with scope } =
        (x, w)) :
      Acts given c ⟨{ c.session with registry := w.registry }, x.toOption.toList ++ c.held⟩
  | evaluate {c : Client} (text : String) : Acts given c { c with session := (c.session.evaluate text).2 }
  | validate {c : Client} : Acts given c { c with session := c.session.validate.2 }
  | run {c : Client} : Acts given c { c with session := c.session.run.2 }
  | attachAxes {c : Client} (a : Assignment) :
      Acts given c
        { c with session := c.session.withWorkspace (Checker.attachAxes a c.session.workspace).2 }
  | relabel {c : Client} {a : Accessor} (kept : a ∈ c.held) (old new : String) :
      Acts given c { c with held := a.rename old new :: c.held }
  | write {c : Client} {r : Registry} (edits : Edits c.held c.session.registry r) :
      Acts given c { c with session := { c.session with registry := r } }

/-- Whatever a client does. -/
abbrev Leads (given : String → Prop) : Client → Client → Prop :=
  Relation.ReflTransGen (Acts given)

/-- Where a client begins: with a new script, or with any names for objects of the catalogue. -/
inductive Opens (given : String → Prop) : Client → Prop
  | new (settings : Settings) : Opens given ⟨.new settings, []⟩
  | stored {objects : List Assembly} (built : ∀ a ∈ objects, Catalog.Builds given a) {store : Store}
      (known : store.Within (Registry.installAll {} objects).2) (settings : Settings) :
      Opens given ⟨{ registry := (Registry.installAll {} objects).2, store, checker := { settings } }, []⟩

variable {c d : Client}

/-- The objects are as those of the catalogue, and the accessors fit them. -/
structure Sound (given : String → Prop) (c : Client) : Prop where
  session : c.session.Catalogued given
  held : ∀ a ∈ c.held, a.Fits c.session.registry

theorem Opens.sound (h : Opens given c) : c.Sound given := by
  cases h with
  | new settings => exact ⟨Session.catalogued_new settings, fun a ha => (not_mem_nil ha).elim⟩
  | stored built known settings =>
    have hInstall : Preserves given {} (installAll {} _).2 :=
      preserves_installAll catalogued_empty fun a ha => (built a ha).catalogued
    refine ⟨⟨hInstall.catalogued, known, ⟨rfl, fun f hf => ?_⟩, fun hTrue => ?_⟩, fun a ha => ?_⟩
    · cases hf
    · cases hTrue
    · cases ha

/-- Every write leaves the objects as those of the catalogue. -/
theorem Edits.preserves {held : List Accessor} {r r' : Registry} (h : Edits held r r')
    (hr : r.Catalogued given) (hHeld : ∀ a ∈ held, a.Fits r) : Preserves given r r' := by
  cases h with
  | accessor kept sets => exact preserves_after hr fun hOk => sets.preserves hOk hr (hHeld _ kept)
  | assignment kept =>
    refine preserves_after hr ((keptByWrites_preserves given).assignment (.refl hr) fun hTarget => ?_)
    exact hHeld _ (kept hTarget)
  | output locals function formal kept =>
    refine preserves_after hr ((keptByWrites_preserves given).writeOutput (.refl hr) fun hTarget => ?_)
    exact hHeld _ (kept hTarget)
  | value id v =>
    refine preserves_after hr fun hAssign => ?_
    obtain ⟨other, o, hTakes, rfl, -⟩ := Accessor.takes_of_assign hAssign
    exact preserves_takes hr hTakes
  | property id index v =>
    refine preserves_after hr fun hSet => ?_
    obtain ⟨o, hAt, hDone⟩ := bind_eq_ok.mp hSet
    cases hDone
    exact preserves_takes hr (Object.takes_setAt hAt)
  | field id property v =>
    refine preserves_replaced hr fun hSet => ?_
    have hTakes := Object.takes_set hSet
    exact ⟨hTakes.sameForm, (hr.object id).takes hTakes⟩
  | element id row col x =>
    refine preserves_after hr fun hSet => ?_
    obtain ⟨o, hElement, hDone⟩ := bind_eq_ok.mp hSet
    cases hDone
    exact preserves_takes hr (Object.takes_setElement hElement)
  | size id rows cols =>
    refine preserves_replaced hr fun hSize => ?_
    have hForm := Object.sameForm_resize hSize
    exact ⟨hForm.1, (hr.object id).keep hForm⟩

/-- A step of the session, after which the client keeps what it kept. -/
theorem Sound.step {s : Session} (h : c.Sound given) (hs : c.session.Preserves given s) :
    Preserves given c.session.registry s.registry ∧ Sound given ⟨s, c.held⟩ :=
  ⟨hs.registry, hs.catalogued, fun a ha => (h.held a ha).later hs.registry⟩

/-- A step of the session that may give the client an accessor to keep. -/
theorem Sound.gain {ε : Type} {s : Session} {x : Except ε Accessor} (h : c.Sound given)
    (hs : c.session.Preserves given s) (hx : ∀ {a}, x = .ok a → a.Fits s.registry) :
    Preserves given c.session.registry s.registry ∧ Sound given ⟨s, x.toOption.toList ++ c.held⟩ := by
  refine ⟨hs.registry, hs.catalogued, fun a ha => ?_⟩
  rcases mem_append.mp ha with hNew | hOld
  · cases x with
    | error e => cases hNew
    | ok b =>
      rw [mem_singleton.mp hNew]
      exact hx rfl
  · exact (h.held a hOld).later hs.registry

/-- What one step preserves. -/
theorem Acts.preserves (h : Acts given c d) (hc : c.Sound given) :
    Preserves given c.session.registry d.session.registry ∧ d.Sound given := by
  cases h with
  | add built => exact hc.step (hc.session.add built.catalogued)
  | create typeName name => exact hc.step (hc.session.create typeName name)
  | remove name => exact hc.step (hc.session.remove name)
  | addFunction built => exact hc.step (hc.session.addFunction fun a ha => (built a ha).catalogued)
  | push command => exact hc.step (hc.session.push command)
  | rename old new => exact hc.step (hc.session.rename old new)
  | classify run held =>
    obtain ⟨hSession, hFits⟩ := hc.session.classify _ _
    rw [run] at hSession hFits
    obtain ⟨s, accessors⟩ := d
    cases held
    exact hc.gain hSession hFits
  | @classifyIn scope known w options text x run =>
    rw [hc.session.checker.kinds] at run
    have hScope : ({ c.session.workspace with scope } : Workspace).Catalogued given :=
      ⟨hc.session.registry, known⟩
    have hChanges : Changes .builtin (fun _ => True) _ (Mission.classify .builtin options text _).2 :=
      classify_changing options text { c.session.workspace with scope }
    rw [run] at hChanges
    refine hc.gain (hc.session.write (hChanges.preserves hScope).registry) fun hx => ?_
    rw [hx] at run
    exact ((Meets.of_ok run).mp (classify_fits .builtin hScope.linked options text)).2
  | evaluate text => exact hc.step (hc.session.evaluate text)
  | validate => exact hc.step hc.session.validate
  | run => exact hc.step hc.session.run
  | attachAxes a =>
    have hChanges : Changes .builtin (fun _ => True) c.session.workspace
        (Checker.attachAxes a c.session.workspace).2 :=
      Checker.attachAxes_changing trivial c.session.workspace
    exact hc.step (hc.session.withWorkspace (hChanges.preserves hc.session.workspace))
  | relabel kept old new =>
    refine ⟨.refl hc.session.registry, hc.session, fun a ha => ?_⟩
    rcases mem_cons.mp ha with rfl | hOld
    · exact (hc.held _ kept).rename old new
    · exact hc.held a hOld
  | write edits => exact hc.step (hc.session.write (edits.preserves hc.session.registry hc.held))

/-- What all that a client does preserves. -/
theorem Leads.preserves (h : Leads given c d) (hc : c.Sound given) :
    Preserves given c.session.registry d.session.registry ∧ d.Sound given := by
  induction h with
  | refl => exact ⟨.refl hc.session.registry, hc⟩
  | tail _ last ih =>
    obtain ⟨hLast, hSound⟩ := last.preserves ih.2
    exact ⟨ih.1.trans hLast, hSound⟩

end Client

/-- Every property holds a value of the form that its type demands. -/
def Registry.WellTyped (r : Registry) : Prop :=
  ∀ id, ∀ p ∈ (r.object id).properties.values, p.dataType.Admits p.value

/-- Every enumeration holds a text that it accepts, or one that it was given unchecked when it was
built. -/
def Registry.Restricted (given : String → Prop) (r : Registry) : Prop :=
  ∀ id, ∀ p ∈ (r.object id).properties.values, p.dataType = .enumeration →
    ∃ text, p.value = .string text ∧ (text ∈ p.accepted ∨ given text)

theorem Registry.Catalogued.wellTyped {r : Registry} (h : r.Catalogued given) : r.WellTyped := by
  intro id p hp
  obtain ⟨entry, hEntry, rfl⟩ := mem_map.mp hp
  exact ((h.object id).properties entry hEntry).admits

theorem Registry.Catalogued.restricted {r : Registry} (h : r.Catalogued given) : r.Restricted given := by
  intro id p hp hType
  obtain ⟨entry, hEntry, rfl⟩ := mem_map.mp hp
  have hTyped := (h.object id).properties entry hEntry
  have hAdmits := hTyped.admits
  rw [hType] at hAdmits
  cases hValue : entry.2.value with
  | string text => exact ⟨text, rfl, hTyped.accepted hType text hValue⟩
  | _ => rw [hValue] at hAdmits; cases hAdmits

/-- The size of an Array is set once. -/
theorem Registry.Preserves.dims {r r' : Registry} (h : Preserves given r r') {id : ObjectId} {m : Matrix}
    (hArray : (r.object id).content = .array (some m)) :
    ∃ m', (r'.object id).content = .array (some m') ∧ m'.dims = m.dims := by
  have hHas : r.Has id := by
    refine Classical.byContradiction fun hNot => ?_
    rw [object, entry_of_not_has hNot] at hArray
    cases hArray
  have hContent := (h.form hHas).content
  rw [hArray] at hContent
  generalize (r'.object id).content = now at hContent ⊢
  cases hContent with
  | array hDims => exact ⟨_, rfl, hDims⟩

/-- A client meets values of the announced types only. Whatever it has done, all properties hold
values of their types, the accessors that it keeps give values of the types that they announce, and
what it writes into an enumeration is a text that this one accepts. Whatever it does then, an Array
keeps its size. -/
theorem Client.typed_of_leads {c d : Client} (hOpens : ∃ b, Client.Opens given b ∧ Client.Leads given b c)
    (hLeads : Client.Leads given c d) :
    d.session.registry.WellTyped ∧ d.session.registry.Restricted given ∧
      (∀ a ∈ d.held, ∀ v, a.evaluate d.session.registry = .ok v →
        (a.dataType d.session.registry).Admits v) ∧
      (∀ a ∈ d.held, ∀ r, a.Sets d.session.registry (.ok r) →
        a.dataType d.session.registry = .enumeration →
          ∃ text ∈ a.accepted d.session.registry, a.evaluate r = .ok (.string text)) ∧
      ∀ id m, (c.session.registry.object id).content = .array (some m) →
        ∃ m', (d.session.registry.object id).content = .array (some m') ∧ m'.dims = m.dims := by
  obtain ⟨b, hOpen, hBefore⟩ := hOpens
  obtain ⟨-, hSound⟩ := hBefore.preserves hOpen.sound
  obtain ⟨hPreserves, hAfter⟩ := hLeads.preserves hSound
  have hRegistry := hAfter.session.registry
  refine ⟨hRegistry.wellTyped, hRegistry.restricted, ?_, ?_, fun id m => hPreserves.dims⟩
  · intro a ha v hValue
    exact Accessor.admits_evaluate hRegistry (hAfter.held a ha) hValue
  · intro a _ r hSets hType
    exact hSets.accepted rfl hRegistry hType

/-- A client that has made a spacecraft and an Array of two rows and three columns. -/
def Client.furnished : Client :=
  ⟨(((Session.new {}).create "Spacecraft" "sat").2.add (Catalog.userArray "A" 2 3)).2, []⟩

/-- The client writes a date format, which is an enumeration. -/
theorem Client.typed_furnished :
    ∃ a s r, Client.furnished.session.classify {} "sat.DateFormat" = (.ok a, s) ∧
      a.setString s.registry "UTCGregorian" = .ok r ∧ r.WellTyped ∧
      (∃ text ∈ a.accepted s.registry, a.evaluate r = .ok (.string text)) ∧
      ∃ m, (r.object ⟨12⟩).content = .array (some m) ∧ m.dims = (2, 3) := by
  have hArray : (Client.furnished.session.registry.object ⟨12⟩).content = .array (some (.zero 2 3)) := rfl
  have hFound : (Client.furnished.session.classify {} "sat.DateFormat").1.toOption.any (fun a =>
      a.dataType (Client.furnished.session.classify {} "sat.DateFormat").2.registry = .enumeration &&
        (a.setString (Client.furnished.session.classify {} "sat.DateFormat").2.registry
          "UTCGregorian").toOption.isSome) = true := by
    decide +kernel
  have hOpens : ∃ b, Client.Opens (fun _ => False) b ∧ Client.Leads (fun _ => False) b Client.furnished :=
    ⟨_, .new {}, .tail (.single (.create "Spacecraft" "sat")) (.add (.userArray "A" 2 3))⟩
  rcases hRun : Client.furnished.session.classify {} "sat.DateFormat" with ⟨x, s⟩
  rw [hRun] at hFound
  cases x with
  | error e => cases hFound
  | ok a =>
    have hBoth := Bool.and_eq_true_iff.mp hFound
    cases hSet : a.setString s.registry "UTCGregorian" with
    | error e =>
      rw [hSet] at hBoth
      cases hBoth.2
    | ok r =>
      have hSets : a.Sets s.registry (.ok r) := hSet ▸ .string "UTCGregorian"
      have hFirst : Client.Acts (fun _ => False) Client.furnished ⟨s, [a]⟩ := .classify hRun rfl
      have hSecond : Client.Acts (fun _ => False) ⟨s, [a]⟩ ⟨{ s with registry := r }, [a]⟩ :=
        .write (.accessor List.mem_cons_self hSets)
      obtain ⟨-, -, -, hAccepted, -⟩ := Client.typed_of_leads hOpens (.single hFirst)
      obtain ⟨hTyped, -, -, -, hSized⟩ := Client.typed_of_leads hOpens (.tail (.single hFirst) hSecond)
      exact ⟨a, s, r, rfl, hSet, hTyped,
        hAccepted a List.mem_cons_self r hSets (of_decide_eq_true hBoth.1), hSized ⟨12⟩ _ hArray⟩

end Mission
