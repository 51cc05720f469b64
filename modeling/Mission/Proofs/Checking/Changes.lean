import Mission.Proofs.Checking.Completeness
import Mission.Proofs.Classify.Tracking

/-! Everything that checking does to a workspace. It writes messages, creates Parameters in the
local store and attaches axes to the coordinate system of a left-hand side, and nothing else,
whatever the workspace and whichever way the check ends. So what these three steps keep, every check
keeps. -/
namespace Mission

open Registry Outcome Edit Command

/-- The changes that checking makes to a workspace, where the left-hand sides of the assignments satisfy
`written`. -/
inductive Changes (kinds : ParameterKinds) (written : String → Prop) (w : Workspace) : Workspace → Prop
  | refl : Changes kinds written w w
  | note {w' : Workspace} (h : Changes kinds written w w') (level : Level) (text : String) :
      Changes kinds written w (w'.note level text)
  | parameter {w' : Workspace} (h : Changes kinds written w w') {name : String} {kind : ParameterKind}
      {p : SystemParameter} (dotted : '.' ∈ name.toList) (trimmed : Text.trim name = name)
      (unknown : w'.findOfType? name .parameter = none)
      (known : Table.get? kinds (DottedName.parse name).field = some kind)
      (described : Parameter.describe w' kind name (DottedName.parse name).owner
        (DottedName.parse name).dependency = .ok p)
      (free : w'.scope.store.contains name = false) :
      Changes kinds written w
        (Parameter.withParameter w' name ⟨name, (DottedName.parse name).field, .parameter, {}, .parameter p⟩)
  | axes {w' : Workspace} (h : Changes kinds written w w') {lhs axisType : String} {id : ObjectId}
      {axes : Assembly} {system : Object} (target : written lhs)
      (field : (DottedName.parse lhs).field = "Axes")
      (found : w'.findOfType? (DottedName.parse lhs).owner .coordinateSystem = some id)
      (known : Catalog.axisSystem axisType = .ok axes)
      (set : (w'.registry.object id).set "Axes" (.string axisType) = .ok system) :
      Changes kinds written w
        { w' with registry := (w'.registry.setObject id system).replaceOwned id .axisSystem axes }

namespace Changes

variable {kinds : ParameterKinds} {written : String → Prop} {w w' w'' : Workspace}

theorem trans (h : Changes kinds written w w') (h' : Changes kinds written w' w'') :
    Changes kinds written w w'' := by
  induction h' with
  | refl => exact h
  | note _ level text ih => exact ih.note level text
  | parameter _ dotted trimmed unknown known described free ih =>
    exact ih.parameter dotted trimmed unknown known described free
  | axes _ target field found known set ih => exact ih.axes target field found known set

/-- The outer store is only read. -/
theorem outer (h : Changes kinds written w w') : w'.scope.outer = w.scope.outer := by
  induction h with
  | refl => rfl
  | note _ _ _ ih => exact ih
  | parameter _ _ _ _ _ _ _ ih => exact ih
  | axes _ _ _ _ _ _ ih => exact ih

/-- No name is given twice. -/
theorem keys (h : Changes kinds written w w') (hKeys : w.scope.store.objects.keys.Nodup) :
    w'.scope.store.objects.keys.Nodup := by
  induction h with
  | refl => exact hKeys
  | note _ _ _ ih => exact ih
  | parameter _ _ _ _ _ _ _ ih => exact Table.nodup_keys_insert ih _ _
  | axes _ _ _ _ _ _ ih => exact ih

end Changes

/-- A step that makes only such changes, also where it fails. -/
def Step.Changing {ε α : Type} (kinds : ParameterKinds) (written : String → Prop) (f : Step ε α) : Prop :=
  ∀ w, Changes kinds written w (f w).2

namespace Step.Changing

variable {ε α β : Type} {kinds : ParameterKinds} {written : String → Prop}

theorem throw (e : ε) : Changing kinds written (throw e : Step ε α) :=
  fun _ => .refl

theorem lift (x : Except ε α) : Changing kinds written (liftM x : Step ε α) :=
  fun _ => .refl

theorem bind {f : Step ε α} {g : α → Step ε β} (hf : Changing kinds written f)
    (hg : ∀ a, Changing kinds written (g a)) : Changing kinds written (f >>= g) := by
  intro w
  have hFirst := hf w
  change Changes kinds written w (match f w with | (x, w') => ExceptT.bindCont g x w').2
  cases hRun : f w with
  | mk x w' =>
    rw [hRun] at hFirst
    cases x with
    | ok a => exact hFirst.trans (hg a w')
    | error e => exact hFirst

theorem get_bind {g : Workspace → Step ε β} (hg : ∀ w, Changes kinds written w (g w w).2) :
    Changing kinds written (get >>= g) :=
  hg

theorem meets {f : Step ε α} (h : Changing kinds written f) (w : Workspace) :
    Meets f w (Changes kinds written w) fun w' _ => Changes kinds written w w' :=
  ⟨fun _ => h w, fun _ => h w⟩

theorem of_meets {f : Step ε α}
    (h : ∀ w, Meets f w (Changes kinds written w) fun w' _ => Changes kinds written w w') :
    Changing kinds written f := by
  intro w
  cases hRun : f w with
  | mk x w' =>
    cases x with
    | ok a => exact (Meets.of_ok hRun).mp (h w)
    | error e => exact (Meets.of_error hRun).mp (h w)

end Step.Changing

section

variable {kinds : ParameterKinds} {written : String → Prop}

/-- A Parameter is found or made new. -/
theorem Parameter.Provides.changes {name : String} {w w' : Workspace} {id : ObjectId}
    (h : Provides kinds name w w' id) (hDot : '.' ∈ name.toList) (hTrim : Text.trim name = name) :
    Changes kinds written w w' := by
  cases h with
  | known => exact .refl
  | new text unknown known described free =>
    exact .note (.parameter .refl hDot hTrim unknown known described free) _ _

namespace Classify

/-- An identifier means what is there or a new Parameter. -/
theorem Means.changes {d : String} {w w' : Workspace} {a : Accessor} (h : Means kinds d w w' a)
    (hTrim : Text.trim d = d) : Changes kinds written w w' := by
  cases h with
  | parameter hDot hGiven => exact hGiven.changes hDot hTrim
  | _ => exact .refl

theorem identifier_changing (options : ClassifyOptions) {d : String} (hTrim : Text.trim d = d) :
    (identifier kinds options d).Changing kinds written := by
  refine .of_meets fun w => (identifier_means kinds options d w).mono ?_ fun _ _ h => h.changes hTrim
  rintro _ rfl
  exact .refl

theorem noteCreated_changing (a : Accessor) : (noteCreated a).Changing kinds written :=
  fun _ => Changes.refl.note _ _

theorem resolve_changing {phrase : Phrase} (hPlain : phrase.Plain) (options : ClassifyOptions) :
    (resolve kinds options phrase).Changing kinds written := by
  induction phrase generalizing options with
  | literal a => exact noteCreated_changing a
  | malformed e => exact .throw _
  | identifier description => exact .bind (identifier_changing options hPlain) noteCreated_changing
  | element description name row column ihRow ihColumn =>
    refine .get_bind fun w => ?_
    refine Step.Changing.bind (.lift _)
      (fun array => .bind (ihRow hPlain.2.1 _) fun row => .bind (ihColumn hPlain.2.2 _) ?_) w
    exact fun column => .get_bind fun w => noteCreated_changing _ w

end Classify

/-- Classifying a text makes a Parameter at most, whether it succeeds or not. -/
theorem classify_changing (options : ClassifyOptions) (text : String) :
    (classify kinds options text).Changing kinds written :=
  Classify.resolve_changing (Phrase.plain_parse text) options

end

/-- The accessor has come of classifying the text on the way from the first workspace to the second. -/
def Classified (kinds : ParameterKinds) (written : String → Prop) (w w' : Workspace) (text : String)
    (a : Accessor) : Prop :=
  ∃ options w₁ w₂, Changes kinds written w w₁ ∧ classify kinds options text w₁ = (.ok a, w₂) ∧
    Changes kinds written w₂ w'

section

variable {kinds : ParameterKinds} {written : String → Prop} {w w' w'' : Workspace} {text : String}
  {a : Accessor}

theorem Classified.later (h : Classified kinds written w w' text a) (h' : Changes kinds written w' w'') :
    Classified kinds written w w'' text a := by
  obtain ⟨options, w₁, w₂, hBefore, hRun, hAfter⟩ := h
  exact ⟨options, w₁, w₂, hBefore, hRun, hAfter.trans h'⟩

theorem Classified.earlier (h' : Changes kinds written w w') (h : Classified kinds written w' w'' text a) :
    Classified kinds written w w'' text a := by
  obtain ⟨options, w₁, w₂, hBefore, hRun, hAfter⟩ := h
  exact ⟨options, w₁, w₂, h'.trans hBefore, hRun, hAfter⟩

end

/-- The texts that a command writes to. -/
def Command.targets : Command → List String
  | assignment a _ => [a.lhs]
  | call c _ => Slot.names c.outputs
  | branch _ _ _ _ _ | report _ _ | propagate _ _ => []

theorem Command.targets_clear (c : Command) : c.clear.targets = c.targets := by
  cases c with
  | call c line => exact Slot.names_map Slot.clear (fun _ => rfl) c.outputs
  | _ => rfl

theorem Command.targets_bind (c : Command) (name : String) (a : Accessor) :
    (c.bind name a).1.targets = c.targets := by
  cases c with
  | assignment c line => exact congrArg (fun lhs => [lhs]) (c.sameSides_bindSource name a).lhs
  | call c line => exact Slot.names_map _ (Slot.name_bind name a) c.outputs
  | _ => rfl

namespace Checker

variable {written : String → Prop} (ck : Checker)

/-- The check gives each name an accessor that comes of classifying it. -/
theorem accessorOf_changes (options : ClassifyOptions) (name referencedIn : String) (w : Workspace) :
    Meets (ck.accessorOf options name referencedIn) w (Changes ck.kinds written w)
      fun w' a => Changes ck.kinds written w w' ∧ Classified ck.kinds written w w' name a := by
  have hClassify : Changes ck.kinds written w (classify ck.kinds options name w).2 :=
    classify_changing options name w
  cases hRun : classify ck.kinds options name w with
  | mk x w' =>
    rw [hRun] at hClassify
    cases x with
    | ok a =>
      -- A warning is the only other thing that can happen.
      have hWarned : ∃ w'', ck.accessorOf options name referencedIn w = (.ok a, w'') ∧
          Changes ck.kinds written w' w'' := by
        dsimp only [accessorOf]
        rw [hRun]
        dsimp only
        split
        · exact ⟨_, rfl, Changes.refl.note _ _⟩
        · exact ⟨_, rfl, .refl⟩
      obtain ⟨w'', hRun', hAfter⟩ := hWarned
      exact (Meets.of_ok hRun').mpr ⟨hClassify.trans hAfter, options, w, w', .refl, hRun, hAfter⟩
    | error e =>
      have hError : ∃ e', ck.accessorOf options name referencedIn w = (.error e', w') := by
        dsimp only [accessorOf]
        rw [hRun]
        cases e <;> exact ⟨_, rfl⟩
      obtain ⟨e', hRun'⟩ := hError
      exact (Meets.of_error hRun').mpr hClassify

theorem sourceAccessor_changes (targetType : DataType) (name referencedIn : String) (w : Workspace) :
    Meets (ck.sourceAccessor targetType name referencedIn) w (Changes ck.kinds written w)
      fun w' a => Changes ck.kinds written w w' ∧ ∃ text, Classified ck.kinds written w w' text a := by
  unfold sourceAccessor
  refine .get (.ite (fun _ => ?_) fun _ => ?_)
  · exact (ck.accessorOf_changes _ _ _ w).mono (fun _ => id) fun _ _ h => ⟨h.1, _, h.2⟩
  · exact (ck.accessorOf_changes _ _ _ w).mono (fun _ => id) fun _ _ h => ⟨h.1, _, h.2⟩

/-- Axes are attached to the object on the left-hand side. -/
theorem attachAxes_changing {kinds : ParameterKinds} {a : Assignment} (hWritten : written a.lhs) :
    (attachAxes a).Changing kinds written := by
  unfold attachAxes
  dsimp only
  refine .of_meets fun w => .ite (fun _ => .pure .refl) fun hAxes => .get ?_
  have hField : (DottedName.parse a.lhs).field = "Axes" := by
    simp only [Bool.or_eq_true, decide_eq_true_eq, not_or, Decidable.not_not] at hAxes
    exact hAxes.1.1
  split
  · exact .pure .refl
  · next id hFind =>
      refine .lift_bind .refl fun axes hKnown => .lift_bind .refl fun system hSet => ?_
      refine .set_bind (Step.meets_note (.note ?_ _ _))
      exact .axes .refl hWritten hField hFind (CommandError.liftObject_eq_ok.mp hKnown)
        (CommandError.liftObject_eq_ok.mp hSet)

theorem build_changes {kinds : ParameterKinds} (a : Assignment) (functions : List String) (w : Workspace) :
    Meets (a.build functions) w (Changes kinds written w) fun w' result =>
      Changes kinds written w w' ∧ result.1.lhs = a.lhs ∧ result.1.target = a.target ∧
        result.1.accessors = a.accessors := by
  have hEquation : Meets (a.equation.build a.rhs false functions) w (Changes kinds written w) fun w' result =>
      Changes kinds written w w' ∧ result.1.bindings = a.equation.bindings := by
    unfold Equation.build
    refine .ite (fun _ => .pure ⟨.refl, rfl⟩) fun _ => .lift_bind .refl fun f _ => ?_
    cases f with
    | none => exact .pure ⟨.refl, rfl⟩
    | some f => exact Step.meets_note_bind (.pure ⟨Changes.refl.note _ _, rfl⟩)
  refine .bind (Step.meets_mapError hEquation) ?_
  rintro ⟨eq, built⟩ w' ⟨hw, hBindings⟩
  refine .pure ⟨hw, rfl, rfl, ?_⟩
  change _ ++ _ ++ eq.bindings.values.flatMap Option.toList = _
  rw [hBindings]
  rfl

end Checker

namespace Edit

variable {σ α β : Type} {kinds : ParameterKinds} {written : String → Prop} {s : σ × Workspace}
  {J : σ × Workspace → Prop} {Q : σ × Workspace → β → Prop}

theorem meets_subject {g : σ → Edit σ β} (h : Meets (g s.1) s J Q) : Meets (subject >>= g) s J Q :=
  ⟨h.failed, h.result⟩

theorem meets_workspace {g : Workspace → Edit σ β} (h : Meets (g s.2) s J Q) :
    Meets (workspace >>= g) s J Q :=
  ⟨h.failed, h.result⟩

theorem meets_replace {x : σ} {g : Unit → Edit σ β} (h : Meets (g ()) (x, s.2) J Q) :
    Meets (replace x >>= g) s J Q :=
  ⟨h.failed, h.result⟩

theorem meets_step {f : Step CommandError α} {E : Workspace → Prop} {P : Workspace → α → Prop}
    (h : Meets f s.2 E P) :
    Meets (step f) s (fun s' => s'.1 = s.1 ∧ E s'.2) fun s' a => s'.1 = s.1 ∧ P s'.2 a :=
  ⟨fun he => ⟨rfl, h.failed he⟩, fun ha => ⟨rfl, h.result ha⟩⟩

theorem meets_within {τ : Type} {part : τ} {rebuild : τ → σ} {f : Edit τ α} {E : τ × Workspace → Prop}
    {P : τ × Workspace → α → Prop} (h : Meets f (part, s.2) E P) :
    Meets (within part rebuild f) s (fun s' => ∃ x, s'.1 = rebuild x ∧ E (x, s'.2))
      fun s' a => ∃ x, s'.1 = rebuild x ∧ P (x, s'.2) a :=
  ⟨fun he => ⟨_, rfl, h.failed he⟩, fun ha => ⟨_, rfl, h.result ha⟩⟩

/-- What holds of the subject whatever a check does to the workspace holds after a step of the check. -/
theorem meets_changes_bind (hLater : ∀ {w}, Changes kinds written s.2 w → J (s.1, w))
    {f : Step CommandError α} {P : Workspace → α → Prop}
    (hf : Meets f s.2 (Changes kinds written s.2) fun w a => Changes kinds written s.2 w ∧ P w a)
    {g : α → Edit σ β}
    (hg : ∀ a w, Changes kinds written s.2 w → P w a → Meets (g a) (s.1, w) J Q) :
    Meets (step f >>= g) s J Q := by
  refine .bind ((meets_step hf).mono ?_ fun _ _ => id) ?_
  · rintro ⟨x, w⟩ ⟨rfl, hw⟩
    exact hLater hw
  · rintro a ⟨x, w⟩ ⟨rfl, hw, hP⟩
    exact hg a w hw hP

theorem meets_changing {f : Step CommandError α} (hf : f.Changing kinds written)
    (hLater : ∀ {w}, Changes kinds written s.2 w → J (s.1, w)) :
    Meets (step f) s J fun s' _ => J s' := by
  refine (meets_step (hf.meets s.2)).mono ?_ ?_
  · rintro ⟨x, w⟩ ⟨rfl, hw⟩
    exact hLater hw
  · rintro ⟨x, w⟩ a ⟨rfl, hw⟩
    exact hLater hw

end Edit

namespace Checker

variable {written : String → Prop} (ck : Checker)
variable {kinds : ParameterKinds} {s : Assignment × Workspace} {w w' w'' : Workspace} {s' : CheckState}
  {x : Except ValidationError Bool}

/-- What holds of an assignment while it is checked: its accessors have come of classifying texts,
its target of classifying its left-hand side. -/
structure Targets (kinds : ParameterKinds) (written : String → Prop) (w₀ : Workspace) (text : String)
    (s : Assignment × Workspace) : Prop where
  changes : Changes kinds written w₀ s.2
  lhs : s.1.lhs = text
  target : ∀ {t}, s.1.target = some t → Classified kinds written w₀ s.2 text t
  held : ∀ {x}, x ∈ s.1.accessors → ∃ name, Classified kinds written w₀ s.2 name x

variable {w₀ : Workspace} {lhs : String}

theorem Targets.later (h : Targets kinds written w₀ lhs s) (hw : Changes kinds written s.2 w) :
    Targets kinds written w₀ lhs (s.1, w) :=
  ⟨h.changes.trans hw, h.lhs, fun ht => (h.target ht).later hw, fun hx => (h.held hx).imp fun _ =>
    (·.later hw)⟩

theorem target_bindSource (a : Assignment) (name : String) (accessor : Accessor) :
    (a.bindSource name accessor).1.target = a.target := by
  unfold Assignment.bindSource
  split
  · rfl
  · split <;> rfl

/-- The names on the right-hand side leave the target as it is. -/
theorem bindSources_changes (targetType : DataType) (referencedIn : String) (names : List String)
    (h : Targets ck.kinds written w₀ lhs s) :
    Meets (ck.bindSources targetType referencedIn names) s (Targets ck.kinds written w₀ lhs)
      fun s' _ => Targets ck.kinds written w₀ lhs s' := by
  induction names generalizing s with
  | nil => exact .pure h
  | cons name rest ih =>
    refine meets_subject (.ite (fun _ => ?_) fun _ => ih h)
    refine meets_changes_bind h.later (ck.sourceAccessor_changes targetType name referencedIn s.2) ?_
    rintro a w hw ⟨text, ha⟩
    refine .ite (fun _ => .throw_bind _ (h.later hw)) fun _ => meets_replace (ih ?_)
    refine ⟨(h.later hw).changes, ?_, fun ht => (h.later hw).target ?_, fun hx => ?_⟩
    · exact (s.1.sameSides_bindSource name a).lhs.trans h.lhs
    · rwa [← target_bindSource s.1 name a]
    · rcases Assignment.mem_accessors_bindSource hx with rfl | hOld
      · exact ⟨text, ha.earlier h.changes⟩
      · exact (h.later hw).held hOld

/-- An assignment that fails halfway has changed no more than one that passes. -/
theorem checkAssignment_changes (h : Targets ck.kinds written w₀ lhs s) (hWritten : written lhs) :
    Meets ck.checkAssignment s (Targets ck.kinds written w₀ lhs)
      fun s' _ => Targets ck.kinds written w₀ lhs s' := by
  unfold checkAssignment
  refine meets_subject ?_
  refine meets_changes_bind h.later (build_changes s.1 ck.functions.keys s.2) ?_
  rintro ⟨c, built⟩ w hw ⟨hLhs, hTarget, hHeld⟩
  have hBuilt : Targets ck.kinds written w₀ lhs (c, w) :=
    ⟨(h.later hw).changes, hLhs.trans h.lhs, fun ht => (h.later hw).target (hTarget.symm.trans ht),
      fun hx => (h.later hw).held (hHeld ▸ hx)⟩
  refine meets_replace (meets_changes_bind hBuilt.later (ck.accessorOf_changes _ c.lhs _ w) ?_)
  intro target w' hw' hClassified
  have h' := hBuilt.later hw'
  refine .ite (fun _ => .throw_bind _ h') fun _ => meets_workspace ?_
  refine .ite (fun _ => .throw_bind _ h') fun _ => .lift_bind h' ?_
  rintro ⟨names, c'⟩ hNames
  have hSame : c'.lhs = c.lhs := by
    obtain ⟨names', a', hSource, hSides, -⟩ := c.sourceNames_spec
    rw [hSource] at hNames
    cases hNames
    exact hSides.lhs
  have hBound : Targets ck.kinds written w₀ lhs (c'.bindTarget target, w') := by
    refine ⟨h'.changes, hSame.trans hBuilt.lhs, fun ht => ?_, fun hx => ?_⟩
    · cases ht
      exact (hBuilt.lhs ▸ hClassified).earlier hBuilt.changes
    · rcases Assignment.mem_accessors_bindTarget hx with rfl | hOld
      · exact ⟨_, hClassified.earlier hBuilt.changes⟩
      · exact h'.held (Assignment.mem_accessors_sourceNames hNames hOld)
  refine meets_replace (.bind (ck.bindSources_changes _ _ names hBound) ?_)
  intro _ s' h''
  have hAxes : (attachAxes s'.1).Changing ck.kinds written := attachAxes_changing (h''.lhs ▸ hWritten)
  have hAttach := meets_changing hAxes h''.later
  refine meets_subject (.ite (fun _ => ?_) fun _ => hAttach)
  exact meets_workspace (.lift_bind h'' fun _ _ => hAttach)

/-- What a checked command holds has come of classifying its texts. -/
structure Settled (kinds : ParameterKinds) (written : String → Prop) (w w' : Workspace) (c : Command) :
    Prop where
  targets : ∀ {text}, text ∈ c.targets → written text
  places : ∀ {name a}, (name, some a) ∈ c.places → Classified kinds written w w' name a
  assigned : ∀ {a line t}, c = .assignment a line → a.target = some t →
    Classified kinds written w w' a.lhs t
  held : ∀ {x}, x ∈ c.accessors → ∃ name, Classified kinds written w w' name x

theorem Settled.later {c : Command} (h : Settled kinds written w w' c) (h' : Changes kinds written w' w'') :
    Settled kinds written w w'' c :=
  ⟨h.targets, fun hPlace => (h.places hPlace).later h', fun hc ht => (h.assigned hc ht).later h',
    fun hx => (h.held hx).imp fun _ => (·.later h')⟩

theorem Settled.earlier {c : Command} (h' : Changes kinds written w w') (h : Settled kinds written w' w'' c) :
    Settled kinds written w w'' c :=
  ⟨h.targets, fun hPlace => (h.places hPlace).earlier h', fun hc ht => (h.assigned hc ht).earlier h',
    fun hx => (h.held hx).imp fun _ => (·.earlier h')⟩

/-- The invariant of checking a command with these commands inside. -/
structure Settles (kinds : ParameterKinds) (written : String → Prop) (inner : List Command)
    (w₀ : Workspace) (s : Command × Workspace) : Prop where
  changes : Changes kinds written w₀ s.2
  inner : s.1.inner = inner
  settled : Settled kinds written w₀ s.2 s.1

theorem Settles.later {inner : List Command} {s : Command × Workspace} (h : Settles kinds written inner w₀ s)
    (hw : Changes kinds written s.2 w) : Settles kinds written inner w₀ (s.1, w) :=
  ⟨h.changes.trans hw, h.inner, h.settled.later hw⟩

/-- A name of a command that is no assignment gets its accessor. -/
theorem Settles.bind {inner : List Command} {s : Command × Workspace} (h : Settles kinds written inner w₀ s)
    (hOther : ∀ a line, s.1 ≠ .assignment a line) {name : String} {a : Accessor}
    (ha : Classified kinds written w₀ s.2 name a) :
    Settles kinds written inner w₀ ((s.1.bind name a).1, s.2) := by
  refine ⟨h.changes, (s.1.inner_bind name a).trans h.inner, ?_, ?_, ?_, ?_⟩
  · intro text hText
    rw [targets_bind] at hText
    exact h.settled.targets hText
  · intro other b hPlace
    rw [places_bind] at hPlace
    obtain ⟨⟨old, x⟩, hOld, hBound⟩ := List.mem_map.mp hPlace
    rw [bindPlace, Prod.mk.injEq] at hBound
    obtain ⟨rfl, hBound⟩ := hBound
    dsimp only at hBound
    split at hBound
    · next hName =>
        cases hBound
        rwa [hName]
    · rw [hBound] at hOld
      exact h.settled.places hOld
  · intro b line t hSame
    exfalso
    cases hCommand : s.1 with
    | assignment c line' => exact hOther c line' hCommand
    | _ => rw [hCommand] at hSame; cases hSame
  · intro x hx
    rcases mem_accessors_bind hx with rfl | hOld
    · exact ⟨name, ha⟩
    · exact h.settled.held hOld

/-- Names are bound one after the other, and the commands inside stay. -/
theorem bindNames_changes {inner : List Command} (options : ClassifyOptions) (referencedIn : String)
    (names : List String) {s : Command × Workspace} (h : Settles ck.kinds written inner w₀ s)
    (hOther : ∀ a line, s.1 ≠ .assignment a line) :
    Meets (ck.bindNames options referencedIn names) s (Settles ck.kinds written inner w₀)
      fun s' _ => Settles ck.kinds written inner w₀ s' := by
  induction names generalizing s with
  | nil => exact .pure h
  | cons name rest ih =>
    refine meets_changes_bind h.later (ck.accessorOf_changes options name referencedIn s.2) ?_
    intro a w hw hClassified
    refine meets_subject (.ite (fun _ => .throw_bind _ (h.later hw)) fun _ => meets_replace ?_)
    refine ih ((h.later hw).bind hOther (hClassified.earlier h.changes)) ?_
    intro b line hSame
    cases hCommand : s.1 with
    | assignment c line' => exact hOther c line' hCommand
    | _ => rw [hCommand] at hSame; cases hSame

/-- The step: one check, passed or failed, settles its command. -/
theorem check_changes {c : Command} (hTargets : ∀ text ∈ c.targets, written text) (w : Workspace) :
    Meets ck.check (c, w) (Settles ck.kinds written c.inner w)
      fun s' _ => Settles ck.kinds written c.inner w s' := by
  have hClear : Settles ck.kinds written c.inner w (c.clear, w) := by
    refine ⟨.refl, c.inner_clear, ?_, ?_, ?_, ?_⟩
    · intro text hText
      rw [targets_clear] at hText
      exact hTargets text hText
    · intro name a hPlace
      rw [places_clear] at hPlace
      obtain ⟨place, -, hNone⟩ := List.mem_map.mp hPlace
      cases hNone
    · intro a line t hSame hTarget
      cases c with
      | assignment b _ =>
        cases hSame
        cases hTarget
      | _ => cases hSame
    · intro x hx
      rw [accessors_clear] at hx
      cases hx
  -- The references are only looked at.
  have hLast : ∀ {s : Command × Workspace}, Settles ck.kinds written c.inner w s →
      Meets
        (subject >>= fun c => workspace >>= fun w =>
          liftM (ck.checkReferences w s!"{c.typeName} command" c.references))
        s (Settles ck.kinds written c.inner w) fun s' _ => Settles ck.kinds written c.inner w s' :=
    fun h => meets_subject (meets_workspace (.lift h fun _ _ => h))
  unfold check
  refine meets_subject (meets_replace (.ite (fun _ => .pure hClear) fun _ => ?_))
  cases c with
  | assignment a line =>
    have hStart : Targets ck.kinds written w a.lhs (a.clear, w) :=
      ⟨.refl, rfl, (fun hTarget => by cases hTarget), fun hx => by
        rw [Assignment.accessors_clear] at hx
        cases hx⟩
    have hWritten : written a.lhs := hTargets a.lhs (List.mem_singleton.mpr rfl)
    have hRebuild : ∀ {s : Command × Workspace},
        (∃ x, s.1 = .assignment x line ∧ Targets ck.kinds written w a.lhs (x, s.2)) →
          Settles ck.kinds written [] w s := by
      rintro ⟨_, w'⟩ ⟨x, rfl, hx⟩
      refine ⟨hx.changes, rfl, ?_, (fun hPlace => by cases hPlace), ?_, hx.held⟩
      · intro text hText
        rw [List.mem_singleton.mp hText, hx.lhs]
        exact hWritten
      · intro b line' t hSame hTarget
        cases hSame
        rw [hx.lhs]
        exact hx.target hTarget
    refine .bind ((meets_within (ck.checkAssignment_changes hStart hWritten)).mono
      (fun _ => hRebuild) fun _ _ => id) ?_
    exact fun _ _ h => hLast (hRebuild h)
  | call call line =>
    refine .lift_bind hClear fun _ _ => .bind (meets_subject ?_) fun _ _ => hLast
    exact ck.bindNames_changes _ _ _ hClear nofun
  | branch kind chain body otherwise line | report c line | propagate c line =>
    refine .bind (meets_subject ?_) fun _ _ => hLast
    exact ck.bindNames_changes _ _ _ hClear nofun

theorem validateOne_changes {c c' : Command} {s : CheckState} (hTargets : ∀ text ∈ c.targets, written text)
    (h : ck.validateOne c s = (x, c', s')) :
    Settles ck.kinds written c.inner s.workspace (c', s'.workspace) := by
  have hCheck := ck.check_changes hTargets s.workspace
  unfold validateOne at h
  rcases hRun : ck.check (c, s.workspace) with ⟨y, c₁, w⟩
  rw [hRun] at h
  cases y with
  | ok _ =>
    cases h
    exact (Meets.of_ok hRun).mp hCheck
  | error e =>
    have hSettles := (Meets.of_error hRun).mp hCheck
    have hHandle : Changes ck.kinds written w
        (ck.handle e c₁.text c₁.line { s with workspace := w }).2.workspace := by
      dsimp only [handle]
      split
      · exact .refl
      · exact Changes.refl.note _ _
    cases h
    exact hSettles.later hHandle

/-- Everything that the commands and those inside them hold has come of classifying their texts. -/
structure AllSettled (kinds : ParameterKinds) (written : String → Prop) (w w' : Workspace)
    (cs : List Command) : Prop where
  settled : ∀ {c}, Command.Occurs c cs → Settled kinds written w w' c

section

variable {kinds : ParameterKinds} {w w' w'' : Workspace} {cs : List Command}

theorem AllSettled.later (h : AllSettled kinds written w w' cs) (h' : Changes kinds written w' w'') :
    AllSettled kinds written w w'' cs :=
  ⟨fun hc => (h.settled hc).later h'⟩

theorem AllSettled.earlier (h' : Changes kinds written w w') (h : AllSettled kinds written w' w'' cs) :
    AllSettled kinds written w w'' cs :=
  ⟨fun hc => (h.settled hc).earlier h'⟩

theorem AllSettled.nil : AllSettled kinds written w w' [] :=
  ⟨fun hc => absurd hc not_occurs_nil⟩

theorem AllSettled.cons {c : Command} (hOwn : Settled kinds written w w' c)
    (hInner : AllSettled kinds written w w' c.inner) (hRest : AllSettled kinds written w w' cs) :
    AllSettled kinds written w w' (c :: cs) := by
  refine ⟨fun hc => ?_⟩
  rcases occurs_cons.mp hc with rfl | hc | hc
  · exact hOwn
  · exact hInner.settled hc
  · exact hRest.settled hc

theorem AllSettled.append {ds : List Command} (h : AllSettled kinds written w w' cs)
    (h' : AllSettled kinds written w w' ds) : AllSettled kinds written w w' (cs ++ ds) :=
  ⟨fun hc => (occurs_append.mp hc).elim h.settled h'.settled⟩

theorem AllSettled.withInner {c : Command} {body otherwise : List Command}
    (hOwn : Settled kinds written w w' c) (hBody : AllSettled kinds written w w' body)
    (hOtherwise : AllSettled kinds written w w' otherwise) :
    AllSettled kinds written w w' [Checker.withInner body otherwise c] := by
  cases c with
  | branch kind chain _ _ line =>
    refine .cons ⟨hOwn.targets, hOwn.places, ?_, hOwn.held⟩ (.append hBody hOtherwise) .nil
    intro a line' t hSame
    cases hSame
  | assignment a line | report c line | propagate c line | call c line => exact .cons hOwn .nil .nil

end

/-- Everything that the commands and those inside them write to satisfies `written`. -/
structure AllWritten (written : String → Prop) (cs : List Command) : Prop where
  written : ∀ {c text}, Command.Occurs c cs → text ∈ c.targets → written text

theorem validateOne_settled {c c' : Command} {s : CheckState} (hInner : c.inner = [])
    (hTargets : ∀ text ∈ c.targets, written text) (h : ck.validateOne c s = (x, c', s')) :
    Changes ck.kinds written s.workspace s'.workspace ∧
      ∀ valid, x = .ok valid → AllSettled ck.kinds written s.workspace s'.workspace [c'] := by
  have hSettles := ck.validateOne_changes hTargets h
  refine ⟨hSettles.changes, fun _ _ => .cons hSettles.settled ?_ .nil⟩
  rw [hSettles.inner, hInner]
  exact .nil

mutual

/-- The commands inside are settled before the command itself. -/
theorem validate_changes {c c' : Command} {s s' : CheckState} {x : Except ValidationError Bool}
    (hWritten : AllWritten written [c]) (h : ck.validate c s = (x, c', s')) :
    Changes ck.kinds written s.workspace s'.workspace ∧
      ∀ valid, x = .ok valid → AllSettled ck.kinds written s.workspace s'.workspace [c'] := by
  have hTargets : ∀ text ∈ c.targets, written text := fun _ => hWritten.written .here
  cases c with
  | assignment a line | report c line | propagate c line | call c line =>
    rw [validate] at h
    exact ck.validateOne_settled rfl hTargets h
  | branch kind chain body otherwise line =>
    have hInBody : AllWritten written body :=
      ⟨fun hc => hWritten.written (.inside (occurs_append.mpr (.inl hc)))⟩
    have hInOtherwise : AllWritten written otherwise :=
      ⟨fun hc => hWritten.written (.inside (occurs_append.mpr (.inr hc)))⟩
    rw [validate] at h
    rcases hOne : ck.validateOne (.branch kind chain body otherwise line) s with ⟨x₁, c₁, s₁⟩
    have hSettles := ck.validateOne_changes hTargets hOne
    rw [hOne] at h
    cases x₁ with
    | error e =>
      cases h
      exact ⟨hSettles.changes, nofun⟩
    | ok valid =>
      rcases hBody : ck.validateEach body valid s₁ with ⟨x₂, body', s₂⟩
      obtain ⟨hChanges₂, hSettled₂⟩ := validateEach_changes hInBody hBody
      simp only [hBody] at h
      cases x₂ with
      | error e =>
        cases h
        exact ⟨hSettles.changes.trans hChanges₂, nofun⟩
      | ok valid =>
        rcases hOtherwise : ck.validateEach otherwise valid s₂ with ⟨x₃, otherwise', s₃⟩
        obtain ⟨hChanges₃, hSettled₃⟩ := validateEach_changes hInOtherwise hOtherwise
        simp only [hOtherwise] at h
        cases h
        have hFirst := hSettles.changes
        refine ⟨(hFirst.trans hChanges₂).trans hChanges₃, fun valid' hOk => ?_⟩
        refine .withInner (hSettles.settled.later (hChanges₂.trans hChanges₃)) ?_ ?_
        · exact ((hSettled₂ valid rfl).later hChanges₃).earlier hFirst
        · exact (hSettled₃ valid' hOk).earlier (hFirst.trans hChanges₂)

/-- The run: a list of commands is settled command by command. -/
theorem validateEach_changes {cs cs' : List Command} {valid : Bool} {s s' : CheckState}
    {x : Except ValidationError Bool} (hWritten : AllWritten written cs)
    (h : ck.validateEach cs valid s = (x, cs', s')) :
    Changes ck.kinds written s.workspace s'.workspace ∧
      ∀ valid, x = .ok valid → AllSettled ck.kinds written s.workspace s'.workspace cs' := by
  cases cs with
  | nil =>
    rw [validateEach] at h
    cases h
    exact ⟨.refl, fun _ _ => .nil⟩
  | cons c rest =>
    have hFirstWritten : AllWritten written [c] := ⟨fun hc => hWritten.written hc.first⟩
    have hRestWritten : AllWritten written rest := ⟨fun hc => hWritten.written (.later hc)⟩
    rw [validateEach] at h
    rcases hFirst : ck.validate c s with ⟨x₁, c₁, s₁⟩
    obtain ⟨hChanges₁, hSettled₁⟩ := validate_changes hFirstWritten hFirst
    simp only [hFirst] at h
    cases x₁ with
    | error e =>
      cases h
      exact ⟨hChanges₁, nofun⟩
    | ok fine =>
      rcases hRest : ck.validateEach rest (valid && fine) s₁ with ⟨x₂, rest', s₂⟩
      obtain ⟨hChanges₂, hSettled₂⟩ := validateEach_changes hRestWritten hRest
      simp only [hRest] at h
      cases h
      refine ⟨hChanges₁.trans hChanges₂, fun valid hOk => ?_⟩
      exact .append ((hSettled₁ fine rfl).later hChanges₂) ((hSettled₂ valid hOk).earlier hChanges₁)

end

/-- What checking commands comes to, whatever the workspace. -/
theorem validateAll_changes {cs cs' : List Command} {s : CheckState} (hWritten : AllWritten written cs)
    (h : ck.validateAll cs s = (x, cs', s')) :
    Changes ck.kinds written s.workspace s'.workspace ∧
      ∀ valid, x = .ok valid → AllSettled ck.kinds written s.workspace s'.workspace cs' := by
  dsimp only [validateAll] at h
  rcases hEach : ck.validateEach cs true s with ⟨x₁, cs₁, s₁⟩
  obtain ⟨hChanges, hSettled⟩ := ck.validateEach_changes hWritten hEach
  rw [hEach] at h
  cases x₁ with
  | error e =>
    cases h
    exact ⟨hChanges, nofun⟩
  | ok valid =>
    cases h
    exact ⟨hChanges.note _ _, fun _ _ => (hSettled valid rfl).later (Changes.refl.note _ _)⟩

/-- The same where it does not matter what is written. -/
theorem validateAll_settles {cs cs' : List Command} {s : CheckState}
    (h : ck.validateAll cs s = (x, cs', s')) :
    Changes ck.kinds (fun _ => True) s.workspace s'.workspace ∧
      ∀ valid, x = .ok valid → AllSettled ck.kinds (fun _ => True) s.workspace s'.workspace cs' :=
  ck.validateAll_changes ⟨fun _ _ => trivial⟩ h

end Checker

end Mission
