import Mission.Classify.Basic
import Mission.Proofs.Outcome

/-! What a name can mean. A dotted name is a property of an owner in scope or a system Parameter,
one that is in scope or a new one; any other name is an object in scope or a literal. Whatever is
proved of classifying names follows these cases. -/
namespace Mission

open Registry Outcome DottedName Meets

namespace Step

variable {ε α : Type} {w : Workspace} {E : Workspace → Prop} {level : Level} {text : String}

theorem meets_mapError {ε' : Type} {f : ε → ε'} {step : Step ε α} {Q : Workspace → α → Prop}
    (h : Meets step w E Q) : Meets (mapError f step) w E Q := by
  cases hStep : step w with
  | mk x w' =>
    cases x with
    | ok a =>
      have hRun : mapError f step w = (.ok a, w') := by rw [mapError, hStep]
      exact (of_ok hRun).mpr ((of_ok hStep).mp h)
    | error e =>
      have hRun : mapError f step w = (.error (f e), w') := by rw [mapError, hStep]
      exact (of_error hRun).mpr ((of_error hStep).mp h)

/-- A second step stands in where a first one has failed and changed nothing. -/
theorem meets_orElse {f g step : Step ε α} {Q : Workspace → α → Prop} (hf : Meets f w (· = w) Q)
    (hg : Meets g w E Q) (hOk : ∀ {a w'}, f w = (.ok a, w') → step w = (.ok a, w'))
    (hError : ∀ {e w'}, f w = (.error e, w') → step w = g w') : Meets step w E Q := by
  cases hRun : f w with
  | mk x w' =>
    cases x with
    | ok a => exact (of_ok (hOk hRun)).mpr ((of_ok hRun).mp hf)
    | error e =>
      obtain rfl : w' = w := (of_error hRun).mp hf
      refine ⟨?_, ?_⟩
      · rw [hError hRun]
        exact hg.failed
      · rw [hError hRun]
        exact hg.result

theorem meets_note {Q : Workspace → Unit → Prop} (h : Q (w.note level text) ()) :
    Meets (note level text : Step ε Unit) w E Q where
  failed he := by cases he
  result ha := by
    cases ha
    exact h

theorem meets_note_bind {Q : Workspace → α → Prop} {g : Unit → Step ε α}
    (h : Meets (g ()) (w.note level text) E Q) : Meets (note level text >>= g) w E Q :=
  ⟨h.failed, h.result⟩

end Step

/-! ### Asking for a Parameter -/

namespace Parameter

variable {kinds : ParameterKinds} {w w' : Workspace} {name : String} {id : ObjectId}

/-- The workspace with a new object that only its local store names. -/
def withParameter (w : Workspace) (name : String) (o : Object) : Workspace :=
  { w with
    registry := (w.registry.push { object := o }).2
    scope :=
      { w.scope with
        store :=
          { w.scope.store with
            objects := w.scope.store.objects.insert name (w.registry.push { object := o }).1 } } }

/-- The object of a new Parameter. -/
def fresh (name : String) (p : SystemParameter) : Object :=
  ⟨name, (DottedName.parse name).field, .parameter, {}, .parameter p⟩

/-- No Parameter of this name is in scope, and none can be created. -/
structure Refused (kinds : ParameterKinds) (w : Workspace) (name : String) : Prop where
  unknown : w.findOfType? name .parameter = none
  taken : ∀ {kind p}, Table.get? kinds (DottedName.parse name).field = some kind →
    describe w kind name (DottedName.parse name).owner (DottedName.parse name).dependency = .ok p →
      w.scope.store.contains name = true

theorem createFrom_of_known (h : w.findOfType? name .parameter = some id) :
    createFrom kinds name w = (.ok id, w) := by
  change (get >>= _ : Step ObjectError ObjectId) w = _
  rw [run_bind_of_ok (show (get : Step ObjectError Workspace) w = (.ok w, w) from rfl), h]
  rfl

theorem createFrom_of_unknown (h : w.findOfType? name .parameter = none) :
    createFrom kinds name w =
      match Table.get? kinds (parse name).field with
      | none => (.error (.unknownParameterType (parse name).field), w)
      | some kind =>
        match describe w kind name (parse name).owner (parse name).dependency with
        | .error e => (.error e, w)
        | .ok p =>
          if w.scope.store.contains name then (.error (.duplicateName name), w)
          else
            (.ok (w.registry.push { object := fresh name p }).1,
              (withParameter w name (fresh name p)).note .debug
                s!"Created {(DottedName.parse name).field} Parameter \"{name}\"") := by
  have hGet : (get : Step ObjectError Workspace) w = (.ok w, w) := rfl
  have hLift : ∀ p : SystemParameter,
      (liftM (Except.ok p : Except ObjectError SystemParameter) : Step ObjectError SystemParameter) w =
        (.ok p, w) := fun _ => rfl
  unfold createFrom create
  dsimp only
  rw [run_bind_of_ok hGet, h]
  cases Table.get? kinds (parse name).field with
  | none => rfl
  | some kind =>
    dsimp only
    cases describe w kind name (parse name).owner (parse name).dependency with
    | error e => rfl
    | ok p =>
      rw [run_bind_of_ok (hLift p)]
      by_cases hTaken : w.scope.store.contains name = true
      · rw [if_pos hTaken]
        dsimp only
        rw [if_pos hTaken]
        rfl
      · rw [if_neg hTaken]
        dsimp only
        rw [if_neg hTaken]
        rfl

/-- The Parameter is in scope, or it is created, or it is refused and nothing changes. -/
theorem createFrom_cases (kinds : ParameterKinds) (name : String) (w : Workspace) :
    (∃ id, w.findOfType? name .parameter = some id ∧ createFrom kinds name w = (.ok id, w)) ∨
    (∃ kind p text, w.findOfType? name .parameter = none ∧
      Table.get? kinds (parse name).field = some kind ∧
      describe w kind name (parse name).owner (parse name).dependency = .ok p ∧
      w.scope.store.contains name = false ∧
      createFrom kinds name w = (.ok (w.registry.push { object := fresh name p }).1,
        (withParameter w name (fresh name p)).note .debug text)) ∨
    (Refused kinds w name ∧ ∃ e, createFrom kinds name w = (.error e, w)) := by
  cases hKnown : w.findOfType? name .parameter with
  | some id => exact .inl ⟨id, rfl, createFrom_of_known hKnown⟩
  | none =>
    rw [createFrom_of_unknown hKnown]
    cases hKind : Table.get? kinds (parse name).field with
    | none =>
      refine .inr (.inr ⟨⟨hKnown, fun h => ?_⟩, _, rfl⟩)
      rw [hKind] at h
      cases h
    | some kind =>
      dsimp only
      cases hDescribe :
          describe w kind name (parse name).owner (parse name).dependency with
      | error e =>
        refine .inr (.inr ⟨⟨hKnown, fun h h' => ?_⟩, e, rfl⟩)
        rw [hKind] at h
        cases h
        rw [hDescribe] at h'
        cases h'
      | ok p =>
        dsimp only
        by_cases hTaken : w.scope.store.contains name = true
        · rw [if_pos hTaken]
          exact .inr (.inr ⟨⟨hKnown, fun _ _ => hTaken⟩, _, rfl⟩)
        · rw [if_neg hTaken]
          exact .inr (.inl ⟨kind, p, _, rfl, rfl, hDescribe, by simpa using hTaken, rfl⟩)

theorem createFrom_of_refused (h : Refused kinds w name) : ∃ e, createFrom kinds name w = (.error e, w) := by
  rcases createFrom_cases kinds name w with ⟨id, hKnown, -⟩ | ⟨kind, p, text, -, hKind, hDescribe, hFree, -⟩ |
    ⟨-, h⟩
  · rw [h.unknown] at hKnown
    cases hKnown
  · rw [h.taken hKind hDescribe] at hFree
    cases hFree
  · exact h

theorem refused_of_createFrom {e : ObjectError} (h : createFrom kinds name w = (.error e, w')) :
    Refused kinds w name ∧ w' = w := by
  rcases createFrom_cases kinds name w with ⟨id, -, hRun⟩ | ⟨kind, p, text, -, -, -, -, hRun⟩ |
    ⟨hRefused, e', hRun⟩
  · rw [hRun] at h
    cases h
  · rw [hRun] at h
    cases h
  · rw [hRun] at h
    cases h
    exact ⟨hRefused, rfl⟩

/-- A Parameter that is asked for is in scope, or it is new. -/
inductive Provides (kinds : ParameterKinds) (name : String) (w : Workspace) : Workspace → ObjectId → Prop
  | known {id : ObjectId} (known : w.findOfType? name .parameter = some id) : Provides kinds name w w id
  | new {kind : ParameterKind} {p : SystemParameter} (text : String)
      (unknown : w.findOfType? name .parameter = none)
      (known : Table.get? kinds (DottedName.parse name).field = some kind)
      (described : describe w kind name (DottedName.parse name).owner (DottedName.parse name).dependency =
      .ok p)
      (free : w.scope.store.contains name = false) :
      Provides kinds name w ((withParameter w name (fresh name p)).note .debug text)
        (w.registry.push { object := fresh name p }).1

theorem createFrom_provides (kinds : ParameterKinds) (name : String) (w : Workspace) :
    Meets (createFrom kinds name) w (· = w) (Provides kinds name w) := by
  rcases createFrom_cases kinds name w with
    ⟨id, hKnown, hRun⟩ | ⟨kind, p, text, hUnknown, hKind, hDescribe, hFree, hRun⟩ | ⟨-, e, hRun⟩
  · exact (of_ok hRun).mpr (.known hKnown)
  · exact (of_ok hRun).mpr (.new text hUnknown hKind hDescribe hFree)
  · exact (of_error hRun).mpr rfl

end Parameter

namespace Classify

variable {kinds : ParameterKinds} {d : String} {w : Workspace}

/-- What a name without an index can mean. Only a new Parameter changes the workspace. -/
inductive Means (kinds : ParameterKinds) (d : String) (w : Workspace) : Workspace → Accessor → Prop
  | parameter {id : ObjectId} {w' : Workspace} (dotted : '.' ∈ d.toList)
      (given : Parameter.Provides kinds d w w' id) :
      Means kinds d w w' (.ofObject w'.registry d id)
  | property {p : PropertyRef} {owner : ObjectId} (dotted : '.' ∈ d.toList)
      (name : p.owner = (DottedName.parse d).owner) (field : p.property = (DottedName.parse d).field)
      (found : w.find? p.owner = some owner) (bound : (p.bind w.registry owner).target.isSome = true) :
      Means kinds d w w (.property d (p.bind w.registry owner))
  | object {id : ObjectId} (plain : '.' ∉ d.toList) (found : w.find? d = some id) :
      Means kinds d w w (.ofObject w.registry d id)
  | literal {a : Accessor} (literal : a.kind.isLiteral = true) (description : a.description = d) :
      Means kinds d w w a

theorem parameter_means (kinds : ParameterKinds) (hDot : '.' ∈ d.toList) (w : Workspace) :
    Meets (parameter kinds d (parse d)) w (· = w) (Means kinds d w) :=
  .bind (Step.meets_mapError (Parameter.createFrom_provides kinds d w)) fun _ _ h => .get
    (.pure (.parameter hDot h))

theorem means_of_property? (hDot : '.' ∈ d.toList) {owner : ObjectId}
    (hOwner : w.find? (parse d).owner = some owner) {a : Accessor}
    (h : property? w.registry d owner (parse d) = some a) : Means kinds d w w a := by
  let p : PropertyRef := ⟨(parse d).owner, (parse d).dependency, (parse d).field, none⟩
  simp only [property?] at h
  split at h
  · next hSome =>
      cases h
      exact .property (p := p) hDot rfl rfl hOwner hSome
  · cases h

theorem means_of_solarSystemProperty (hDot : '.' ∈ d.toList) {owner : ObjectId}
    (hOwner : w.find? (parse d).owner = some owner) {a : Accessor}
    (h : solarSystemProperty w.registry d owner (parse d) = .ok a) : Means kinds d w w a := by
  let body := String.ofList ((parse d).dependency.toList.takeWhile (· ≠ '.'))
  let p : PropertyRef := ⟨(parse d).owner, body, (parse d).field, none⟩
  simp only [solarSystemProperty] at h
  split at h
  · cases h
  · split at h
    · next hSome =>
        cases h
        exact .property (p := p) hDot rfl rfl hOwner hSome
    · cases h

theorem propertyThenParameter_means (kinds : ParameterKinds) (hDot : '.' ∈ d.toList) {owner : Option ObjectId}
    (hOwner : ∀ id, owner = some id → w.find? (parse d).owner = some id) (tried : Bool) :
    Meets (propertyThenParameter kinds d (parse d) owner tried) w (· = w) (Means kinds d w) := by
  unfold propertyThenParameter
  cases owner with
  | none => exact parameter_means kinds hDot w
  | some id =>
    refine .get ?_
    split
    · next a ha => exact .pure (means_of_property? hDot (hOwner id rfl) ha)
    · exact .ite (fun _ => .throw _ rfl) fun _ => parameter_means kinds hDot w

theorem onOwner_means (kinds : ParameterKinds) (options : ClassifyOptions) (hDot : '.' ∈ d.toList)
    {owner : Option ObjectId} (hOwner : ∀ id, owner = some id → w.find? (parse d).owner = some id) :
    Meets (onOwner kinds options d (parse d) owner) w (· = w) (Means kinds d w) := by
  have hParameter := parameter_means kinds hDot w
  have hProperty := propertyThenParameter_means kinds hDot hOwner
  unfold onOwner
  refine .get ?_
  dsimp only
  refine .ite (fun _ => hProperty false) fun _ => .ite (fun _ => hParameter) fun _ => ?_
  refine Step.meets_orElse hParameter (hProperty true) ?_ ?_
  · intro a w' hRun
    rw [hRun]
  · intro e w' hRun
    rw [hRun]

/-- The property that has been found is given, and a failure reported where there is none. -/
theorem meets_property? {r : Registry} {description : String} {owner : ObjectId} {parts : DottedName}
    {e : ClassifyError} {E : Workspace → Prop} {Q : Workspace → Accessor → Prop} (hNone : E w)
    (hSome : ∀ {a}, property? r description owner parts = some a → Q w a) :
    Meets
      (match property? r description owner parts with
        | some a => pure a
        | none => throw e : Step ClassifyError Accessor)
      w E Q := by
  split
  · next a ha => exact .pure (hSome ha)
  · exact .throw e hNone

theorem dotted_means (kinds : ParameterKinds) (options : ClassifyOptions) (hDot : '.' ∈ d.toList)
    (w : Workspace) : Meets (dotted kinds options d) w (· = w) (Means kinds d w) := by
  unfold dotted
  refine .get ?_
  dsimp only
  split
  · exact onOwner_means kinds options hDot (by simp)
  · next owner hOwner =>
      split
      · exact .lift rfl fun a ha => means_of_solarSystemProperty hDot hOwner ha
      · exact meets_property? rfl (means_of_property? hDot hOwner)
      · exact meets_property? rfl (means_of_property? hDot hOwner)
      · exact meets_property? rfl (means_of_property? hDot hOwner)
      · exact onOwner_means kinds options hDot fun id hId => hId ▸ hOwner

theorem means_of_bare {options : ClassifyOptions} (hDot : '.' ∉ d.toList) {a : Accessor}
    (h : bare w options d = .ok a) : Means kinds d w w a := by
  unfold bare at h
  split at h
  · next id hFind =>
      cases h
      exact .object hDot hFind
  · split at h
    · cases h
      exact .literal rfl rfl
    · cases h
      exact .literal rfl rfl
    · split at h
      · cases h
        exact .literal rfl rfl
      · cases h

theorem identifier_means (kinds : ParameterKinds) (options : ClassifyOptions) (d : String) (w : Workspace) :
    Meets (identifier kinds options d) w (· = w) (Means kinds d w) := by
  unfold identifier
  refine .ite (fun hDot => ?_) fun hDot => .get (.lift rfl fun a ha => ?_)
  · exact dotted_means kinds options (by simpa using hDot) w
  · exact means_of_bare (by simpa using hDot) ha

end Classify

end Mission
