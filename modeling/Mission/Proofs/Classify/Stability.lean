import Mission.Proofs.Classify.Description
import Mission.Proofs.Classify.Typing
import Mission.Proofs.Session.Tracking

/-! Classifying a text again. Classification changes a workspace only by writing messages and by
adding Parameters at the end of the local store, and the names of Parameters have dots. So names
without a dot lead where they did, a Parameter that is there is found again, and one that is refused
stays refused. It follows that a text means the same thing as long as nothing else has happened. The
exception is a dotted name with an index in it, whose Parameter is stored under the name with the
index and looked for under the name without it. -/
namespace Mission

open Registry Outcome DottedName Parameter Name Option Accessor Workspace

/-! ### A new Parameter -/

namespace Store

variable {s : Store} {r r' : Registry}

/-- New objects are in the way of no name. -/
theorem find?_of_grows (h : Grows r r') (hs : s.Within r) (hParts : ∀ {id c}, c ∈ r.owned id → r.Has c)
    (name : String) : s.find? r' name = s.find? r name := by
  unfold find?
  dsimp only
  cases hSystem : s.solarSystem with
  | none => rw [bind_none, bind_none]
  | some system =>
    rw [bind_some, bind_some, h.findOwned_of_parts hParts (hs.system hSystem)]

theorem find?_insert_of_ne {name other : String} (h : stripIndex other ≠ name) (id : ObjectId) :
    find? { s with objects := s.objects.insert name id } r other = s.find? r other := by
  unfold find?
  dsimp only
  rw [Table.get?_insert_of_ne h]

end Store

namespace Parameter

variable {w : Workspace} {name other : String} {o : Object}

/-- Every other name leads where it did. -/
theorem find?_withParameter (h : w.Linked) (hne : stripIndex other ≠ name) :
    (withParameter w name o).find? other = w.find? other := by
  have hGrows := grows_withParameter w name o
  have hLocal : (withParameter w name o).scope.store.find? (withParameter w name o).registry other =
      w.scope.store.find? w.registry other :=
    (Store.find?_insert_of_ne hne _).trans (Store.find?_of_grows hGrows h.scope.store h.parts other)
  rw [find?, find?, Scope.find?, Scope.find?, hLocal]
  change _ = (_ <|> w.scope.outer.bind _)
  refine congrArg (w.scope.store.find? w.registry other <|> ·) (bind_congr fun outer hOuter => ?_)
  exact Store.find?_of_grows hGrows (h.scope.outer hOuter) h.parts other

theorem find?_withParameter_of_no_dot (h : w.Linked) (hDot : '.' ∈ name.toList)
    (hOther : '.' ∉ other.toList) : (withParameter w name o).find? other = w.find? other :=
  find?_withParameter h fun hSame => dot_not_mem_stripIndex hOther (hSame ▸ hDot)

/-- A name without an index leads to the new Parameter. -/
theorem find?_withParameter_self (hDot : '.' ∈ name.toList) (hName : stripIndex name = name) :
    (withParameter w name o).find? name = some (w.registry.push { object := o }).1 := by
  have hSystem : name ≠ "SolarSystem" := by
    rintro rfl
    exact absurd hDot (by decide)
  have hLocal : (withParameter w name o).scope.store.find? (withParameter w name o).registry name =
      some (w.registry.push { object := o }).1 := by
    unfold Store.find?
    dsimp only
    rw [hName, if_neg hSystem]
    change ((w.scope.store.objects.insert name _).get? name <|> _) = _
    rw [Table.get?_insert_self]
    rfl
  rw [find?, Scope.find?, hLocal]
  rfl

theorem object_withParameter (w : Workspace) (name : String) (o : Object) :
    (withParameter w name o).registry.object (w.registry.push { object := o }).1 = o := by
  rw [Registry.object, withParameter, entry_push_id]

theorem findOfType?_withParameter (h : w.Linked) (hne : stripIndex other ≠ name) (t : ObjectType) :
    (withParameter w name o).findOfType? other t = w.findOfType? other t := by
  have hFind : (withParameter w name o).find? other = w.find? other := find?_withParameter h hne
  rw [findOfType?, findOfType?, Scope.findOfType?, Scope.findOfType?]
  change ((withParameter w name o).find? other).filter _ = (w.find? other).filter _
  rw [hFind]
  cases hSome : w.find? other with
  | none => rfl
  | some id => rw [filter_some, filter_some, (grows_withParameter w name o).object (h.has_of_find? hSome)]

theorem findOfType?_withParameter_self (hDot : '.' ∈ name.toList) (hName : stripIndex name = name)
    (hType : o.isOfType .parameter = true) :
    (withParameter w name o).findOfType? name .parameter = some (w.registry.push { object := o }).1 := by
  have hFind : (withParameter w name o).scope.find? (withParameter w name o).registry name = some _ :=
    find?_withParameter_self hDot hName
  rw [findOfType?, Scope.findOfType?, hFind, filter_some, object_withParameter, if_pos hType]

/-- A Parameter that was given is in scope from then on. -/
theorem known_of_createFrom {kinds : ParameterKinds} {w' : Workspace} {id : ObjectId}
    (hDot : '.' ∈ name.toList) (hName : stripIndex name = name) (h : createFrom kinds name w = (.ok id, w')) :
    w'.findOfType? name .parameter = some id := by
  cases (Meets.of_ok h).mp (createFrom_provides kinds name w) with
  | known hKnown => exact hKnown
  | @new kind p text _ _ _ _ =>
    exact findOfType?_withParameter_self hDot hName (o := fresh name p) rfl

end Parameter

/-! ### What is kept -/

/-- Binding an object reads nothing but the object and where its properties are. -/
theorem Accessor.bind_congr {r r' : Registry} {id : ObjectId} (hObject : r'.object id = r.object id)
    (hProperty : ∀ part property, r'.findProperty id part property = r.findProperty id part property)
    (a : Accessor) : a.bind r' id = a.bind r id := by
  induction a with
  | property d p => simp only [bind, PropertyRef.bind, hObject, hProperty]
  | whole d k target => simp only [bind, hObject]
  | element d name array row column ihRow ihColumn => simp only [bind, hObject, ihRow, ihColumn]
  | _ => rfl

/-- The changes that classifying makes: messages, and Parameters of the local store. -/
abbrev Creates (kinds : ParameterKinds) : Workspace → Workspace → Prop :=
  Changes kinds fun _ => False

theorem classify_creates (kinds : ParameterKinds) (options : ClassifyOptions) (text : String)
    (w : Workspace) : Creates kinds w (classify kinds options text w).2 :=
  classify_changing options text w

namespace Creates

variable {kinds : ParameterKinds} {w w' w'' : Workspace}

theorem grows (h : Creates kinds w w') : Grows w.registry w'.registry := by
  induction h with
  | refl => exact .refl _
  | note _ _ _ ih => exact ih
  | parameter _ _ _ _ _ _ _ ih => exact ih.trans (grows_withParameter _ _ _)
  | axes _ target => exact target.elim

theorem linked (h : Creates kinds w w') (hw : w.Linked) : w'.Linked := by
  induction h with
  | refl => exact hw
  | note _ level text ih => exact ih.note level text
  | parameter _ _ _ _ _ _ _ ih => exact linked_withParameter ih _ _
  | axes _ target => exact target.elim

theorem find?_eq (h : Creates kinds w w') (hw : w.Linked) {name : String} (hName : '.' ∉ name.toList) :
    w'.find? name = w.find? name := by
  induction h with
  | refl => rfl
  | note _ _ _ ih => exact ih
  | parameter h dotted _ _ _ _ _ ih =>
    exact (find?_withParameter_of_no_dot (linked h hw) dotted hName).trans ih
  | axes _ target => exact target.elim

theorem findOfType?_eq (h : Creates kinds w w') (hw : w.Linked) {name : String} {id : ObjectId}
    (hName : stripIndex name = name) (hKnown : w.findOfType? name .parameter = some id) :
    w'.findOfType? name .parameter = some id := by
  induction h with
  | refl => exact hKnown
  | note _ _ _ ih => exact ih
  | @parameter w₁ h other _ _ _ _ unknown _ _ _ ih =>
    -- The Parameter is in scope, so it is another one that is created.
    have hne : stripIndex name ≠ other := by
      rintro rfl
      rw [hName, ih] at unknown
      cases unknown
    exact (findOfType?_withParameter (linked h hw) hne .parameter).trans ih
  | axes _ target => exact target.elim

end Creates

/-- Whether a Parameter can be described depends on its owner only. -/
theorem Parameter.exists_describe {w w' : Workspace} {kind : ParameterKind} {name owner dependency : String}
    {p : SystemParameter} (hOwner : w'.find? owner = w.find? owner)
    (hType : ∀ {id}, w.find? owner = some id →
      (w'.registry.object id).objectType = (w.registry.object id).objectType)
    (h : describe w' kind name owner dependency = .ok p) : ∃ p', describe w kind name owner dependency =
      .ok p' := by
  unfold describe at h ⊢
  dsimp only at h ⊢
  rw [hOwner] at h
  split at h
  · cases h
  · next hFits =>
      refine ⟨_, if_neg ?_⟩
      cases hSome : w.find? owner with
      | none => simp
      | some id =>
        rw [hSome] at hFits
        simpa [Object.isOfType, hType hSome] using hFits

namespace Creates

variable {kinds : ParameterKinds} {w w' w'' : Workspace}

theorem refused (h : Creates kinds w w') (hw : w.Linked) {name : String} (hName : stripIndex name = name)
    (hRefused : Parameter.Refused kinds w name) : Parameter.Refused kinds w' name := by
  induction h with
  | refl => exact hRefused
  | note _ _ _ ih => exact ⟨ih.unknown, ih.taken⟩
  | @parameter w₁ h other _ new dotted _ unknown known described free ih =>
    have hLinked := linked h hw
    have hne : stripIndex name ≠ other := by
      rintro rfl
      rw [hName] at known described free
      rw [ih.taken known described] at free
      cases free
    have hGrows := grows_withParameter w₁ other (fresh other new)
    refine ⟨(findOfType?_withParameter hLinked hne .parameter).trans ih.unknown, ?_⟩
    intro kind p hKind hDescribe
    have hOwner : (withParameter w₁ other (fresh other new)).find?
        (parse name).owner = w₁.find? (parse name).owner :=
      find?_withParameter_of_no_dot hLinked dotted (dot_not_mem_owner name)
    obtain ⟨p', hDescribe⟩ := exists_describe hOwner
      (fun hSome => by rw [hGrows.object (hLinked.has_of_find? hSome)]) hDescribe
    have hTaken := ih.taken hKind hDescribe
    unfold Store.contains Table.contains at hTaken ⊢
    change (Table.get? (Table.insert _ other _) name).isSome = true
    rw [Table.get?_insert_of_ne (hName ▸ hne)]
    exact hTaken
  | axes _ target => exact target.elim

end Creates

/-! ### The cases of classification -/

namespace Classify

variable {kinds : ParameterKinds} {w w' w'' : Workspace} {d : String} {a : Accessor}

theorem parameter_eq (kinds : ParameterKinds) (d : String) (w : Workspace) :
    parameter kinds d (parse d) w =
      match createFrom kinds d w with
      | (.ok id, w') => (.ok (.ofObject w'.registry d id), w')
      | (.error e, w') => (.error (.parameter d e), w') := by
  have hRun : parameter kinds d (parse d) w =
      (Step.mapError (ClassifyError.parameter d) (createFrom kinds d) >>= fun id =>
        get >>= fun w => pure (.ofObject w.registry d id)) w := rfl
  rw [hRun]
  rcases hCreate : createFrom kinds d w with ⟨e | id, w'⟩
  · refine run_bind_of_error ?_
    rw [Step.mapError, hCreate]
  · have hStep : Step.mapError (ClassifyError.parameter d) (createFrom kinds d) w = (.ok id, w') := by
      rw [Step.mapError, hCreate]
    rw [run_bind_of_ok hStep]
    rfl

theorem parameter_eq_ok : parameter kinds d (parse d) w = (.ok a, w') ↔
    ∃ id, createFrom kinds d w = (.ok id, w') ∧ a = .ofObject w'.registry d id := by
  constructor
  · intro h
    rw [parameter_eq] at h
    rcases hCreate : createFrom kinds d w with ⟨e | id, w₁⟩
    · rw [hCreate] at h
      cases h
    · rw [hCreate] at h
      cases h
      exact ⟨id, rfl, rfl⟩
  · rintro ⟨id, hCreate, rfl⟩
    rw [parameter_eq, hCreate]

theorem refused_of_parameter {e : ClassifyError}
    (h : parameter kinds d (parse d) w = (.error e, w')) : Parameter.Refused kinds w d ∧ w' = w := by
  rw [parameter_eq] at h
  rcases hCreate : createFrom kinds d w with ⟨e | id, w₁⟩
  · rw [hCreate] at h
    cases h
    exact refused_of_createFrom hCreate
  · rw [hCreate] at h
    cases h

theorem parameter_of_refused (h : Parameter.Refused kinds w d) :
    ∃ e, parameter kinds d (parse d) w = (.error e, w) := by
  obtain ⟨e, hCreate⟩ := createFrom_of_refused h
  exact ⟨.parameter d e, by rw [parameter_eq, hCreate]⟩

theorem property?_eq (r : Registry) (d : String) (owner : ObjectId) (parts : DottedName) :
    property? r d owner parts = (r.findProperty owner parts.dependency parts.field).map fun t =>
      .property d ⟨parts.owner, parts.dependency, parts.field, some t⟩ := by
  unfold property? PropertyRef.bind
  dsimp only
  cases r.findProperty owner parts.dependency parts.field <;> rfl

theorem propertyThenParameter_some (kinds : ParameterKinds) (d : String) (owner : ObjectId) (tried : Bool)
    (w : Workspace) :
    propertyThenParameter kinds d (parse d) (some owner) tried w =
      match property? w.registry d owner (parse d) with
      | some a => (.ok a, w)
      | none =>
        if tried || !Table.contains kinds (parse d).field then (.error (.noValidField d), w)
        else parameter kinds d (parse d) w := by
  have hGet : (get : Step ClassifyError Workspace) w = (.ok w, w) := rfl
  unfold propertyThenParameter
  dsimp only
  rw [run_bind_of_ok hGet]
  cases property? w.registry d owner (parse d) with
  | some a => rfl
  | none =>
    dsimp only
    split <;> rfl

/-- Whether a Parameter is tried before a property. -/
def parameterFirst (options : ClassifyOptions) (d : String) (w : Workspace) (owner : Option ObjectId) :
    Bool :=
  if 1 < DottedName.dots d then !owner.any fun id => (w.registry.object id).isOfType .burn
  else options.parametersFirst

theorem onOwner_eq (kinds : ParameterKinds) (options : ClassifyOptions) (d : String) (owner : Option ObjectId)
    (w : Workspace) :
    onOwner kinds options d (parse d) owner w =
      if !parameterFirst options d w owner then propertyThenParameter kinds d (parse d) owner false w
      else if (decide (1 < dots d)) || owner.isNone then parameter kinds d (parse d) w
      else
        match parameter kinds d (parse d) w with
        | (.ok a, w) => (.ok a, w)
        | (.error _, w) => propertyThenParameter kinds d (parse d) owner true w := by
  have hGet : (get : Step ClassifyError Workspace) w = (.ok w, w) := rfl
  unfold onOwner
  rw [run_bind_of_ok hGet]
  have hFirst : (if decide (1 < dots d) = true then
      !owner.any fun id => (w.registry.object id).isOfType .burn else options.parametersFirst) =
      parameterFirst options d w owner := by
    unfold parameterFirst
    split <;> simp_all
  rw [hFirst]
  -- What the two steps do does not matter here.
  generalize parameter kinds d (parse d) = step
  generalize propertyThenParameter kinds d (parse d) owner true = other
  split
  · rfl
  · split <;> rfl

theorem dotted_eq (kinds : ParameterKinds) (options : ClassifyOptions) (d : String) (w : Workspace) :
    dotted kinds options d w =
      match w.find? (parse d).owner with
      | none => onOwner kinds options d (parse d) none w
      | some owner =>
        match (w.registry.object owner).objectType with
        | .solarSystem => (solarSystemProperty w.registry d owner (parse d), w)
        | .forceModel | .propSetup | .coordinateSystem =>
          match property? w.registry d owner (parse d) with
          | some a => (.ok a, w)
          | none =>
            (.error (.ownedFieldNotFound d (parse d).owner (w.registry.object owner).objectType), w)
        | _ => onOwner kinds options d (parse d) (some owner) w := by
  have hGet : (get : Step ClassifyError Workspace) w = (.ok w, w) := rfl
  unfold dotted
  rw [run_bind_of_ok hGet]
  dsimp only
  cases w.find? (parse d).owner with
  | none => rfl
  | some owner =>
    dsimp only
    cases (w.registry.object owner).objectType with
    | forceModel | propSetup | coordinateSystem =>
      dsimp only
      cases property? w.registry d owner (parse d) <;> rfl
    | _ => rfl

/-! ### Classifying again -/

variable {options : ClassifyOptions}

theorem parameter_kept (hw : w'.Linked) (hDot : '.' ∈ d.toList) (hName : stripIndex d = d)
    (h : parameter kinds d (parse d) w = (.ok a, w')) (hLater : Creates kinds w' w'') :
    parameter kinds d (parse d) w'' = (.ok a, w'') := by
  obtain ⟨id, hCreate, rfl⟩ := parameter_eq_ok.mp h
  have hKnown := known_of_createFrom hDot hName hCreate
  refine parameter_eq_ok.mpr ⟨id, createFrom_of_known (hLater.findOfType?_eq hw hName hKnown), ?_⟩
  rw [ofObject, ofObject,
    hLater.grows.object (hw.has_of_find? (find?_of_findOfType? hKnown))]

theorem property?_kept (hw : w.Linked) (hLater : Creates kinds w w') {owner : ObjectId}
    (hOwner : w.registry.Has owner) :
    property? w'.registry d owner (parse d) = property? w.registry d owner (parse d) := by
  rw [property?_eq, property?_eq, hLater.grows.findProperty_of_parts hw.parts hOwner]

theorem propertyThenParameter_kept (hw : w.Linked) (hDot : '.' ∈ d.toList) (hName : stripIndex d = d)
    {owner : Option ObjectId} (hOwner : ∀ id ∈ owner, w.registry.Has id) {tried : Bool}
    (h : propertyThenParameter kinds d (parse d) owner tried w = (.ok a, w'))
    (hCreates : Creates kinds w w') (hLater : Creates kinds w' w'') :
    propertyThenParameter kinds d (parse d) owner tried w'' = (.ok a, w'') := by
  cases owner with
  | none => exact parameter_kept (hCreates.linked hw) hDot hName h hLater
  | some id =>
    rw [propertyThenParameter_some] at h ⊢
    rw [property?_kept hw (hCreates.trans hLater) (hOwner id rfl)]
    cases hProperty : property? w.registry d id (parse d) with
    | some b =>
      rw [hProperty] at h
      cases h
      rfl
    | none =>
      rw [hProperty] at h
      dsimp only at h ⊢
      split at h
      · cases h
      · next hTried =>
          rw [if_neg hTried]
          exact parameter_kept (hCreates.linked hw) hDot hName h hLater

theorem onOwner_kept (hw : w.Linked) (hDot : '.' ∈ d.toList) (hName : stripIndex d = d)
    {owner : Option ObjectId} (hOwner : ∀ id ∈ owner, w.registry.Has id)
    (h : onOwner kinds options d (parse d) owner w = (.ok a, w'))
    (hCreates : Creates kinds w w') (hLater : Creates kinds w' w'') :
    onOwner kinds options d (parse d) owner w'' = (.ok a, w'') := by
  have hAll : Creates kinds w w'' := hCreates.trans hLater
  have hFirst : parameterFirst options d w'' owner = parameterFirst options d w owner := by
    cases owner with
    | none => rfl
    | some id => rw [parameterFirst, parameterFirst, any_some, any_some, hAll.grows.object (hOwner id rfl)]
  rw [onOwner_eq] at h ⊢
  rw [hFirst]
  split at h
  · next hFirst =>
      rw [if_pos hFirst]
      exact propertyThenParameter_kept hw hDot hName hOwner h hCreates hLater
  · next hFirst =>
      rw [if_neg hFirst]
      split at h
      · next hOnly =>
          rw [if_pos hOnly]
          exact parameter_kept (hCreates.linked hw) hDot hName h hLater
      · next hOnly =>
          rw [if_neg hOnly]
          rcases hRun : parameter kinds d (parse d) w with ⟨e | b, w₁⟩
          · rw [hRun] at h
            obtain ⟨hRefused, rfl⟩ := refused_of_parameter hRun
            obtain ⟨e', hRun'⟩ := parameter_of_refused (hAll.refused hw hName hRefused)
            rw [hRun']
            exact propertyThenParameter_kept hw hDot hName hOwner h hCreates hLater
          · rw [hRun] at h
            cases h
            rw [parameter_kept (hCreates.linked hw) hDot hName hRun hLater]

/-- A dotted name stands for the same thing again. -/
theorem dotted_kept (hw : w.Linked) (hDot : '.' ∈ d.toList) (hName : stripIndex d = d)
    (h : dotted kinds options d w = (.ok a, w')) (hLater : Creates kinds w' w'') :
    dotted kinds options d w'' = (.ok a, w'') := by
  have hCreates : Creates kinds w w' := ((Meets.of_ok h).mp (dotted_means kinds options hDot w)).changes
    (trim_of_stripIndex hName)
  have hAll : Creates kinds w w'' := hCreates.trans hLater
  rw [dotted_eq] at h ⊢
  rw [hAll.find?_eq hw (dot_not_mem_owner d)]
  cases hFind : w.find? (parse d).owner with
  | none =>
    rw [hFind] at h
    exact onOwner_kept hw hDot hName (by rintro _ ⟨⟩) h hCreates hLater
  | some owner =>
    have hOwner := hw.has_of_find? hFind
    have hSystem : solarSystemProperty w''.registry d owner (parse d) =
        solarSystemProperty w.registry d owner (parse d) := by
      unfold solarSystemProperty PropertyRef.bind
      dsimp only
      rw [hAll.grows.findOwned_of_parts hw.parts hOwner, hAll.grows.findProperty_of_parts hw.parts hOwner]
    rw [hFind] at h
    dsimp only at h ⊢
    rw [hAll.grows.object hOwner]
    cases hType : (w.registry.object owner).objectType with
    | solarSystem =>
      rw [hType] at h
      obtain ⟨hRun, -⟩ := Prod.mk.inj h
      dsimp only
      rw [hSystem, hRun]
    | coordinateSystem | forceModel | propSetup =>
      rw [hType] at h
      dsimp only at h ⊢
      rw [property?_kept hw hAll hOwner]
      cases hProperty : property? w.registry d owner (parse d) with
      | none =>
        rw [hProperty] at h
        cases h
      | some b =>
        rw [hProperty] at h
        cases h
        rfl
    | _ =>
      rw [hType] at h
      exact onOwner_kept hw hDot hName (by rintro _ ⟨⟩; exact hOwner) h hCreates hLater

theorem bare_kept (hw : w.Linked) (hDot : '.' ∉ d.toList) (hLater : Creates kinds w w') :
    bare w' options d = bare w options d := by
  unfold bare
  rw [hLater.find?_eq hw hDot]
  cases hFind : w.find? d with
  | none => rfl
  | some id =>
    dsimp only
    rw [ofObject, ofObject, hLater.grows.object (hw.has_of_find? hFind)]

theorem arrayOf_kept (hw : w.Linked) {name : String} (hDot : '.' ∉ name.toList)
    (hLater : Creates kinds w w') : arrayOf w' name = arrayOf w name := by
  unfold arrayOf
  rw [hLater.find?_eq hw hDot]
  cases hFind : w.find? name with
  | none => rfl
  | some id =>
    dsimp only
    rw [hLater.grows.object (hw.has_of_find? hFind)]

theorem identifier_eq (kinds : ParameterKinds) (options : ClassifyOptions) (d : String) (w : Workspace) :
    identifier kinds options d w =
      if '.' ∈ d.toList then dotted kinds options d w else (bare w options d, w) := by
  unfold identifier
  by_cases hDot : '.' ∈ d.toList
  · rw [if_pos hDot, if_pos (by simpa using hDot)]
  · rw [if_neg hDot, if_neg (by simpa using hDot)]
    rfl

/-- An identifier stands for the same thing again. -/
theorem identifier_kept (hw : w.Linked) (hName : '.' ∈ d.toList → stripIndex d = d)
    (h : identifier kinds options d w = (.ok a, w')) (hLater : Creates kinds w' w'') :
    identifier kinds options d w'' = (.ok a, w'') := by
  rw [identifier_eq] at h ⊢
  by_cases hDot : '.' ∈ d.toList
  · rw [if_pos hDot] at h ⊢
    exact dotted_kept hw hDot (hName hDot) h hLater
  · rw [if_neg hDot] at h ⊢
    obtain ⟨hRun, rfl⟩ := Prod.mk.inj h
    rw [bare_kept hw hDot hLater, hRun]

end Classify

/-- Every identifier in the phrase is as asked for. -/
def Phrase.Names (P : String → Prop) : Phrase → Prop
  | identifier d => P d
  | element _ _ row column => row.Names P ∧ column.Names P
  | literal _ | malformed _ => True

theorem Phrase.Names.imp {P Q : String → Prop} (hImp : ∀ {d}, P d → Q d) {phrase : Phrase}
    (h : phrase.Names P) : phrase.Names Q := by
  induction phrase with
  | identifier d => exact hImp h
  | element d name row column ihRow ihColumn => exact ⟨ihRow h.1, ihColumn h.2⟩
  | literal _ | malformed _ => trivial

namespace Classify

variable {kinds : ParameterKinds} {w w' w'' : Workspace} {a : Accessor}

theorem resolve_element_eq_ok {options : ClassifyOptions} {d name : String} {row column : Phrase} :
    resolve kinds options (.element d name row column) w = (.ok a, w') ↔
      ∃ array row' w₁ column' w₂, arrayOf w name = .ok array ∧ resolve kinds .index row w = (.ok row', w₁) ∧
        resolve kinds .index column w₁ = (.ok column', w₂) ∧
        noteCreated ((element d name none row' column').bind w₂.registry array).1 w₂ = (.ok a, w') := by
  have hGet : ∀ w, (get : Step ClassifyError Workspace) w = (.ok w, w) := fun _ => rfl
  rw [resolve, run_bind_of_ok (hGet w), run_bind_eq_ok]
  constructor
  · rintro ⟨array, w₀, hArray, h⟩
    obtain ⟨hFound, rfl⟩ := Prod.mk.inj hArray
    obtain ⟨row', w₁, hRow, h⟩ := run_bind_eq_ok.mp h
    obtain ⟨column', w₂, hColumn, h⟩ := run_bind_eq_ok.mp h
    rw [run_bind_of_ok (hGet w₂)] at h
    exact ⟨array, row', w₁, column', w₂, hFound, hRow, hColumn, h⟩
  · rintro ⟨array, row', w₁, column', w₂, hFound, hRow, hColumn, h⟩
    refine ⟨array, w, by rw [hFound]; rfl, ?_⟩
    rw [run_bind_of_ok hRow, run_bind_of_ok hColumn, run_bind_of_ok (hGet w₂)]
    exact h

/-- A phrase stands for the same thing again, and nothing changes but the log. -/
theorem resolve_kept {phrase : Phrase} (hPlain : phrase.Plain)
    (hNames : phrase.Names fun d => '.' ∈ d.toList → stripIndex d = d) {options : ClassifyOptions}
    (hw : w.Linked) (h : resolve kinds options phrase w = (.ok a, w')) (hLater : Creates kinds w' w'') :
    ∃ log, resolve kinds options phrase w'' = (.ok a, { w'' with log }) := by
  have hCreates {phrase : Phrase} {options : ClassifyOptions} {v v' : Workspace} {b : Accessor}
      (hPlain : phrase.Plain) (hRun : resolve kinds options phrase v = (.ok b, v')) : Creates kinds v v' := by
    have hChanging : Creates kinds v (resolve kinds options phrase v).2 := resolve_changing hPlain options v
    rwa [hRun] at hChanging
  induction phrase generalizing options w w' w'' a with
  | literal b =>
    cases h
    exact ⟨_, rfl⟩
  | malformed e => cases h
  | identifier d =>
    obtain ⟨b, w₁, hRun, h⟩ := run_bind_eq_ok.mp h
    cases h
    have hLater₁ : Creates kinds w₁ w'' := Changes.trans (.note .refl _ _) hLater
    exact ⟨_, run_bind_of_ok (identifier_kept hw hNames hRun hLater₁)⟩
  | element d name row column ihRow ihColumn =>
    obtain ⟨array, row', w₁, column', w₂, hFound, hRow, hColumn, hDone⟩ := resolve_element_eq_ok.mp h
    cases hDone
    have hLater₂ : Creates kinds w₂ w'' := Changes.trans (.note .refl _ _) hLater
    have hColumnCreates := hCreates hPlain.2.2 hColumn
    have hw₁ := (hCreates hPlain.2.1 hRow).linked hw
    have hw₂ := hColumnCreates.linked hw₁
    obtain ⟨log, hRow'⟩ := ihRow hPlain.2.1 hNames.1 hw hRow (hColumnCreates.trans hLater₂)
    have hLog : Creates kinds w'' { w'' with log } := hCreates hPlain.2.1 hRow'
    obtain ⟨log', hColumn'⟩ := ihColumn hPlain.2.2 hNames.2 hw₁ hColumn (hLater₂.trans hLog)
    have hAll : Creates kinds w w₂ := (hCreates hPlain.2.1 hRow).trans hColumnCreates
    have hArray : w₂.registry.Has array :=
      hw₂.has_of_find? (arrayOf_eq_ok ((arrayOf_kept hw hPlain.1.2 hAll).trans hFound)).1
    have hFound' : arrayOf w'' name = .ok array := (arrayOf_kept hw hPlain.1.2 (hAll.trans hLater₂)).trans
      hFound
    have hAgain := (@resolve_element_eq_ok kinds w'' _ _ options d name row column).mpr
      ⟨array, row', _, column', _, hFound', hRow', hColumn', rfl⟩
    rw [bind_congr (hLater₂.grows.object hArray)
      (hLater₂.grows.findProperty_of_parts hw₂.parts hArray)] at hAgain
    exact ⟨_, hAgain⟩

end Classify

/-! ### Names without an index -/

/-- A name without an index, and without blanks around it, is looked for as it stands. -/
theorem Name.stripIndex_of_trim {name : String} (hTrim : Text.trim name = name)
    (hIndex : '(' ∉ name.toList ∧ '[' ∉ name.toList) : stripIndex name = name := by
  have hAll : name.toList.takeWhile (fun c => c ≠ '(' && c ≠ '[') = name.toList := by
    refine List.takeWhile_eq_self_iff.mpr fun c hc => ?_
    have hParenthesis : c ≠ '(' := fun h => hIndex.1 (h ▸ hc)
    have hBracket : c ≠ '[' := fun h => hIndex.2 (h ▸ hc)
    simp [hParenthesis, hBracket]
  rw [stripIndex, hAll]
  exact hTrim

namespace Phrase

theorem Plain.trimmed {phrase : Phrase} (h : phrase.Plain) : phrase.Names fun d => Text.trim d = d := by
  induction phrase with
  | identifier d => exact h
  | element d name row column ihRow ihColumn => exact ⟨ihRow h.2.1, ihColumn h.2.2⟩
  | literal _ | malformed _ => trivial

theorem Names.and {P Q : String → Prop} {phrase : Phrase} (hP : phrase.Names P) (hQ : phrase.Names Q) :
    phrase.Names fun d => P d ∧ Q d := by
  induction phrase with
  | identifier d => exact ⟨hP, hQ⟩
  | element d name row column ihRow ihColumn => exact ⟨ihRow hP.1 hQ.1, ihColumn hP.2 hQ.2⟩
  | literal _ | malformed _ => trivial

instance decidableNames (P : String → Prop) [DecidablePred P] : (phrase : Phrase) → Decidable (phrase.Names P)
  | identifier d => inferInstanceAs (Decidable (P d))
  | element _ _ row column =>
    have := decidableNames P row
    have := decidableNames P column
    inferInstanceAs (Decidable (row.Names P ∧ column.Names P))
  | literal _ | malformed _ => .isTrue trivial

/-- A dotted name has no index in it. -/
def Unindexed (phrase : Phrase) : Prop :=
  phrase.Names fun d => '.' ∈ d.toList → '(' ∉ d.toList ∧ '[' ∉ d.toList

instance (phrase : Phrase) : Decidable phrase.Unindexed :=
  decidableNames _ phrase

/-- The dotted names of a text without indices are looked for as they stand. -/
theorem Unindexed.stripIndex {text : String} (h : (parse text).Unindexed) :
    (parse text).Names fun d => '.' ∈ d.toList → stripIndex d = d := by
  exact ((plain_parse text).trimmed.and h).imp fun ⟨hTrim, hIndex⟩ hDot => stripIndex_of_trim hTrim
    (hIndex hDot)

end Phrase

/-! ### The result -/

/-- The second workspace is the first one with system Parameters at the end of its local store, and
nothing else is new. -/
structure Workspace.Appends (w w' : Workspace) : Prop where
  outer : w'.scope.outer = w.scope.outer
  system : w'.scope.store.solarSystem = w.scope.store.solarSystem
  old : ∀ {id}, w.registry.Has id → w'.registry.Has id ∧ w'.registry.entry id = w.registry.entry id
  new : ∃ added, w'.scope.store.objects.entries = w.scope.store.objects.entries ++ added ∧
    (∀ {name id}, (name, id) ∈ added →
      ¬ w.registry.Has id ∧ w'.registry.Has id ∧
        ∃ p, w'.registry.entry id = { object := Parameter.fresh name p }) ∧
    ∀ {id}, w'.registry.Has id → w.registry.Has id ∨ id ∈ added.map Prod.snd

theorem Creates.appends {kinds : ParameterKinds} {w w' : Workspace} (h : Creates kinds w w') :
    w.Appends w' := by
  induction h with
  | refl => exact ⟨rfl, rfl, fun hId => ⟨hId, rfl⟩, [], by simp, by simp, .inl⟩
  | note _ _ _ ih => exact ⟨ih.outer, ih.system, ih.old, ih.new⟩
  | @parameter w₁ h name kind p _ _ _ _ _ free ih =>
    have hGrows := grows_withParameter w₁ name (fresh name p)
    obtain ⟨added, hEntries, hAdded, hAll⟩ := ih.new
    refine ⟨ih.outer, ih.system, fun hId => ?_,
      added ++ [(name, (w₁.registry.push { object := fresh name p }).1)], ?_, ?_, ?_⟩
    · exact ⟨hGrows.has (ih.old hId).1, (hGrows.entry (ih.old hId).1).trans (ih.old hId).2⟩
    · rw [← List.append_assoc, ← hEntries]
      exact congrArg Table.entries (Table.insert_of_not_contains free _)
    · intro other id hMem
      rcases List.mem_append.mp hMem with hMem | hMem
      · obtain ⟨hNew, hHas, p', hEntry⟩ := hAdded hMem
        exact ⟨hNew, hGrows.has hHas, p', (hGrows.entry hHas).trans hEntry⟩
      · cases List.mem_singleton.mp hMem
        exact ⟨fun hId => not_has_push_id _ _ (ih.old hId).1, has_push.mpr (.inr rfl), p, entry_push_id _ _⟩
    · intro id hId
      rcases has_push.mp hId with hId | rfl
      · exact (hAll hId).imp_right fun hMem => by
          rw [List.map_append]
          exact List.mem_append_left _ hMem
      · exact .inr (by simp; exact .inr rfl)
  | axes _ target => exact target.elim

theorem Workspace.Sound.linked {w : Workspace} (h : w.Sound) : w.Linked := by
  have hStore : ∀ {s : Store}, s.Sound w.registry → s.Within w.registry := by
    intro s hs
    refine ⟨fun hMem => ?_, fun hSystem => (hs.system hSystem).1.has⟩
    obtain ⟨⟨name, id⟩, hEntry, rfl⟩ := List.mem_map.mp hMem
    exact (hs.root hEntry).has
  exact ⟨⟨hStore h.scope.store, fun hOuter => hStore (h.scope.outer hOuter).1⟩, h.forest.has⟩

/-- Whatever the text, classifying it adds system Parameters at the end of the local store and
changes nothing else, also where it fails. If it succeeds, and no dotted name of the text has an
index in it, then the same text stands for the same accessor from then on, and nothing more is
added. -/
theorem classify_appends_and_settles (kinds : ParameterKinds) (options : ClassifyOptions) (text : String)
    {w : Workspace} (hLinked : w.Linked) :
    w.Appends (classify kinds options text w).2 ∧
      ∀ {a w'}, classify kinds options text w = (.ok a, w') → (Phrase.parse text).Unindexed →
        ∃ log, classify kinds options text w' = (.ok a, { w' with log }) := by
  have hCreates := classify_creates kinds options text w
  refine ⟨hCreates.appends, fun {a w'} h hIndex => ?_⟩
  rw [h] at hCreates
  exact Classify.resolve_kept (Phrase.plain_parse _) hIndex.stripIndex hLinked h .refl

/-- A script with a spacecraft, an array and a variable. -/
def Session.arrayScript : Session :=
  ((((Session.new {}).add (Catalog.spacecraft "sat")).2.add (Catalog.userArray "A" 3 3)).2.add
    (Catalog.userVariable "i" 2.0)).2

/-- The row of the element is a new Parameter, which is there when the text is classified again. -/
theorem classify_element_settles :
    ∃ a w', classify .builtin {} "A(sat.RMAG, i)" Session.arrayScript.workspace = (.ok a, w') ∧
      Session.arrayScript.workspace.Appends w' ∧ w'.scope.store.contains "sat.RMAG" = true ∧
      ∃ log, classify .builtin {} "A(sat.RMAG, i)" w' = (.ok a, { w' with log }) := by
  have hReachable : Session.arrayScript.Reachable := .add _ (.add _ (.add _ (.new _)))
  obtain ⟨hAppends, hSettles⟩ := classify_appends_and_settles .builtin {} "A(sat.RMAG, i)"
    hReachable.sound.workspace.linked
  have hCreated : (classify .builtin {} "A(sat.RMAG, i)" Session.arrayScript.workspace).2.scope.store.contains
      "sat.RMAG" = true := by decide +kernel
  have hOk : (classify .builtin {} "A(sat.RMAG, i)" Session.arrayScript.workspace).1.isOk = true := by
    decide +kernel
  rcases hRun : classify .builtin {} "A(sat.RMAG, i)" Session.arrayScript.workspace with ⟨e | a, w'⟩
  · rw [hRun] at hOk
    cases hOk
  · rw [hRun] at hAppends hCreated
    exact ⟨a, w', rfl, hAppends, hCreated, hSettles hRun (by decide +kernel)⟩

end Mission
