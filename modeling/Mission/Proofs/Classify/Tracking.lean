import Mission.Proofs.Classify.Meaning
import Mission.Proofs.Workspace.Tracking

/-! Classifying a text gives a bound and tracked accessor, and a property is bound where its names
lead. The workspace changes at most by a new Parameter, whose name has a dot, so what names without
a dot lead to stays. -/
namespace Mission

open Registry Outcome Accessor Option DottedName

/-- The name in front of indices has no dot and nothing that a look-up would strip. -/
theorem ArrayIndex.name_of_parse {text : String} {index : ArrayIndex}
    (h : parse text = .ok (some index)) :
    Name.stripIndex index.name = index.name ∧ '.' ∉ index.name.toList := by
  have hIndices : ∀ {name source : String} {cs : List Char} {index : ArrayIndex},
      parseIndices name source cs = .ok index → index.name = name := by
    intro name source cs index h
    unfold parseIndices at h
    split at h
    · cases h
    · split at h
      · cases h
      · split at h
        · cases h
        · split at h <;> cases h <;> rfl
  unfold parse at h
  dsimp only at h
  split at h
  · cases h
  · split at h
    · cases h
    · split at h
      · cases h
      · next hChars =>
          split at h
          · next found hFound =>
              cases h
              rw [hIndices hFound]
              rw [Bool.not_eq_true', Bool.not_eq_false] at hChars
              generalize List.takeWhile _ _ = before at hChars
              have hTrim : String.ofList (Text.strip before) = Text.trim (String.ofList before) := by
                rw [Text.trim, String.toList_ofList]
              refine ⟨?_, ?_⟩
              · rw [hTrim]
                refine Name.stripIndex_trim ?_
                rwa [← hTrim, String.toList_ofList]
              · rw [String.toList_ofList]
                intro hDot
                cases List.all_eq_true.mp hChars '.' hDot
          · cases h

theorem Literal.trim_unparenthesise (text : String) :
    Text.trim (unparenthesise text) = unparenthesise text := by
  rw [unparenthesise, Text.trim, String.toList_ofList]
  refine congrArg String.ofList ?_
  generalize text.toList = cs
  fun_induction unparenthesiseChars cs with
  | case1 cs stripped _ ih => exact ih
  | case2 cs stripped _ =>
    have hTrim := Text.trim_trim (String.ofList cs)
    rw [Text.trim, Text.trim, String.toList_ofList, String.toList_ofList] at hTrim
    exact String.ofList_injective hTrim

namespace Phrase

/-- The literals of the phrase are literals, the names of its arrays are nothing but names, and no
name has blanks around it. -/
def Plain : Phrase → Prop
  | literal a => a.kind.isLiteral = true
  | element _ name row column =>
    (Name.stripIndex name = name ∧ '.' ∉ name.toList) ∧ row.Plain ∧ column.Plain
  | malformed _ => True
  | identifier d => Text.trim d = d

theorem isLiteral_of_literal? {description : String} {a : Accessor} (h : literal? description = some a) :
    a.kind.isLiteral = true := by
  unfold literal? at h
  split at h
  · cases h
    rfl
  · split at h
    · cases h
      rfl
    · obtain ⟨x, -, rfl⟩ := map_eq_some_iff.mp h
      rfl

theorem plain_ofBare {description : String} (hTrim : Text.trim description = description) :
    (ofBare description).Plain := by
  fun_induction ofBare description with
  | case1 description a h => exact isLiteral_of_literal? h
  | case2 description h e hParse => trivial
  | case3 description h index hParse ihRow ihColumn =>
    exact ⟨ArrayIndex.name_of_parse hParse, ihRow (Literal.trim_unparenthesise _),
      ihColumn (Literal.trim_unparenthesise _)⟩
  | case4 description h hParse => exact hTrim

theorem plain_parse (text : String) : (parse text).Plain :=
  plain_ofBare (Literal.trim_unparenthesise text)

end Phrase

namespace Workspace

/-- The second workspace has come of the first, and names without a dot lead where they did. What
the local store names in addition is new. -/
structure Adds (w w' : Workspace) : Prop where
  becomes : w.Becomes w'
  grows : Grows w.registry w'.registry
  find? : ∀ {name : String}, '.' ∉ name.toList → w'.find? name = w.find? name
  keys : w.scope.store.objects.keys.Nodup → w'.scope.store.objects.keys.Nodup
  values : ∀ {id}, id ∈ w'.scope.store.objects.values →
    id ∈ w.scope.store.objects.values ∨ ¬ w.registry.Has id

theorem Adds.refl {w : Workspace} (h : w.Sound) : w.Adds w :=
  ⟨.refl h, .refl w.registry, fun _ => rfl, id, .inl⟩

theorem Adds.trans {w w' w'' : Workspace} (h : w.Adds w') (h' : w'.Adds w'') : w.Adds w'' where
  becomes := h.becomes.trans h'.becomes
  grows := h.grows.trans h'.grows
  find? hName := (h'.find? hName).trans (h.find? hName)
  keys hKeys := h'.keys (h.keys hKeys)
  values hMem := (h'.values hMem).elim h.values fun hNew => .inr fun hHas => hNew (h.grows.has hHas)

theorem Adds.note {w w' : Workspace} (h : w.Adds w') (level : Level) (text : String) :
    w.Adds (w'.note level text) :=
  ⟨h.becomes.note level text, h.grows, h.find?, h.keys, h.values⟩

end Workspace

/-- A new Parameter is in the way of no property. -/
theorem PropertyRef.Fresh.adds {w w' : Workspace} {p : PropertyRef} {description : String}
    (hFresh : p.Fresh w.scope w.registry) (hTracked : p.Tracked description w) (hSound : w.Sound)
    (h : w.Adds w') : p.Fresh w'.scope w'.registry := by
  refine ⟨hFresh.1, ?_⟩
  have hFind : w'.scope.find? w'.registry p.owner = w.scope.find? w.registry p.owner :=
    h.find? hTracked.dot_not_mem
  rw [← hFresh.2, hFind]
  refine bind_congr fun owner hOwner => ?_
  exact h.grows.findProperty hSound.forest (hSound.find?_whole hOwner).has _ _

namespace Parameter

theorem adds_withParameter {w : Workspace} (hSound : w.Sound) {name : String} {o : Object}
    (hDot : '.' ∈ name.toList) (hName : o.name = name) (hFree : w.scope.store.contains name = false) :
    w.Adds (withParameter w name o) ∧
      (withParameter w name o).registry.Root (w.registry.push { object := o }).1 := by
  obtain ⟨hGrows, hLoose⟩ := grows_push (.refl w.registry) (e := { object := o }) (by simp)
  have hEvolves : Evolves w.system w.registry (withParameter w name o).registry :=
    hGrows.evolves w.system
  have hRoot : (withParameter w name o).registry.Root (w.registry.push { object := o }).1 :=
    hLoose.root hGrows hSound.forest
  have hOwn : ((withParameter w name o).registry.object (w.registry.push { object := o }).1).name =
      name := by
    rw [object, withParameter, entry_push_id]
    exact hName
  have hNamed : ∀ {other : String}, '.' ∉ other.toList →
      (withParameter w name o).scope.named? other = w.scope.named? other := by
    intro other hOther
    have hne : other ≠ name := fun hSame => hOther (hSame ▸ hDot)
    unfold Scope.named? withParameter
    rw [Table.get?_insert_of_ne hne]
  have hSound' : (withParameter w name o).Sound := by
    refine ⟨hSound.forest.later hEvolves, ?_, ?_⟩
    · exact hSound.scope.store.insert hEvolves hFree hLoose.new hRoot hOwn
    · intro outer hOuter
      obtain ⟨hStore, hNone⟩ := hSound.scope.outer hOuter
      exact ⟨hStore.later hEvolves, hNone⟩
  have hValues : ∀ {id}, id ∈ (withParameter w name o).scope.store.objects.values →
      id ∈ w.scope.store.objects.values ∨ ¬ w.registry.Has id := by
    intro id hMem
    rcases Table.mem_values_insert hMem with rfl | hOld
    · exact .inr hLoose.new
    · exact .inl hOld
  have hKeys : w.scope.store.objects.keys.Nodup → (withParameter w name o).scope.store.objects.keys.Nodup :=
    fun hKeys => Table.nodup_keys_insert hKeys name _
  refine ⟨⟨⟨hSound', hEvolves, rfl, hNamed, rfl⟩, hGrows, ?_, hKeys, hValues⟩, hRoot⟩
  intro other hOther
  rw [Workspace.find?, Workspace.find?, hSound'.scope.find?_eq, hSound.scope.find?_eq,
    hNamed (Name.dot_not_mem_stripIndex hOther)]
  change (if _ then w.scope.system else _ <|> w.scope.system.bind _) = _
  cases hSystem : w.scope.system with
  | none => rw [bind_none, bind_none]
  | some system =>
    have hHas := (hSound.scope.system_root hSystem).1.has
    have hBody : (withParameter w name o).registry.findOwned system (Name.stripIndex other) =
        w.registry.findOwned system (Name.stripIndex other) :=
      hGrows.findOwned hSound.forest hHas _
    rw [bind_some, bind_some, hBody]

/-- The Parameter of a name is the one in scope, and nothing changes, or there is none in scope, and
a new one is bound to what the name of its owner leads to. -/
structure Given (w w' : Workspace) (name owner : String) (id : ObjectId) : Prop where
  known : ∀ {known}, w.findOfType? name .parameter = some known → id = known ∧ w'.registry = w.registry
  new : w.findOfType? name .parameter = none →
    ∃ p : SystemParameter, (w'.registry.object id).content = .parameter p ∧ p.ownerName = owner ∧
      p.owner = w.find? owner

theorem describe_eq_ok {w : Workspace} {kind : ParameterKind} {name owner dependency : String}
    {p : SystemParameter} (h : describe w kind name owner dependency = .ok p) :
    p.ownerName = owner ∧ p.owner = w.find? owner := by
  dsimp only [describe] at h
  split at h
  · cases h
  · cases h
    exact ⟨rfl, rfl⟩

theorem Provides.adds {kinds : ParameterKinds} {w w' : Workspace} {name : String} {id : ObjectId}
    (h : Provides kinds name w w' id) (hSound : w.Sound) (hDot : '.' ∈ name.toList) :
    w.Adds w' ∧ Whole w'.system w'.registry id ∧ Given w w' name (parse name).owner id := by
  cases h with
  | known hKnown =>
    refine ⟨.refl hSound, hSound.find?_whole (Workspace.find?_of_findOfType? hKnown), ?_, ?_⟩
    · intro known hSome
      rw [hKnown] at hSome
      cases hSome
      exact ⟨rfl, rfl⟩
    · intro hNone
      rw [hKnown] at hNone
      cases hNone
  | @new kind p text hUnknown hKind hp hFree =>
    obtain ⟨hAdds, hRoot⟩ := adds_withParameter hSound hDot (o := fresh name p) rfl hFree
    refine ⟨hAdds.note _ _, hRoot.whole _, ?_, fun _ => ⟨p, ?_, describe_eq_ok hp⟩⟩
    · intro known hSome
      rw [hUnknown] at hSome
      cases hSome
    · change (object (w.registry.push { object := fresh name p }).2 _).content = _
      rw [object, entry_push_id]
      rfl

end Parameter

namespace Classify

variable {w w' : Workspace}
variable {a : Accessor} {id : ObjectId} {description name : String}

/-- What classifying a text comes to. A property is bound where its names lead, and nothing is
created for it. A dotted name that stands for an object stands for the Parameter of that name. -/
structure Gives (w w' : Workspace) (a : Accessor) : Prop where
  adds : w.Adds w'
  tracked : a.Tracked w'
  fresh : ∀ {d p}, (d, p) ∈ a.propertyRefs → p.Fresh w'.scope w'.registry
  property : ∀ {d p}, a = .property d p → p.Fresh w.scope w.registry ∧ w'.registry = w.registry
  parameter : ∀ {d k id}, a = .whole d k (some id) → '.' ∈ d.toList →
    Parameter.Given w w' d (DottedName.parse d).owner id

theorem gives_literal (hSound : w.Sound) (h : a.kind.isLiteral = true) : Gives w w a where
  adds := .refl hSound
  tracked := tracked_literal h
  fresh hp := by
    cases a with
    | property d p => cases h
    | element d name array row column => cases h
    | _ => cases hp
  property ha := by
    subst ha
    cases h
  parameter ha := by
    rename_i k _
    subst ha
    cases k <;> cases h

theorem gives_ofObject (hAdds : w.Adds w') (h : Whole w'.system w'.registry id)
    (hGiven : '.' ∈ description.toList → Parameter.Given w w' description (parse description).owner id) :
    Gives w w' (.ofObject w'.registry description id) where
  adds := hAdds
  tracked := tracked_ofObject h description
  fresh hp := by cases hp
  property ha := by cases ha
  parameter ha := by
    cases ha
    exact hGiven

theorem gives_property (hSound : w.Sound) {p : PropertyRef} {owner : ObjectId}
    (hNames : p.owner = (parse description).owner)
    (hField : p.property = (parse description).field) (hOwner : w.find? p.owner = some owner)
    (hSome : (p.bind w.registry owner).target.isSome = true) :
    Gives w w (.property description (p.bind w.registry owner)) where
  adds := .refl hSound
  tracked := tracked_property (PropertyRef.tracked_bind hSound hNames hField hOwner) hSome
  fresh hp := by
    cases List.mem_singleton.mp hp
    exact PropertyRef.fresh_bind hOwner hSome
  property ha := by
    cases ha
    exact ⟨PropertyRef.fresh_bind hOwner hSome, rfl⟩
  parameter ha := by cases ha

theorem Means.gives {kinds : ParameterKinds} {d : String} (h : Means kinds d w w' a) (hSound : w.Sound) :
    Gives w w' a := by
  cases h with
  | parameter hDot hGiven =>
    obtain ⟨hAdds, hWhole, hGiven⟩ := hGiven.adds hSound hDot
    exact gives_ofObject hAdds hWhole fun _ => hGiven
  | property _ hName hField hOwner hSome => exact gives_property hSound hName hField hOwner hSome
  | object hDot hFind => exact gives_ofObject (.refl hSound) (hSound.find?_whole hFind) fun h => absurd h hDot
  | literal hLiteral _ => exact gives_literal hSound hLiteral

theorem noteCreated_meets {E : Workspace → Prop} (h : Gives w w' a) :
    Meets (noteCreated a) w' E (Gives w) := by
  refine Step.meets_note_bind
    (.pure ⟨h.adds.note _ _, h.tracked.later ?_, h.fresh, h.property, fun ha hDot => ?_⟩)
  · exact ((Workspace.Becomes.refl h.adds.becomes.sound).note _ _).path
  · exact ⟨(h.parameter ha hDot).known, (h.parameter ha hDot).new⟩

theorem arrayOf_eq_ok (h : arrayOf w name = .ok id) :
    w.find? name = some id ∧ (w.registry.object id).isArray = true := by
  unfold arrayOf at h
  split at h
  · cases h
  · next found hFind =>
      split at h
      · next hArray =>
          cases h
          exact ⟨hFind, hArray⟩
      · cases h

/-- An element of an array whose name still leads to it after its indices have been classified. -/
theorem gives_element (hSound : w.Sound) (hName : Name.stripIndex name = name ∧ '.' ∉ name.toList)
    (hArray : arrayOf w name = .ok id) {w₁ w₂ : Workspace} {row column : Accessor} (hRow : Gives w w₁ row)
    (hColumn : Gives w₁ w₂ column) (description : String) :
    Gives w w₂ ((element description name none row column).bind w₂.registry id).1 := by
  obtain ⟨hFind, hIsArray⟩ := arrayOf_eq_ok hArray
  have hAdds := hRow.adds.trans hColumn.adds
  have hHas := (hSound.find?_whole hFind).has
  have hOwn : (w₂.registry.object id).name = name := by
    rw [hAdds.grows.object hHas, hSound.name_of_find? hFind, hName.1]
  have hLeads : w₂.find? (w₂.registry.object id).name = some id := by
    rw [hOwn, hAdds.find? hName.2, hFind]
  have hRowTracked := hRow.tracked.later hColumn.adds.becomes.path
  have hRowFresh : ∀ {d p}, (d, p) ∈ row.propertyRefs → p.Fresh w₂.scope w₂.registry := fun hp =>
    (hRow.fresh hp).adds (hRow.tracked.refs hp) hRow.adds.becomes.sound hColumn.adds
  -- A property of an index whose owner has the name of the array is looked up again, and found again.
  have hAgain : ∀ {p : PropertyRef}, p.Fresh w₂.scope w₂.registry →
      p.owner = (w₂.registry.object id).name → p.bind w₂.registry id = p :=
    fun hp hOwner => hp.bind_eq (hOwner ▸ hLeads)
  refine ⟨hAdds, ?_, ?_, (fun ha => by cases ha), (fun ha => by cases ha)⟩
  · refine tracked_bind_element hAdds.becomes.sound hLeads hRowTracked hColumn.tracked ?_
    refine isBound_bind_element (.inl ⟨hOwn.symm, ?_⟩) ?_ ?_
    · rw [hAdds.grows.object hHas]
      exact hIsArray
    · exact isBound_bind hRow.tracked.bound fun hp => hAgain (hRowFresh hp)
    · exact isBound_bind hColumn.tracked.bound fun hp => hAgain (hColumn.fresh hp)
  · intro d p hp
    have hOld : ∀ {q}, (d, q) ∈ (element description name none row column).propertyRefs →
        q.Fresh w₂.scope w₂.registry :=
      fun hq => (List.mem_append.mp hq).elim hRowFresh hColumn.fresh
    rcases mem_propertyRefs_bind hp with hp | ⟨q, hq, hOwner, rfl⟩
    · exact hOld hp
    · rw [hAgain (hOld hq) hOwner]
      exact hOld hq

/-- Resolving a phrase gives a tracked accessor. Where an index fails, Parameters of the indices in
front of it remain. -/
theorem resolve_meets (kinds : ParameterKinds) {phrase : Phrase} (hPlain : phrase.Plain)
    (options : ClassifyOptions) (hSound : w.Sound) :
    Meets (resolve kinds options phrase) w w.Adds (Gives w) := by
  induction phrase generalizing w options with
  | literal a => exact noteCreated_meets (gives_literal hSound hPlain)
  | malformed e => exact .throw _ (.refl hSound)
  | identifier description =>
    refine .bind ((identifier_means kinds options description w).mono ?_ fun _ _ h => h.gives hSound) ?_
    · rintro _ rfl
      exact .refl hSound
    · exact fun a w' h => noteCreated_meets h
  | element description name row column ihRow ihColumn =>
    refine .get (.lift_bind (.refl hSound) fun id hArray => ?_)
    refine .bind (ihRow hPlain.2.1 .index hSound) ?_
    intro row w₁ hRow
    refine .bind ((ihColumn hPlain.2.2 .index hRow.adds.becomes.sound).mono ?_ fun _ _ h => h) ?_
    · exact fun _ => hRow.adds.trans
    intro column w₂ hColumn
    exact .get (noteCreated_meets (gives_element hSound hPlain.1 hArray hRow hColumn description))

end Classify

theorem classify_gives {w : Workspace} (hSound : w.Sound) (kinds : ParameterKinds)
    (options : ClassifyOptions) (text : String) :
    Meets (classify kinds options text) w w.Adds (Classify.Gives w) :=
  Classify.resolve_meets kinds (Phrase.plain_parse text) options hSound

theorem adds_classify {w : Workspace} (hSound : w.Sound) (kinds : ParameterKinds)
    (options : ClassifyOptions) (text : String) : w.Adds (classify kinds options text w).2 := by
  have hGives := classify_gives hSound kinds options text
  rcases hRun : classify kinds options text w with ⟨x, w'⟩
  cases x with
  | ok a => exact ((Meets.of_ok hRun).mp hGives).adds
  | error e => exact (Meets.of_error hRun).mp hGives

theorem classify_meets {w : Workspace} (hSound : w.Sound) (kinds : ParameterKinds)
    (options : ClassifyOptions) (text : String) :
    Meets (classify kinds options text) w w.Becomes (Classify.Gives w) :=
  (classify_gives hSound kinds options text).mono (fun _ h => h.becomes) fun _ _ => id

end Mission
