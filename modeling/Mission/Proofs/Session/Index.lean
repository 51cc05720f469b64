import Mission.Proofs.Accessor.Footprint
import Mission.Proofs.Classify.Locality
import Mission.Proofs.Execution.Separation
import Mission.Proofs.Execution.Typing
import Mission.Proofs.Name.Mention
import Mission.Proofs.Parameter.Order

/-! The names of objects and the keys of the store. Every object of a session has the name that is
its key, and a look-up of this name finds the object unless the look-up changes the name or takes it
for that of the solar system. System Parameters are made under names that a look-up leaves alone,
but an object can also become one, when a Parameter is copied into it. This never happens to an
object under any other name: no text leads to it, so it stays hidden from every check and every run.
-/
namespace Mission

open Registry Outcome Text List Option Table Store

variable {text name : String} {id : ObjectId} {kinds : ParameterKinds}

/-! ### Proper names -/

theorem Text.trim_eq_self_iff : trim text = text ↔
    (∀ c ∈ text.toList.head?, isBlank c = false) ∧ ∀ c ∈ text.toList.getLast?, isBlank c = false := by
  constructor
  · intro h
    have hFront : stripStart (stripEnd text.toList) = text.toList := by rw [← toList_trim, h]
    have hBack : stripEnd (stripStart text.toList) = text.toList := by rw [← stripStart_stripEnd, hFront]
    refine ⟨fun c hc => ?_, hBack ▸ getLast?_stripEnd _⟩
    obtain ⟨rest, hRest⟩ := List.head?_eq_some_iff.mp hc
    exact isBlank_of_stripStart (hFront.trans hRest)
  · rintro ⟨hFront, hBack⟩
    have hEnd : stripEnd text.toList = text.toList := by simpa using stripEnd_append hBack []
    refine String.toList_inj.mp ?_
    rw [toList_trim, hEnd]
    cases hText : text.toList with
    | nil => rfl
    | cons c rest => exact stripStart_cons (hFront c (by rw [hText]; rfl)) rest

namespace Name

/-- A name with no blanks around it that does not stand for the solar system. -/
def Proper (name : String) : Prop :=
  Text.trim name = name ∧ name ≠ "SolarSystem"

section

variable {source target : List Char}

theorem replaceFrom_ne_nil (source : List Char) (hTarget : target ≠ []) {cs : List Char} (h : cs ≠ [])
    (quoted : Bool) (prev : Option Char) : replaceFrom source target cs 0 quoted prev ≠ [] := by
  cases cs with
  | nil => exact absurd rfl h
  | cons c rest =>
    rw [replaceFrom]
    generalize (if c = quote then !quoted else quoted) = now
    split <;> simp [hTarget]

/-- What holds of the last character of a text, and of that of the new name, holds after a renaming. -/
theorem getLast?_replaceFrom {p : Char → Prop} (hTarget : target ≠ []) (hLast : ∀ c ∈ target.getLast?, p c)
    {cs : List Char} (h : ∀ c ∈ cs.getLast?, p c) (skip : Nat) (quoted : Bool) (prev : Option Char) :
    ∀ c ∈ (replaceFrom source target cs skip quoted prev).getLast?, p c := by
  fun_induction replaceFrom source target cs skip quoted prev with
  | case1 => simp
  | case2 c rest skip quoted prev ih =>
    refine ih fun d hd => h d ?_
    cases rest with
    | nil => cases hd
    | cons e rest => rwa [List.getLast?_cons_cons]
  | case3 c rest quoted prev now hReference ih =>
    intro d hd
    have hRest : ∀ d ∈ rest.getLast?, p d := by
      intro d hd
      cases rest with
      | nil => cases hd
      | cons e rest => exact h d (by rwa [List.getLast?_cons_cons])
    rw [List.getLast?_append] at hd
    rcases or_eq_some_iff.mp hd with hd | ⟨-, hd⟩
    · exact ih hRest d hd
    · exact hLast d hd
  | case4 c rest quoted prev now hOther ih =>
    cases rest with
    | nil => simpa [replaceFrom] using h
    | cons e rest =>
      obtain ⟨d, out, hOut⟩ := exists_cons_of_ne_nil
        (replaceFrom_ne_nil source hTarget (cons_ne_nil e rest) now (some c))
      rw [hOut, List.getLast?_cons_cons, ← hOut]
      exact ih fun d hd => h d (by rwa [List.getLast?_cons_cons])

/-- Behind a name character nothing is replaced, so a text without other characters is copied. -/
theorem replaceFrom_of_isNameChar {cs : List Char} {quoted : Bool} {c : Char} (hc : isNameChar c = true)
    (h : ∀ d ∈ replaceFrom source target cs 0 quoted (some c), isNameChar d = true) :
    replaceFrom source target cs 0 quoted (some c) = cs := by
  induction cs generalizing quoted c with
  | nil => rfl
  | cons d rest ih =>
    have hNone : isReference source (some c) (d :: rest) = false := by simp [isReference, hc]
    rw [replaceFrom] at h ⊢
    simp only [hNone, Bool.and_false, Bool.false_eq_true, if_false] at h ⊢
    rw [ih (h d mem_cons_self) fun e he => h e (mem_cons_of_mem d he)]

/-- A text becomes the name of the solar system only if that is the new name. -/
theorem eq_of_replaceFrom {cs : List Char} (hSource : source ≠ []) (hNew : IsIdentifier target)
    (hOther : target ≠ "SolarSystem".toList)
    (h : replaceFrom source target cs 0 false none = "SolarSystem".toList) : cs = "SolarSystem".toList := by
  have hChars := all_eq_true.mp (show "SolarSystem".toList.all isNameChar = true from rfl)
  cases cs with
  | nil => cases h
  | cons c rest =>
    rw [replaceFrom] at h
    generalize (if c = quote then !false else false) = now at h
    split at h
    · next hReference =>
        exfalso
        simp only [isReference, Bool.and_eq_true, Bool.not_eq_true'] at hReference
        obtain ⟨-, ⟨⟨hFront, -⟩, hNext⟩, -⟩ := hReference
        obtain ⟨after, hAfter⟩ := isPrefixOf_iff_prefix.mp hFront
        obtain ⟨d, tail, rfl⟩ := exists_cons_of_ne_nil hSource
        obtain ⟨rfl, rfl⟩ := List.cons.inj ((cons_append ..).symm.trans hAfter)
        rw [show (d :: tail).length - 1 = tail.length from rfl, replaceFrom_skip] at h
        cases after with
        | nil => exact hOther (by simpa [replaceFrom] using h)
        | cons e more =>
          -- The next character is no name character, so a second name would have to follow at once.
          have he : isNameChar e = false := by simpa using hNext
          rw [replaceFrom] at h
          generalize (if e = quote then !now else now) = later at h
          split at h
          · have hTwice : ∀ k < 12, 0 < k →
                ("SolarSystem".toList.take k).isPrefixOf ("SolarSystem".toList.drop k) = false := by decide
            have hShort : target.length < 12 := by
              have hLength := congrArg List.length h
              rw [length_append, show "SolarSystem".toList.length = 11 from rfl] at hLength
              omega
            have hLength := hTwice target.length hShort (length_pos_iff.mpr hNew.ne_nil)
            rw [← h, take_left, drop_left] at hLength
            rw [List.isPrefixOf_iff_prefix.mpr (prefix_append target _)] at hLength
            cases hLength
          · rw [hChars e (by rw [← h]; simp)] at he
            cases he
    · have hc : isNameChar c = true := hChars c (by rw [← h]; exact mem_cons_self)
      rw [replaceFrom_of_isNameChar hc fun d hd =>
        hChars d (by rw [← h]; exact mem_cons_of_mem c hd)] at h
      exact h

end

theorem Proper.replace {name : String} (h : Proper name) (old : String) {new : String}
    (hNew : isValid new = true) (hOther : new ≠ "SolarSystem") : Proper (replace name old new) := by
  have hIdentifier := isIdentifier_of_isValid hNew
  have hWord : ∀ c ∈ new.toList, isBlank c = false := by
    intro c hc
    refine Bool.eq_false_iff.mpr fun hBlank => ?_
    have hChar := not_isNameChar_of_isBlank hBlank
    rw [hIdentifier.isNameChar c hc] at hChar
    cases hChar
  obtain ⟨hFront, hBack⟩ := trim_eq_self_iff.mp h.1
  unfold Name.replace replaceChars
  split
  · rw [String.ofList_toList]
    exact h
  · next hSource =>
      refine ⟨trim_eq_self_iff.mpr ⟨fun c hc => ?_, ?_⟩, fun hName => ?_⟩
      · rw [String.toList_ofList] at hc
        cases hText : name.toList with
        | nil =>
          rw [hText] at hc
          cases hc
        | cons d rest =>
          rw [hText, replaceFrom] at hc
          generalize (if d = quote then !false else false) = now at hc
          split at hc
          · rw [List.head?_append_of_ne_nil _ hIdentifier.ne_nil] at hc
            exact hWord c (mem_of_mem_head? hc)
          · exact hFront c (by rw [hText]; exact hc)
      · rw [String.toList_ofList]
        exact getLast?_replaceFrom hIdentifier.ne_nil (fun c hc => hWord c (mem_of_getLast? hc)) hBack _
          _ _
      · have hOther' : new.toList ≠ "SolarSystem".toList := fun hSame => hOther (String.toList_inj.mp hSame)
        have hSame := congrArg String.toList hName
        rw [String.toList_ofList] at hSame
        exact h.2 (String.toList_inj.mp (eq_of_replaceFrom (by simpa using hSource) hIdentifier hOther'
          hSame))

end Name

/-! ### Hidden objects -/

/-- The objects of the set are there, none of them has a proper name, and none is a system Parameter. -/
def Registry.Hides (hidden : ObjectId → Prop) (r : Registry) : Prop :=
  ∀ id, hidden id → r.Has id ∧ ¬ Name.Proper (r.object id).name ∧ (r.object id).parameter? = none

/-- The store has no proper name for an object of the set. -/
structure Store.Hides (hidden : ObjectId → Prop) (s : Store) : Prop where
  keys : ∀ {key id}, (key, id) ∈ s.objects.entries → hidden id → ¬ Name.Proper key
  system : ∀ {id}, s.solarSystem = some id → ¬ hidden id

structure Scope.Hides (hidden : ObjectId → Prop) (s : Scope) : Prop where
  store : s.store.Hides hidden
  outer : ∀ {outer}, s.outer = some outer → outer.Hides hidden

structure Workspace.Hides (hidden : ObjectId → Prop) (w : Workspace) : Prop where
  registry : w.registry.Hides hidden
  scope : w.scope.Hides hidden

/-- The accessor does not stand for an object of the set as a whole. -/
def Accessor.Avoids (hidden : ObjectId → Prop) (a : Accessor) : Prop :=
  ∀ d k id, a = .whole d k (some id) → ¬ hidden id

variable {hidden : ObjectId → Prop}

/-- No text leads to a hidden object. -/
theorem Store.Hides.not_hidden {s : Store} {r : Registry} (h : s.Hides hidden) (hr : r.Hides hidden)
    (hFind : s.find? r name = some id) : ¬ hidden id := by
  unfold find? at hFind
  dsimp only at hFind
  split at hFind
  · exact h.system hFind
  · next hOther =>
      have hProper : Name.Proper (Name.stripIndex name) := ⟨Name.trim_stripIndex name, hOther⟩
      rcases (orElse_eq_some _ _ _).mp hFind with hKey | ⟨-, hBody⟩
      · exact fun hId => h.keys (mem_of_get? hKey) hId hProper
      · obtain ⟨system, -, hOwned⟩ := bind_eq_some_iff.mp hBody
        have hName : (r.object id).name = Name.stripIndex name := by simpa using List.find?_some hOwned
        exact fun hId => (hr id hId).2.1 (hName ▸ hProper)

theorem Workspace.Hides.not_hidden {w : Workspace} (h : w.Hides hidden) (hFind : w.find? name = some id) :
    ¬ hidden id := by
  rcases (orElse_eq_some _ _ _).mp hFind with hHere | ⟨-, hThere⟩
  · exact h.scope.store.not_hidden h.registry hHere
  · obtain ⟨outer, hOuter, hThere⟩ := bind_eq_some_iff.mp hThere
    exact (h.scope.outer hOuter).not_hidden h.registry hThere

namespace Registry.Hides

variable {r r' : Registry}

variable (h : r.Hides hidden)
include h

theorem of_grows (hGrows : Grows r r') : r'.Hides hidden := by
  intro id hId
  obtain ⟨hHas, hRest⟩ := h id hId
  exact ⟨hGrows.has hHas, by rwa [hGrows.object hHas]⟩

theorem modify {target : ObjectId} {f : Entry → Entry}
    (hf : hidden target → (f (r.entry target)).object.name = (r.object target).name ∧
      (f (r.entry target)).object.parameter? = (r.object target).parameter?) :
    (r.modify target f).Hides hidden := by
  intro id hId
  obtain ⟨hHas, hRest⟩ := h id hId
  refine ⟨hHas, ?_⟩
  by_cases hSame : id = target
  · subst hSame
    rw [object, entry_modify_self hHas, (hf hId).1, (hf hId).2]
    exact hRest
  · rw [object, entry_modify_ne hSame]
    exact hRest

/-- An object is written in its place. -/
theorem setObject {target : ObjectId} {o : Object} (hTakes : (r.object target).Takes o) :
    (r.setObject target o).Hides hidden :=
  h.modify fun _ => ⟨hTakes.sameShape.name, hTakes.sameKind.parameter⟩

theorem replaceOwned (id : ObjectId) (t : ObjectType) (part : Assembly) :
    (r.replaceOwned id t part).Hides hidden :=
  (h.of_grows (install_grows r part).1).modify fun _ => ⟨rfl, rfl⟩

theorem setValue {a : Accessor} {v : Value} (hSet : a.setValue r v = .ok r') :
    r'.Hides hidden := by
  obtain ⟨id, o, hTakes, rfl, -⟩ := Accessor.takes_of_setValue hSet
  exact h.setObject hTakes

/-- An object is overwritten as a whole only where it is not hidden. -/
theorem writeObject {a : Accessor} (ha : a.Avoids hidden) {source : ObjectId}
    (hSet : a.setObject r source = .ok r') : r'.Hides hidden := by
  obtain ⟨d, id, rfl, rfl | ⟨-, rfl⟩⟩ := Accessor.setObject_eq_ok hSet
  · exact h
  · have hParts := h.of_grows (installAll_grows r (r.assembly source).parts).1
    exact hParts.modify fun hId => absurd hId (ha d .object id rfl)

theorem output {a : Assignment} {source : Accessor} (hOutput : a.output r = .ok (source, r')) :
    r'.Hides hidden := by
  rcases Assignment.output_eq_ok hOutput with rfl | ⟨id, rfl⟩ | ⟨name, rows, cols, v, hAssign⟩
  · exact h
  · exact h.of_grows (install_grows r _).1
  · obtain ⟨id, o, hTakes, rfl, -⟩ := Accessor.takes_of_assign hAssign
    exact (h.of_grows (install_grows r _).1).setObject hTakes

end Registry.Hides

/-! ### Checking -/

section

variable {kinds : ParameterKinds} {written : String → Prop} {w w' : Workspace}

theorem Changes.hides (h : Changes kinds written w w') (hw : w.Hides hidden) : w'.Hides hidden := by
  induction h with
  | refl => exact hw
  | note _ _ _ ih => exact ⟨ih.registry, ih.scope⟩
  | @parameter w' _ name kind p _ _ _ _ _ _ ih =>
    refine ⟨ih.registry.of_grows (Parameter.grows_withParameter w' name _), ⟨?_, ih.scope.store.system⟩,
      ih.scope.outer⟩
    intro key id hMem hId
    rcases mem_insert hMem with hNew | hOld
    · cases hNew
      exact absurd (ih.registry _ hId).1 (not_has_push_id _ _)
    · exact ih.scope.store.keys hOld hId
  | axes _ _ _ _ _ set ih =>
    have hSet := ih.registry.setObject (Object.takes_set set)
    exact ⟨hSet.replaceOwned _ _ _, ih.scope⟩

/-- What a check adds to the store are Parameters with proper names. -/
theorem Changes.entries (h : Changes kinds written w w') :
    (∀ {key id}, (key, id) ∈ w'.scope.store.objects.entries →
      (key, id) ∈ w.scope.store.objects.entries ∨ Name.Proper key) ∧
    w'.scope.store.solarSystem = w.scope.store.solarSystem := by
  induction h with
  | refl => exact ⟨.inl, rfl⟩
  | note _ _ _ ih | axes _ _ _ _ _ _ ih => exact ih
  | @parameter w' _ name kind p dotted trimmed _ _ _ _ ih =>
    refine ⟨fun {key id} hMem => ?_, ih.2⟩
    rcases mem_insert hMem with hNew | hOld
    · cases hNew
      refine .inr ⟨trimmed, ?_⟩
      rintro rfl
      exact absurd dotted (by decide)
    · exact ih.1 hOld

theorem Classified.avoids {text : String} {a : Accessor} (h : Classified kinds written w w' text a)
    (hw : w.Hides hidden) : a.Avoids hidden := by
  obtain ⟨options, w₁, w₂, hBefore, hRun, -⟩ := h
  have hHides := hBefore.hides hw
  intro d k id ha
  rcases (classify_lookedUp hRun).whole ha with ⟨name, hFind⟩ | hNew
  · exact hHides.not_hidden hFind
  · exact fun hId => hNew (hHides.registry _ hId).1

end

theorem Checker.GivesAxes.hides {w w' : Workspace} (h : GivesAxes w w') (hw : w.registry.Hides hidden) :
    w'.registry.Hides hidden := by
  induction h with
  | refl => exact hw
  | note _ _ _ ih => exact ih
  | part _ _ _ _ ih => exact ih.replaceOwned _ _ _
  | both _ _ _ set ih => exact (ih.replaceOwned _ _ _).setObject (Object.takes_set set)

theorem Checker.hides_finalPass (ck : Checker) {s : CheckState} (h : s.workspace.registry.Hides hidden) :
    (ck.finalPass s).2.workspace.registry.Hides hidden := by
  refine (ck.givesAxes_finalPass s).hides
    (Parameter.bindAll_keeps (J := fun w => w.registry.Hides hidden) ?_ h)
  intro w id p _ _ hw hContent
  refine hw.modify fun hId => ?_
  have hNone := (hw id hId).2.2
  rw [Object.parameter?, hContent] at hNone
  cases hNone

/-- No accessor of the commands stands for an object of the set as a whole. -/
def Checker.AllAvoid (hidden : ObjectId → Prop) (cs : List Command) : Prop :=
  ∀ c a, Command.Occurs c cs → a ∈ c.accessors → a.Avoids hidden

theorem Checker.AllSettled.allAvoid {written : String → Prop} {w w' : Workspace} {cs : List Command}
    (h : AllSettled kinds written w w' cs) (hw : w.Hides hidden) : AllAvoid hidden cs := by
  intro c a hc ha
  obtain ⟨name, hClassified⟩ := (h.settled hc).held ha
  exact hClassified.avoids hw

/-! ### Running -/

namespace Execution

open Checker

variable {ck : Checker} {scope : Scope} {c : Call} {f : UserFunction}
  {locate : CommandError → ValidationError}
  {s : RunState}

/-- Checked commands that keep to what look-ups find. -/
structure Spares (hidden : ObjectId → Prop) (_ck : Checker) (scope : Scope) (r : Registry)
    (cs : List Command) :
    Prop where
  registry : r.Hides hidden
  scope : scope.Hides hidden
  avoid : AllAvoid hidden cs

theorem Spares.prepare {cs : List Command} {s' : RunState} (h : Spares hidden ck scope s.registry cs)
    {x : Except ValidationError Frame} (hPrepare : prepare ck scope c f locate s = (x, s')) :
    s'.registry.Hides hidden ∧
      ∀ {frame}, x = .ok frame → Spares hidden (ck.enter c.function) frame.scope s'.registry frame.body := by
  rcases prepare_cases hPrepare with ⟨rfl, e, rfl⟩ |
    ⟨store, now, y, body, checked, hLocal, hCheck, rfl, hFrame⟩
  · exact ⟨h.registry, nofun⟩
  · -- The objects of the local store are new.
    obtain ⟨hGrows, hNew, hSystem⟩ : Grows s.registry now ∧
        (∀ {key id}, (key, id) ∈ store.objects.entries → ¬ s.registry.Has id) ∧ store.solarSystem = none := by
      refine Call.localStore_keeps (J := fun store now => Grows s.registry now ∧
        (∀ {key id}, (key, id) ∈ store.objects.entries → ¬ s.registry.Has id) ∧ store.solarSystem = none)
        ?_ (List.Subset.refl _) ⟨.refl _, nofun, rfl⟩ hLocal
      rintro s₁ r₁ a id s₂ r₂ ⟨hGrows, hNew, hSystem⟩ - hAdd
      obtain ⟨-, rfl, rfl, rfl⟩ := add_eq_ok hAdd
      obtain ⟨hGrows', hLoose⟩ := install_grows r₁ a
      refine ⟨hGrows.trans hGrows', fun hMem => ?_, hSystem⟩
      rcases mem_insert hMem with hLast | hOld
      · cases hLast
        exact fun hHas => hLoose.new (hGrows.has hHas)
      · exact hNew hOld
    have hw : Workspace.Hides hidden { registry := now, scope := scope.enter store, log := s.log } := by
      refine ⟨h.registry.of_grows hGrows, ⟨fun hMem hId => absurd (h.registry _ hId).1 (hNew hMem), ?_⟩, ?_⟩
      · intro id hSome
        rw [show (scope.enter store).store.solarSystem = none from hSystem] at hSome
        cases hSome
      · intro outer hOuter
        cases hOuter
        cases hSome : scope.outer with
        | none => exact h.scope.store
        | some outer => exact h.scope.outer hSome
    obtain ⟨hChanges, hSettled⟩ := (ck.enter c.function).validateAll_settles hCheck
    have hChecked := hChanges.hides hw
    refine ⟨hChecked.registry, fun hx => ?_⟩
    obtain ⟨rfl, valid, rfl⟩ := hFrame hx
    exact ⟨hChecked.registry, hChecked.scope, (hSettled valid rfl).allAvoid hw⟩

/-- What a run does to hidden objects. -/
theorem steady_hides (hidden : ObjectId → Prop) :
    Steady (fun _ r => r.Hides hidden) (fun a _ => a.Avoids hidden) (Spares hidden) where
  trans _ h := h
  last h := h
  later h _ := h
  object h ha := h.writeObject ha
  value h _ := h.setValue
  output h := h.output
  refl h := h.registry
  next h hr := ⟨hr, h.scope, h.avoid⟩
  part h hIn := ⟨h.registry, h.scope, fun c a hc => h.avoid c a (hIn hc)⟩
  assigned h hTarget := h.avoid _ _ .here (Assignment.mem_accessors.mpr (.inl hTarget))
  called h ha := by
    obtain ⟨slot, hSlot, hAccessor⟩ := Slot.mem_accessors.mp ha
    exact h.avoid _ _ .here (Slot.mem_accessors.mpr ⟨slot, mem_append_right _ hSlot, hAccessor⟩)
  prepared h _ := h.prepare

end Execution

/-! ### Renaming -/

namespace Store

/-- A rename puts each object under its key with the name replaced, and makes no Parameter. -/
theorem rename_entries {s s' : Store} {r r' : Registry} {old new : String}
    (h : s.rename r old new = .ok (s', r')) :
    s.find? r new = none ∧
    (∀ {key id}, (key, id) ∈ s'.objects.entries →
      ∃ earlier, (earlier, id) ∈ s.objects.entries ∧ key = Name.replace earlier old new) ∧
    ∀ id, (r'.object id).parameter?.isSome = (r.object id).parameter?.isSome := by
  obtain ⟨-, hFree, hStore, -⟩ := eq_of_rename h
  refine ⟨hFree, fun hMem => ?_, ?_⟩
  · rw [hStore] at hMem
    obtain ⟨⟨earlier, id⟩, hEntry, hPair⟩ := mem_map.mp (mem_ofPairs hMem)
    obtain ⟨rfl, rfl⟩ := Prod.mk.inj hPair
    exact ⟨earlier, hEntry, rfl⟩
  · let J (now : Registry) := ∀ id, (now.object id).parameter?.isSome = (r.object id).parameter?.isSome
    have hWrite : ∀ {f : Object → Object} {now other}, (∀ o, (f o).parameter?.isSome = o.parameter?.isSome) →
      J now →
        J (now.modifyObject other f) :=
      fun hf hNow id => (apply_modifyObject (·.parameter?.isSome) hf _ _ id).trans (hNow id)
    refine rename_keeps (J := J) (fun name => hWrite fun _ => rfl) (hWrite fun o => ?_) (fun _ => rfl) h
    simp only [Object.parameter?, Object.renameReferences]
    cases o.content <;> rfl

end Store

/-! ### Sessions -/

namespace Session

/-- Stored under a name that a look-up changes or takes for that of the solar system. -/
def Hidden (s : Session) (id : ObjectId) : Prop :=
  ∃ key, (key, id) ∈ s.store.objects.entries ∧ ¬ Name.Proper key

/-- System Parameters have proper names, and the commands of a checked script keep to what look-ups
find. -/
structure Indexed (s : Session) : Prop where
  system : s.store.solarSystem.isSome = true
  parameters : ∀ {key id}, (key, id) ∈ s.store.objects.entries →
    (s.registry.object id).parameter?.isSome = true → Name.Proper key
  avoids : s.validated = true → Checker.AllAvoid s.Hidden s.commands

namespace Indexed

variable {s s' : Session}

variable (h : s.Indexed)
include h

theorem hides (hs : s.Sound) : s.workspace.Hides s.Hidden := by
  have hStore := hs.workspace.scope.store
  refine ⟨fun id hId => ?_, ⟨fun hMem hId => ?_, fun hSystem hId => ?_⟩, nofun⟩
  · obtain ⟨key, hMem, hKey⟩ := hId
    refine ⟨(hStore.root hMem).has, ?_, ?_⟩
    · rw [hStore.name hMem]
      exact hKey
    · exact not_isSome_iff_eq_none.mp fun hSome => hKey (h.parameters hMem hSome)
  · obtain ⟨key, hThere, hKey⟩ := hId
    have hName := (hStore.name hThere).symm.trans (hStore.name hMem)
    exact hName ▸ hKey
  · obtain ⟨key, hMem, -⟩ := hId
    exact hStore.apart hSystem (mem_map.mpr ⟨(key, _), hMem, rfl⟩)

/-- What was hidden has stayed so, and only objects with proper names have come to the store. -/
theorem later (hSystem : s'.store.solarSystem = s.store.solarSystem)
    (hRegistry : s'.registry.Hides s.Hidden)
    (hEntries : ∀ {key id}, (key, id) ∈ s'.store.objects.entries →
      (key, id) ∈ s.store.objects.entries ∨ Name.Proper key)
    (hAvoids : s'.validated = true → Checker.AllAvoid s.Hidden s'.commands) : s'.Indexed := by
  refine ⟨hSystem ▸ h.system, fun hMem hSome => ?_, fun hTrue c a hc ha d k id hWhole hId => ?_⟩
  · rcases hEntries hMem with hOld | hProper
    · by_contra hKey
      rw [(hRegistry _ ⟨_, hOld, hKey⟩).2.2] at hSome
      cases hSome
    · exact hProper
  · obtain ⟨key, hMem, hKey⟩ := hId
    exact hAvoids hTrue c a hc ha d k id hWhole ⟨key, (hEntries hMem).resolve_right hKey, hKey⟩

variable (hs : s.Sound)
include hs

theorem add {a : Assembly}
    (ha : a.object.parameter?.isSome = true → Name.Proper a.object.name) : (s.add a).2.Indexed := by
  dsimp only [Session.add]
  split
  · next id store r hAdd =>
      obtain ⟨-, rfl, rfl, rfl⟩ := add_eq_ok hAdd
      refine ⟨h.system, fun hMem hSome => ?_, nofun⟩
      rcases mem_insert hMem with hNew | hOld
      · cases hNew
        exact ha (by rwa [← object_install s.registry a])
      · have hHas := (hs.workspace.scope.store.root hOld).has
        refine h.parameters hOld ?_
        rwa [← (install_grows s.registry a).1.object hHas]
  · exact ⟨h.system, h.parameters, nofun⟩

theorem create (typeName name : String) : (s.create typeName name).2.Indexed := by
  unfold Session.create
  split
  · next a ha =>
      refine h.add hs fun hSome => ?_
      rw [Catalog.parameter?_create ha] at hSome
      cases hSome
  · exact h

theorem remove (name : String) : (s.remove name).2.Indexed :=
  h.later rfl (h.hides hs).registry (fun hMem => .inl (mem_filter.mp hMem).1) nofun

theorem addFunction (f : FunctionDeclaration) : (s.addFunction f).Indexed :=
  h.later rfl ((h.hides hs).registry.of_grows (holdAll_grows s.registry f.locals)) .inl nofun

theorem push (c : Command) : (s.push c).Indexed :=
  h.later rfl (h.hides hs).registry .inl nofun

/-- The name of the solar system is taken, so a rename gives names that look-ups leave alone. -/
theorem rename (old : String) {new : String} (hNew : Name.isValid new = true) :
    (s.rename old new).2.Indexed := by
  unfold Session.rename
  split
  · exact h
  · next store r hRename =>
      obtain ⟨hFree, hEntries, hParameters⟩ := rename_entries hRename
      have hOther : new ≠ "SolarSystem" := by
        rintro rfl
        have hSystem : s.store.find? s.registry "SolarSystem" = s.store.solarSystem := rfl
        have hSome := h.system
        rw [← hSystem, hFree] at hSome
        cases hSome
      refine ⟨?_, fun hMem hSome => ?_, fun hTrue c a hc ha d k id hWhole hId => ?_⟩
      · rw [(rename_spec hs.workspace.scope.store hRename).2.2]
        exact h.system
      · obtain ⟨key, hOld, rfl⟩ := hEntries hMem
        exact (h.parameters hOld ((hParameters _).symm.trans hSome)).replace old hNew hOther
      · obtain ⟨key, hMem, hKey⟩ := hId
        obtain ⟨earlier, hOld, rfl⟩ := hEntries hMem
        rw [Command.renameAll_eq_map] at hc
        obtain ⟨e, he, rfl⟩ := Command.exists_of_occurs_rename hc
        obtain ⟨b, hb, rfl⟩ := Command.mem_accessors_rename ha
        cases b with
        | whole d' k' bound =>
          cases hWhole
          exact h.avoids hTrue e _ he hb d' _ id rfl
            ⟨earlier, hOld, fun hProper => hKey (hProper.replace old hNew hOther)⟩
        | _ => cases hWhole

theorem classify (options : ClassifyOptions) (text : String) :
    (s.classify options text).2.Indexed := by
  have hChanges : Changes s.checker.kinds (fun _ => True) s.workspace
      (Mission.classify s.checker.kinds options text s.workspace).2 := classify_changing options text _
  obtain ⟨hEntries, hSystem⟩ := hChanges.entries
  rw [classify_state]
  exact h.later hSystem (hChanges.hides (h.hides hs)).registry hEntries h.avoids

theorem evaluate (text : String) : (s.evaluate text).2.Indexed := by
  rw [evaluate_state]
  exact h.classify hs {} text

theorem validate : s.validate.2.Indexed := by
  obtain ⟨x, commands, c, w, errors, validated, hAll, hLast, hValid, hState⟩ := s.validate_state
  obtain ⟨hChanges, hSettled⟩ := s.checker.validateAll_settles hAll
  obtain ⟨hEntries, hSystem⟩ := hChanges.entries
  have hRegistry := (hChanges.hides (h.hides hs)).registry
  obtain ⟨hFinal, hScope⟩ : w.registry.Hides s.Hidden ∧ w.scope = c.workspace.scope := by
    rcases hLast with rfl | rfl
    · exact ⟨hRegistry, rfl⟩
    · exact ⟨s.checker.hides_finalPass hRegistry, s.checker.scope_finalPass c⟩
  rw [← hScope] at hEntries hSystem
  rw [hState]
  refine h.later hSystem hFinal hEntries fun hTrue => ?_
  obtain ⟨valid, rfl⟩ := hValid hTrue
  exact (hSettled valid rfl).allAvoid (h.hides hs)

theorem execute (hValidated : s.validated = true) : s.execute.2.Indexed := by
  have hStart : Execution.Spares s.Hidden s.checker { store := s.store } s.registry s.commands :=
    ⟨(h.hides hs).registry, (h.hides hs).scope, h.avoids hValidated⟩
  have hRun := ((Execution.steady_hides s.Hidden).executeAll (s := { registry := s.registry, log := s.log })
    s.checker.functions.size [] hStart).registry
  obtain ⟨log, hState⟩ := s.execute_state
  rw [hState]
  exact h.later rfl hRun .inl h.avoids

theorem run : s.run.2.Indexed := by
  rcases s.run_state with ⟨hValidated, hState⟩ | hState | ⟨hValidated, hState⟩ <;> rw [hState]
  · exact h.execute hs hValidated
  · exact h.validate hs
  · exact (h.validate hs).execute hs.validate hValidated

end Indexed

/-- A key leads back to its object exactly if a look-up leaves it alone and does not take it for the
solar system. -/
theorem Reachable.find?_eq_some_iff {s : Session} (h : s.Reachable) {key : String} {id : ObjectId}
    (hMem : (key, id) ∈ s.store.objects.entries) :
    s.find? key = some id ↔ Name.stripIndex key = key ∧ key ≠ "SolarSystem" := by
  have hStore : s.store.Sound s.registry := h.sound.workspace.scope.store
  unfold Session.find? Store.find?
  dsimp only
  constructor
  · intro hFind
    split at hFind
    · exact absurd (mem_map.mpr ⟨_, hMem, rfl⟩) (hStore.apart hFind)
    · next hOther =>
        rcases (orElse_eq_some _ _ _).mp hFind with hKey | ⟨-, hBody⟩
        · have hSame := (hStore.name (mem_of_get? hKey)).symm.trans (hStore.name hMem)
          exact ⟨hSame, hSame ▸ hOther⟩
        · obtain ⟨system, -, hOwned⟩ := bind_eq_some_iff.mp hBody
          exact absurd (mem_of_find?_eq_some hOwned) ((hStore.root hMem).free system)
  · rintro ⟨hStrip, hOther⟩
    rw [hStrip, if_neg hOther, get?_of_mem h.keys hMem]
    rfl

end Session

end Mission
