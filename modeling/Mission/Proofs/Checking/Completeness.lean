import Mission.Proofs.Checking.Modes

/-! What a check leaves open. A command that has passed its check has an accessor at every place
that has a name. The places without a name are the arguments of a call that are left empty, and the
right-hand side of an assignment that has none. -/
namespace Mission

open Outcome Command Edit List

namespace Command

/-- The places of a command that get an accessor by their name. Those of an assignment are left out. -/
def places : Command → List (String × Option Accessor)
  | assignment _ _ => []
  | branch _ chain _ _ _ => chain.conditions.flatMap fun c => [(c.lhs, c.left), (c.rhs, c.right)]
  | report c _ | propagate c _ | call c _ => c.slots.map fun s => (s.name, s.accessor)

/-- Whether places of that name are passed over. -/
def skips : Command → String → Bool
  | call _ _, name => name.isEmpty
  | _, _ => false

/-- The accessor of a place after a name has been bound. -/
def bindPlace (name : String) (a : Accessor) (place : String × Option Accessor) :
    String × Option Accessor :=
  (place.1, if place.1 = name then some a else place.2)

theorem places_bindSlots (name : String) (a : Accessor) (slots : List Slot) :
    (slots.map (Slot.bind name a)).map (fun s => (s.name, s.accessor)) =
      (slots.map fun s => (s.name, s.accessor)).map (bindPlace name a) := by
  rw [map_map, map_map]
  refine map_congr_left fun s _ => ?_
  simp only [Function.comp, bindPlace, Slot.bind]
  split <;> rfl

theorem places_bind (c : Command) (name : String) (a : Accessor) :
    (c.bind name a).1.places = c.places.map (bindPlace name a) := by
  cases c with
  | assignment c line => rfl
  | branch kind chain body otherwise line =>
    simp only [bind, Chain.bind, places, flatMap_map, map_flatMap]
    rfl
  | report c line => exact places_bindSlots name a c.slots
  | propagate c line =>
    simp only [bind, places, slots_mapStop]
    exact places_bindSlots name a c.slots
  | call c line =>
    simp only [bind, places, slots_mapSlots]
    exact places_bindSlots name a c.slots

theorem places_clear (c : Command) : c.clear.places = c.places.map fun place => (place.1, none) := by
  cases c with
  | assignment c line => rfl
  | branch kind chain body otherwise line =>
    simp only [clear, Chain.clear, places, flatMap_map, map_flatMap]
    rfl
  | report c line => simp [clear, places, Slot.clear, Function.comp_def]
  | propagate c line => simp [clear, places, slots_mapStop, Slot.clear, Function.comp_def]
  | call c line => simp [clear, places, slots_mapSlots, Slot.clear, Function.comp_def]

/-- The names that a check goes through are those of the places, except those it passes over. -/
theorem mem_names {c : Command} (hOther : ∀ a line, c ≠ .assignment a line) {name : String} :
    name ∈ c.names ↔ (∃ x, (name, x) ∈ c.places) ∧ c.skips name = false := by
  cases c with
  | assignment a line => exact absurd rfl (hOther a line)
  | branch kind chain body otherwise line =>
    simp only [names, Chain.names, places, skips, Accessor.mem_union, mem_flatMap]
    constructor
    · rintro (hNone | ⟨c, hc, hName⟩)
      · cases hNone
      · rcases mem_cons.mp hName with rfl | hName
        · exact ⟨⟨c.left, c, hc, mem_cons_self⟩, trivial⟩
        · cases mem_singleton.mp hName
          exact ⟨⟨c.right, c, hc, mem_cons_of_mem _ mem_cons_self⟩, trivial⟩
    · rintro ⟨⟨x, c, hc, hPlace⟩, -⟩
      refine .inr ⟨c, hc, ?_⟩
      rcases mem_cons.mp hPlace with hLeft | hRight
      · cases hLeft
        exact mem_cons_self
      · cases mem_singleton.mp hRight
        exact mem_cons_of_mem _ mem_cons_self
  | report c line => simp [names, places, skips, Slot.names]
  | propagate c line | call c line => simp [names, places, skips, Slot.names, Accessor.mem_union]

/-- Every place of the command has an accessor, except the places that are passed over, which have
none. -/
def Filled : Command → Prop
  | assignment a _ => a.Filled
  | c => ∀ name x, (name, x) ∈ c.places → (x.isSome = true ↔ c.skips name = false)

end Command

namespace Checker

variable (ck : Checker)
variable {c c₀ : Command} {done : String → Prop}

/-- A call is one of a function that takes that many arguments. -/
def Takes (ck : Checker) : Command → Prop
  | .call c _ => ck.checkCall c = .ok ()
  | _ => True

theorem checkCall_mapSlots (c : Call) (f : Slot → Slot) : ck.checkCall (c.mapSlots f) = ck.checkCall c := by
  simp only [checkCall, Call.mapSlots, length_map]

theorem takes_bind (h : ck.Takes c) (name : String) (a : Accessor) : ck.Takes (c.bind name a).1 := by
  cases c with
  | call c line => exact (ck.checkCall_mapSlots c _).trans h
  | _ => trivial

/-- What holds of a command while its names are bound: a place has an accessor if and only if its name is
done. -/
structure Fills (c₀ : Command) (done : String → Prop) (c : Command) : Prop where
  other : ∀ a line, c ≠ .assignment a line
  names : c.places.map Prod.fst = c₀.places.map Prod.fst
  skips : c.skips = c₀.skips
  takes : ck.Takes c
  given : ∀ {name x}, (name, x) ∈ c.places → (x.isSome = true ↔ done name)

variable {ck}

theorem Fills.clear (hOther : ∀ a line, c ≠ .assignment a line) (hTakes : ck.Takes c.clear) :
    ck.Fills c.clear (fun _ => False) c.clear := by
  refine ⟨?_, rfl, rfl, hTakes, fun {name x} hPlace => ?_⟩
  · intro a line
    cases c with
    | assignment a' line' => exact absurd rfl (hOther a' line')
    | _ => exact fun h => nomatch h
  · rw [places_clear] at hPlace
    obtain ⟨place, -, hSame⟩ := mem_map.mp hPlace
    cases hSame
    simp

theorem Fills.bind (h : ck.Fills c₀ done c) (name : String) (a : Accessor) :
    ck.Fills c₀ (fun other => other = name ∨ done other) (c.bind name a).1 := by
  refine ⟨?_, ?_, ?_, ck.takes_bind h.takes name a, fun {other x} hPlace => ?_⟩
  · intro a' line'
    cases c with
    | assignment a line => exact absurd rfl (h.other a line)
    | _ => exact fun h => nomatch h
  · rw [places_bind, map_map]
    exact h.names
  · rw [← h.skips]
    cases c <;> rfl
  · rw [places_bind] at hPlace
    obtain ⟨⟨other', y⟩, hOld, hSame⟩ := mem_map.mp hPlace
    cases hSame
    by_cases hName : other' = name
    · simp [hName]
    · simp [hName, h.given hOld]

/-- A command is filled when all its names are done. -/
theorem Fills.filled (hOther : ∀ a line, c₀ ≠ .assignment a line) (h : ck.Fills c₀ (· ∈ c₀.names) c) :
    c.Filled := by
  have hPlaces : ∀ name x, (name, x) ∈ c.places → (x.isSome = true ↔ c.skips name = false) := by
    intro name x hPlace
    rw [h.given hPlace, mem_names hOther, h.skips, and_iff_right_iff_imp]
    intro _
    have hName : name ∈ c₀.places.map Prod.fst := by
      rw [← h.names]
      exact mem_map.mpr ⟨_, hPlace, rfl⟩
    obtain ⟨⟨_, y⟩, hy, rfl⟩ := mem_map.mp hName
    exact ⟨y, hy⟩
  cases c with
  | assignment a line => exact absurd rfl (h.other a line)
  | _ => exact hPlaces

variable (ck)

theorem bindNames_fills (options : ClassifyOptions) (referencedIn : String) (names : List String)
    {s : Command × Workspace} (h : ck.Fills c₀ done s.1) :
    Ends (ck.bindNames options referencedIn names) s (fun _ _ => True)
      fun s' _ => ck.Fills c₀ (fun name => name ∈ names ∨ done name) s'.1 := by
  induction names generalizing done s with
  | nil => exact .pure (by simpa using h)
  | cons name rest ih =>
    refine .bind ((ends_step (ck.accessorOf_ends s.2 options name referencedIn)).mono
      (fun _ _ _ => trivial) fun _ _ => id) ?_
    rintro a ⟨_, w⟩ ⟨rfl, -⟩
    refine ends_subject ?_
    refine .ite (fun _ => .throw_bind trivial) fun _ => ends_replace ?_
    refine (ih (s := ((s.1.bind name a).1, w)) (h.bind name a)).mono (fun _ _ => id) fun s' _ hs' => ?_
    simpa only [mem_cons, or_assoc, or_left_comm] using hs'

/-- A command that passes its check has all its accessors. -/
theorem check_fills (hManaged : ck.settings.manage ≠ .unmanaged) (w : Workspace) :
    Ends ck.check (c, w) (fun _ _ => True) fun s' _ => s'.1.Filled ∧ ck.Takes s'.1 := by
  have hLast : ∀ {s : Command × Workspace}, s.1.Filled ∧ ck.Takes s.1 →
      Ends
        (subject >>= fun c => workspace >>= fun w =>
          liftM (ck.checkReferences w s!"{c.typeName} command" c.references))
        s (fun _ _ => True) fun s' _ => s'.1.Filled ∧ ck.Takes s'.1 :=
    fun h => ends_subject (ends_workspace (.lift (fun _ _ => trivial) fun _ _ => h))
  have hNames : ∀ (options : ClassifyOptions) (text : String),
      (∀ a line, c ≠ .assignment a line) → ck.Takes c.clear →
      Ends (ck.bindNames options text c.clear.names) (c.clear, w) (fun _ _ => True)
        fun s' _ => s'.1.Filled ∧ ck.Takes s'.1 := by
    intro options text hOther hTakes
    have hClear := Fills.clear hOther hTakes
    refine (ck.bindNames_fills options text c.clear.names hClear).mono (fun _ _ => id) fun s' _ hs' => ?_
    simp only [or_false] at hs'
    exact ⟨hs'.filled hClear.other, hs'.takes⟩
  unfold check
  refine ends_subject (ends_replace (.ite (fun h => absurd h hManaged) fun _ => ?_))
  cases c with
  | assignment a line =>
    have hAssignment := ck.checkAssignment_ends (s := (a.clear, w)) rfl
    refine .bind ((ends_within hAssignment).mono (fun _ _ _ => trivial) fun _ _ => id) ?_
    rintro _ ⟨_, w'⟩ ⟨x, rfl, -, hFilled⟩
    exact hLast ⟨hFilled, trivial⟩
  | call call line =>
    refine .lift_bind (fun _ _ => trivial) fun _ hCall => .bind (ends_subject ?_) fun _ _ => hLast
    exact hNames _ _ (fun _ _ h => nomatch h) hCall
  | branch kind chain body otherwise line | report c line | propagate c line =>
    exact .bind (ends_subject (hNames _ _ (fun _ _ h => nomatch h) trivial)) fun _ _ => hLast

/-! ### A whole script -/

section

variable {P : Command → Prop}

theorem validateOne_passes (hCheck : ∀ {c w c' w'}, ck.check (c, w) = (.ok (), (c', w')) → P c')
    {c c' : Command} {s s' : CheckState} (h : ck.validateOne c s = (.ok true, c', s')) : P c' := by
  unfold validateOne at h
  rcases hRun : ck.check (c, s.workspace) with ⟨x, c₁, w⟩
  rw [hRun] at h
  cases x with
  | ok _ =>
    cases h
    exact hCheck hRun
  | error e =>
    dsimp only [handle] at h
    split at h <;> cases h

theorem samePlace_validateOne (c : Command) (s : CheckState) : c.SamePlace (ck.validateOne c s).2.1 := by
  have hEnds := ck.check_ends s.workspace c
  unfold validateOne
  rcases hRun : ck.check (c, s.workspace) with ⟨_ | _, c', w⟩
  · exact ((Ends.of_error hRun).mp hEnds).kept
  · exact (Ends.of_ok hRun).mp hEnds

theorem inner_validateOne {c c' : Command} {s s' : CheckState} {x : Except ValidationError Bool}
    (h : ck.validateOne c s = (x, c', s')) : c'.inner = c.inner := by
  have hPlace := ck.samePlace_validateOne c s
  rw [h] at hPlace
  exact hPlace.inner

theorem occurs_withInner {body otherwise : List Command} {c d : Command}
    (h : Command.Occurs d [withInner body otherwise c]) :
    d = withInner body otherwise c ∨ Command.Occurs d body ∨ Command.Occurs d otherwise := by
  rcases occurs_cons.mp h with rfl | hInside | hNone
  · exact .inl rfl
  · cases c with
    | branch kind chain _ _ line => exact .inr (occurs_append.mp hInside)
    | _ => exact absurd hInside not_occurs_nil
  · exact absurd hNone not_occurs_nil

mutual

/-- Where a command is valid, what follows from passing a check holds of it and of all commands
inside. -/
theorem validate_passes (hCheck : ∀ {c w c' w'}, ck.check (c, w) = (.ok (), (c', w')) → P c')
    (hInner : ∀ {c} body otherwise, P c → P (withInner body otherwise c))
    {c c' : Command} {s s' : CheckState} (h : ck.validate c s = (.ok true, c', s')) :
    ∀ d, Command.Occurs d [c'] → P d := by
  have hLeaf : ∀ {c : Command}, c.inner = [] → ck.validateOne c s = (.ok true, c', s') →
      ∀ d, Command.Occurs d [c'] → P d := by
    intro c hNone hOne d hd
    rcases occurs_cons.mp hd with rfl | hd | hd
    · exact ck.validateOne_passes hCheck hOne
    · rw [ck.inner_validateOne hOne, hNone] at hd
      exact absurd hd not_occurs_nil
    · exact absurd hd not_occurs_nil
  cases c with
  | assignment a line | report c line | propagate c line | call c line =>
    rw [validate] at h
    exact hLeaf rfl h
  | branch kind chain body otherwise line =>
    rw [validate] at h
    rcases hOne : ck.validateOne (.branch kind chain body otherwise line) s with ⟨x₁, c₁, s₁⟩
    rw [hOne] at h
    cases x₁ with
    | error e => cases h
    | ok valid =>
      rcases hBody : ck.validateEach body valid s₁ with ⟨x₂, body', s₂⟩
      simp only [hBody] at h
      cases x₂ with
      | error e => cases h
      | ok valid₂ =>
        rcases hOtherwise : ck.validateEach otherwise valid₂ s₂ with ⟨x₃, otherwise', s₃⟩
        simp only [hOtherwise] at h
        cases h
        obtain ⟨rfl, hIn'⟩ := validateEach_passes hCheck hInner hOtherwise
        obtain ⟨rfl, hIn⟩ := validateEach_passes hCheck hInner hBody
        intro d hd
        rcases occurs_withInner hd with rfl | hd | hd
        · exact hInner body' otherwise' (ck.validateOne_passes hCheck hOne)
        · exact hIn d hd
        · exact hIn' d hd

theorem validateEach_passes (hCheck : ∀ {c w c' w'}, ck.check (c, w) = (.ok (), (c', w')) → P c')
    (hInner : ∀ {c} body otherwise, P c → P (withInner body otherwise c))
    {cs cs' : List Command} {valid : Bool} {s s' : CheckState}
    (h : ck.validateEach cs valid s = (.ok true, cs', s')) :
    valid = true ∧ ∀ d, Command.Occurs d cs' → P d := by
  cases cs with
  | nil =>
    rw [validateEach] at h
    cases h
    exact ⟨rfl, fun d hd => absurd hd not_occurs_nil⟩
  | cons c rest =>
    rw [validateEach] at h
    rcases hFirst : ck.validate c s with ⟨x₁, c₁, s₁⟩
    simp only [hFirst] at h
    cases x₁ with
    | error e => cases h
    | ok fine =>
      rcases hRest : ck.validateEach rest (valid && fine) s₁ with ⟨x₂, rest', s₂⟩
      simp only [hRest] at h
      cases h
      obtain ⟨hBoth, hOthers⟩ := validateEach_passes hCheck hInner hRest
      obtain ⟨hValid, rfl⟩ : valid = true ∧ fine = true := by simpa using hBoth
      refine ⟨hValid, fun d hd => ?_⟩
      rcases occurs_append.mp (show Command.Occurs d ([c₁] ++ rest') from hd) with hd | hd
      · exact validate_passes hCheck hInner hFirst d hd
      · exact hOthers d hd

end

theorem validateAll_passes (hCheck : ∀ {c w c' w'}, ck.check (c, w) = (.ok (), (c', w')) → P c')
    (hInner : ∀ {c} body otherwise, P c → P (withInner body otherwise c))
    {cs cs' : List Command} {s s' : CheckState}
    (h : ck.validateAll cs s = (.ok true, cs', s')) : ∀ d, Command.Occurs d cs' → P d := by
  dsimp only [validateAll] at h
  rcases hEach : ck.validateEach cs true s with ⟨x, cs₁, s₁⟩
  rw [hEach] at h
  cases x with
  | error e => cases h
  | ok valid =>
    cases h
    exact (ck.validateEach_passes hCheck hInner hEach).2

end

/-- A check that ends without any error is passed, in whichever way errors are dealt with. -/
theorem Agrees.valid {before collected : List ValidationError}
    {r r' : Except ValidationError Bool × CheckState} (h : Agrees true before collected r r')
    {valid : Bool} :
    (r.1 = .ok valid → r.2.errors = before → valid = true) ∧ (r'.1 = .ok valid → valid = true) := by
  refine ⟨fun hOk hErrors => ?_, fun hOk => ?_⟩
  · have hNone : collected = [] := by simpa [h.errors] using hErrors
    rw [h.verdict, hNone] at hOk
    cases hOk
    rfl
  · cases hCollected : collected with
    | nil =>
      rw [h.clean hCollected, h.verdict, hCollected] at hOk
      cases hOk
      rfl
    | cons e rest =>
      rw [(h.first hCollected).1] at hOk
      cases hOk

end Checker

namespace Session

/-- The commands of a script that is accepted have been found valid. -/
theorem commands_of_validate {s s₁ : Session} (h : s.validate = (.ok (), s₁)) :
    ∃ c, s.checker.validateAll s.commands { workspace := s.workspace } = (.ok true, s₁.commands, c) := by
  obtain ⟨refused, collected, hCommands, -⟩ :=
    s.checker.validateAll_agrees s.commands { workspace := s.workspace }
  rw [validate_eq_match] at h
  rcases hAll : s.checker.validateAll s.commands { workspace := s.workspace } with ⟨_ | valid, commands, c⟩
  · rw [hAll] at h
    cases h
  rw [hAll] at h
  dsimp only at h
  rcases hFinal : s.checker.finalPass c with ⟨_ | fine, c'⟩
  · rw [hFinal] at h
    cases h
  rw [hFinal] at h
  dsimp only at h
  split at h
  · next hNone =>
      cases h
      refine ⟨c, ?_⟩
      have hValid : valid = true := by
        cases hFlag : s.checker.settings.continueOnError with
        | true =>
          have hSelf : s.checker.collecting true = s.checker := by
            rw [← hFlag]
            rfl
          obtain ⟨more, hObjects⟩ := s.checker.finalPass_agrees c
          have hErrors := hObjects.errors
          rw [hSelf, hFinal, isEmpty_iff.mp hNone] at hErrors
          refine hCommands.valid.1 ?_ ?_
          · rw [hSelf, hAll]
            rfl
          · rw [hSelf, hAll]
            exact (append_eq_nil_iff.mp hErrors.symm).1
        | false =>
          have hSelf : s.checker.collecting false = s.checker := by
            rw [← hFlag]
            rfl
          refine hCommands.valid.2 ?_
          rw [hSelf, hAll]
          rfl
      rw [hValid]
  · cases h

end Session

end Mission
