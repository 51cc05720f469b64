import Mission.Proofs.Command.Tolerance
import Mission.Proofs.Session.Typing

/-! What is written where. A write of a client is local: where it fails the objects are as they
were, and where it succeeds one place holds the value, converted to the type of what stood there,
while all else is as it was. An assignment of an equation writes a number where a number is held,
and a matrix where a matrix of its size is. -/
namespace Mission

open Registry Outcome

variable {given : String → Prop}

/-- A client writes atomically and locally, and what it reads it can write. Take any state that it
can bring about, any accessor, whether it has just been classified or kept for long, and any value.
If the write fails, there is no place that takes the value, and no object has changed. If it
succeeds, the value as it is taken stands at the place of the accessor, and without that place the
objects are the same. What is read through an accessor that can be set is taken, and nothing
changes; for an enumeration it must be a text that this one accepts. -/
theorem Client.setValue_local {c : Client} (hOpens : ∃ b, Client.Opens given b ∧ Client.Leads given b c)
    (a : Accessor) (v : Value) :
    (∀ e, a.setValue c.session.registry v = .error e →
      (∀ place, a.place c.session.registry = some place → c.session.registry.taken v place = none) ∧
        c.session.registry.after (a.setValue c.session.registry v) = c.session.registry) ∧
    (∀ r, a.setValue c.session.registry v = .ok r →
      ∃ place w, a.place c.session.registry = some place ∧ c.session.registry.taken v place = some w ∧
        r.read? place = some w ∧ r.blank place = c.session.registry.blank place) ∧
    (a.isSettable c.session.registry = true → a.evaluate c.session.registry = .ok v →
      (a.dataType c.session.registry = .enumeration → ∃ text ∈ a.accepted c.session.registry, v =
      .string text) →
        a.setValue c.session.registry v = .ok c.session.registry) := by
  obtain ⟨b, hOpen, hBefore⟩ := hOpens
  obtain ⟨-, hSound⟩ := hBefore.preserves hOpen.sound
  refine ⟨fun e hError => ⟨fun place hPlace => ?_, ?_⟩, fun r hOk => ?_, fun hSettable hValue hAccepted => ?_⟩
  · cases hTaken : c.session.registry.taken v place with
    | none => rfl
    | some w =>
      cases hError.symm.trans (Accessor.setValue_eq_ok.mpr ⟨place, w, hPlace, hTaken, rfl⟩)
  · rw [hError]
    rfl
  · obtain ⟨place, w, hPlace, hTaken, rfl⟩ := Accessor.setValue_eq_ok.mp hOk
    exact ⟨place, w, hPlace, hTaken, read?_put hTaken, blank_put hTaken⟩
  · obtain ⟨place, hPlace, hRead, hTaken⟩ :=
      Accessor.exists_place hSound.session.registry hSettable hValue hAccepted
    exact Accessor.setValue_eq_ok.mpr ⟨place, v, hPlace, hTaken, put_read? hRead⟩

/-- The client writes a date format that is not the one it reads, and then the one that it reads. -/
theorem Client.setValue_local_furnished :
    ∃ a s r v, Client.furnished.session.classify {} "sat.DateFormat" = (.ok a, s) ∧
      a.setValue s.registry (.string "UTCGregorian") = .ok r ∧
      (∃ place w, a.place s.registry = some place ∧ r.read? place = some w ∧
        r.blank place = s.registry.blank place) ∧
      a.evaluate s.registry = .ok v ∧ a.setValue s.registry v = .ok s.registry := by
  have hFound : (Client.furnished.session.classify {} "sat.DateFormat").1.toOption.any (fun a =>
      a.isSettable (Client.furnished.session.classify {} "sat.DateFormat").2.registry &&
        ((a.setValue (Client.furnished.session.classify {} "sat.DateFormat").2.registry
          (.string "UTCGregorian")).toOption.isSome &&
        (a.evaluate (Client.furnished.session.classify {} "sat.DateFormat").2.registry).toOption.any fun v =>
          v.dataType = .string && v.asString.toOption.any fun text =>
            (a.accepted (Client.furnished.session.classify {} "sat.DateFormat").2.registry).contains text)) =
        true := by
    decide +kernel
  have hOpens : ∃ b, Client.Opens (fun _ => False) b ∧ Client.Leads (fun _ => False) b Client.furnished :=
    ⟨_, .new {}, .tail (.single (.create "Spacecraft" "sat")) (.add (.userArray "A" 2 3))⟩
  rcases hRun : Client.furnished.session.classify {} "sat.DateFormat" with ⟨x, s⟩
  rw [hRun] at hFound
  cases x with
  | error e => cases hFound
  | ok a =>
    obtain ⟨hSettable, hBoth⟩ := Bool.and_eq_true_iff.mp hFound
    obtain ⟨hSet, hRead⟩ := Bool.and_eq_true_iff.mp hBoth
    obtain ⟨r, hWritten⟩ := Option.isSome_iff_exists.mp hSet
    obtain ⟨v, hValue, hText⟩ := (Option.any_eq_true _ _).mp hRead
    obtain ⟨b, hOpen, hBefore⟩ := hOpens
    have hClassified : ∃ b, Client.Opens (fun _ => False) b ∧ Client.Leads (fun _ => False) b ⟨s, [a]⟩ :=
      ⟨b, hOpen, hBefore.tail (.classify hRun rfl)⟩
    obtain ⟨-, hLocal, -⟩ := Client.setValue_local hClassified a (.string "UTCGregorian")
    obtain ⟨place, w, hPlace, -, hStored, hRest⟩ := hLocal r (toOption_eq_some.mp hWritten)
    obtain ⟨-, -, hSame⟩ := Client.setValue_local hClassified a v
    refine ⟨a, s, r, v, rfl, toOption_eq_some.mp hWritten, ⟨place, w, hPlace, hStored, hRest⟩,
      toOption_eq_some.mp hValue, hSame hSettable (toOption_eq_some.mp hValue) fun _ => ?_⟩
    cases v with
    | string text => exact ⟨text, by simpa [Value.dataType, Value.asString, Except.toOption] using hText, rfl⟩
    | _ => cases hText

/-! ### Assignments of equations -/

/-- The value that was put at a place is still read there beside new objects. -/
theorem Registry.Grows.read?_put {r r' : Registry} {w : Value} {place : Place} (h : Grows (r.put w place) r')
    (hTaken : r.taken w place = some w) : r'.read? place = some w := by
  rw [Registry.read?, h.object (has_modify.mpr (has_of_taken hTaken))]
  exact Registry.read?_put hTaken

/-- Numbers and 1x1 matrices are exchanged freely. Take any assignment of an equation whose value
can be computed. Where its target is a Variable, a real property that can be written, a settable
Parameter whose owner has such a property, or an entry of a sized Array, a number or the entry of a
1x1 matrix is stored, and any other value is refused. Where its target is an Array, a matrix of its
size is stored, or a number if the Array is 1x1, and any other value is refused. What is stored is
the only change beside new objects, and what is refused changes nothing. -/
theorem Assignment.execute_tolerant {r : Registry} {a : Assignment} {f : Formula} {v : Result}
    {target : Accessor} (hFormula : a.equation.formula = some f) (hTarget : a.target = some target)
    (hValue : f.expr.evaluate r a.equation.bindings = .ok v) :
    (∀ here, target.Single r here →
      (∀ x, v.number? = some x → ∃ r', a.execute r = .ok r' ∧ r'.read? here = some (.real x) ∧
        Grows (r.put (.real x) here) r') ∧
      (v.number? = none → ∃ e, a.execute r = .error e ∧ r.after (a.execute r) = r)) ∧
    (∀ d id m, target = .whole d .array (some id) → (r.object id).content = .array (some m) → m.Filled →
      (∀ n, v.matrixOf? m.dims = some n → ∃ r', a.execute r = .ok r' ∧
        r'.read? ⟨id, .content⟩ = some (.matrix n) ∧ Grows (r.put (.matrix n) ⟨id, .content⟩) r') ∧
      (v.matrixOf? m.dims = none → ∃ e, a.execute r = .error e ∧ r.after (a.execute r) = r)) := by
  constructor
  · intro here hSingle
    constructor
    · intro x hNumber
      obtain ⟨r', hExecute, hGrows⟩ := execute_single hFormula hTarget hValue hSingle hNumber
      exact ⟨r', hExecute, hGrows.read?_put (hSingle.taken (.real x)), hGrows⟩
    · intro hNumber
      obtain ⟨e, hExecute⟩ := refuse_single hFormula hTarget hValue hSingle hNumber
      refine ⟨e, hExecute, ?_⟩
      rw [hExecute]
      rfl
  · rintro d id m rfl hHeld hFilled
    constructor
    · intro n hMatrix
      obtain ⟨r', hExecute, hGrows⟩ := execute_array hFormula hTarget hValue hHeld hFilled hMatrix
      have hTaken : r.taken (.matrix n) ⟨id, .content⟩ = some (.matrix n) := by
        rw [taken_array hHeld, if_pos (Result.dims_of_matrixOf? hMatrix).symm]
      exact ⟨r', hExecute, hGrows.read?_put hTaken, hGrows⟩
    · intro hMatrix
      obtain ⟨e, hExecute⟩ := refuse_array hFormula hTarget hValue hHeld hMatrix
      refine ⟨e, hExecute, ?_⟩
      rw [hExecute]
      rfl

/-- An Array of size 1x1 is assigned to a Variable, and the Variable to the Array. -/
theorem Assignment.execute_tolerant_scalar :
    let r := (Registry.installAll {} [Catalog.userVariable "x" 0, Catalog.userArray "A" 1 1]).2
    let x : Accessor := .whole "x" .variable (some ⟨0⟩)
    let A : Accessor := .whole "A" .array (some ⟨1⟩)
    let bindings : Bindings := ⟨[("x", some x), ("A", some A)]⟩
    let there : Assignment :=
      { lhs := "x", rhs := "A", target := some x, equation :=
        { formula := some ⟨"A", .element "A"⟩, bindings } }
    let back : Assignment :=
      { lhs := "A", rhs := "x", target := some A, equation :=
        { formula := some ⟨"x", .element "x"⟩, bindings } }
    (∃ r', there.execute r = .ok r' ∧ r'.read? ⟨⟨0⟩, .content⟩ = some (.real ((Matrix.zero 1 1).entry 0 0))) ∧
      ∃ r', back.execute r = .ok r' ∧ r'.read? ⟨⟨1⟩, .content⟩ = some (.matrix (.scalar 0)) := by
  intro r x A bindings there back
  constructor
  · obtain ⟨r', hExecute, hRead, -⟩ := ((execute_tolerant (r := r) (a := there) rfl rfl rfl).1 ⟨⟨0⟩, .content⟩
      (.variable rfl)).1 _ rfl
    exact ⟨r', hExecute, hRead⟩
  · obtain ⟨r', hExecute, hRead, -⟩ :=
      ((execute_tolerant (r := r) (a := back) rfl rfl rfl).2 "A" ⟨1⟩ _ rfl rfl ⟨by decide, by decide⟩).1 _ rfl
    exact ⟨r', hExecute, hRead⟩

/-- The accessor stands for a settable Parameter whose owner is of the type that the Parameter asks
for. -/
def Accessor.isBoundParameter (r : Registry) : Accessor → Bool
  | .whole _ .parameter (some id) =>
    (r.object id).parameter?.any fun p =>
      p.kind.isSettable && p.owner.any fun owner => (r.object owner).isOfType p.kind.ownerType
  | _ => false

/-- The command assigns a number to such a Parameter and fails. -/
def Command.refusesNumber (r : Registry) : Command → Bool
  | .assignment a _ =>
    a.target.any (Accessor.isBoundParameter r) &&
      (a.equation.formula.any fun f =>
        (f.expr.evaluate r a.equation.bindings).toOption.any fun v => v.dataType = .real) &&
      !(a.execute r).toOption.isSome
  | _ => false

/-- A checked script with a spacecraft that is not of the catalogue and has no fields. -/
def Session.bareScript : Session :=
  (((Session.new {}).add
    (.ofObject { name := "probe", typeName := "Probe", objectType := .spacecraft })).2.push
    (.assignment (.make "probe.X" "1 + 1") none)).validate.2

/-- The type of the owner is not enough: a spacecraft without the field takes no number through the
Parameter. -/
theorem Session.number_refused_without_field :
    bareScript.validated = true ∧ bareScript.commands.any (Command.refusesNumber bareScript.registry) =
      true := by
  decide +kernel

end Mission
