import Mission.Proofs.Checking.Acceptance
import Mission.Proofs.Classify.Policy
import Mission.Proofs.Execution.Termination
import Mission.Proofs.Literal.Number
import Mission.Proofs.Name.Mention
import Mission.Proofs.Real.Value

/-! Values that pass through a function. A call copies each input into a local Variable or String
and writes the outputs back through the conversion of the target, so a value is put into another
form and read out of it again. For every property of the objects of the catalogue the two match: a
function that returns its argument moves a value from one object to another of its type, and changes
nothing else. -/
namespace Mission

open Registry Outcome List Name Classify Execution Call

/-! ### Forms of values -/

/-- What is read out of the local object that a value is copied into. -/
def Value.passed : Value → Value
  | .integer n => .real (Real.ofInteger n)
  | .real x => .real x
  | v => .string v.toText

theorem dropWhile_of_forall {p : Char → Bool} {cs : List Char} (h : ∀ c ∈ cs, p c = false) :
    cs.dropWhile p = cs := by
  cases cs with
  | nil => rfl
  | cons c rest => rw [dropWhile_cons_of_neg (by simp [h c mem_cons_self])]

theorem forall_intercalate {p : Char → Prop} {separator : List Char} (hSeparator : ∀ c ∈ separator, p c)
    {words : List (List Char)} (h : ∀ word ∈ words, ∀ c ∈ word, p c) :
    ∀ c ∈ separator.intercalate words, p c := by
  induction words with
  | nil => simp
  | cons word rest ih =>
    have hRest := ih fun other hOther => h other (mem_cons_of_mem word hOther)
    cases rest with
    | nil => simpa using h
    | cons next rest =>
      rw [intercalate_cons_cons]
      simp only [mem_append]
      rintro c ((hc | hc) | hc)
      · exact h word mem_cons_self c hc
      · exact hSeparator c hc
      · exact hRest c hc

namespace Property

variable {separates : Char → Bool}

theorem runs_append {word : List Char} (h : ∀ c ∈ word, separates c = false) (rest run : List Char) :
    runs separates (word ++ rest) run = runs separates rest (word.reverse ++ run) := by
  induction word generalizing run with
  | nil => rfl
  | cons c word ih =>
    rw [cons_append, runs, if_neg (by simp [h c mem_cons_self]),
      ih fun d hd => h d (mem_cons_of_mem c hd), reverse_cons, append_assoc]
    rfl

/-- Words with separators between them are the runs. -/
theorem runs_intercalate (hSeparator : separates ',' = true ∧ separates ' ' = true) {words : List (List Char)}
    (h : ∀ word ∈ words, word ≠ [] ∧ ∀ c ∈ word, separates c = false) :
    runs separates ([',', ' '].intercalate words) [] = words := by
  induction words with
  | nil => rfl
  | cons word rest ih =>
    obtain ⟨hSome, hWord⟩ := h word mem_cons_self
    have hRest := ih fun other hOther => h other (mem_cons_of_mem word hOther)
    cases rest with
    | nil =>
      have hRun := runs_append hWord [] []
      rw [append_nil, append_nil] at hRun
      rw [intercalate_singleton, hRun]
      simp [runs, hSome]
    | cons next rest =>
      rw [intercalate_cons_cons, append_assoc, runs_append hWord, append_nil]
      simp [runs, hSome, hSeparator, hRest]

/-- A list of names is read back from its text. -/
theorem nameList_toText {items : List String} (h : ∀ item ∈ items, isValid item = true) :
    nameList (Value.stringArray items).toText = items := by
  let inner := [',', ' '].intercalate (items.map String.toList)
  have hText : (Value.stringArray items).toText.toList = '\x7b' :: (inner ++ ['\x7d']) := by
    rw [Value.toText, String.toList_append, String.toList_append, String.toList_intercalate]
    rfl
  have hWord : ∀ word ∈ items.map String.toList, word ≠ [] ∧ ∀ c ∈ word, isNameChar c = true := by
    intro word hMem
    obtain ⟨item, hItem, rfl⟩ := mem_map.mp hMem
    have hIdentifier := isIdentifier_of_isValid (h item hItem)
    exact ⟨hIdentifier.ne_nil, hIdentifier.isNameChar⟩
  have hBrace : ∀ c ∈ inner, c ≠ '\x7b' ∧ c ≠ '\x7d' := by
    refine forall_intercalate (by simp) fun word hMem c hc => ?_
    have hChar := (hWord word hMem).2 c hc
    refine ⟨?_, ?_⟩ <;> rintro rfl <;> cases hChar
  have hFront : ∀ c ∈ inner ++ ['\x7d'], (decide (c = '\x7b')) = false := by
    intro c hc
    rcases mem_append.mp hc with hc | hc
    · exact decide_eq_false (hBrace c hc).1
    · rw [mem_singleton.mp hc]
      rfl
  have hBack : ∀ c ∈ inner.reverse, (decide (c = '\x7d')) = false :=
    fun c hc => decide_eq_false (hBrace c (mem_reverse.mp hc)).2
  have hSeparates : ∀ word ∈ items.map String.toList, word ≠ [] ∧
      ∀ c ∈ word, (decide (c = ',') || Text.isBlank c) = false := by
    intro word hMem
    refine ⟨(hWord word hMem).1, fun c hc => Bool.eq_false_iff.mpr fun hSeparator => ?_⟩
    have hChar := (hWord word hMem).2 c hc
    rcases Bool.or_eq_true_iff.mp hSeparator with hComma | hBlank
    · rw [of_decide_eq_true hComma] at hChar
      cases hChar
    · rw [not_isNameChar_of_isBlank hBlank] at hChar
      cases hChar
  have hStrip : Text.strip (Value.stringArray items).toText.toList = '\x7b' :: (inner ++ ['\x7d']) := by
    rw [hText, Text.strip, Text.stripStart_cons rfl, ← cons_append,
      Text.stripEnd_concat (Bool.eq_false_iff.mp rfl)]
  unfold nameList
  dsimp only
  rw [hStrip, dropWhile_cons_of_pos rfl, dropWhile_of_forall hFront, reverse_append, reverse_singleton,
    singleton_append, dropWhile_cons_of_pos rfl, dropWhile_of_forall hBack, reverse_reverse,
    runs_intercalate ⟨rfl, rfl⟩ hSeparates, map_map]
  simp

/-- The property holds a value of its type: an accepted text if it is an enumeration, an integer
that is a real too, or names in a list. -/
structure Holds (p : Property) : Prop where
  admits : p.dataType.Admits p.value
  accepted : p.dataType = .enumeration → ∃ text ∈ p.accepted, p.value = .string text
  precise : ∀ {n}, p.value = .integer n → n.toInt.natAbs ≤ 2 ^ 53
  names : ∀ {items}, p.value = .stringArray items → ∀ item ∈ items, Name.isValid item = true

/-- An integer is read back from the real that it was passed as. -/
theorem asInteger_ofInteger {n : Int64} (h : n.toInt.natAbs ≤ 2 ^ 53) :
    (Value.real (Real.ofInteger n)).asInteger = .ok n := by
  have hNumber : Real.number? (Real.ofInteger n) = some (n.toInt : ℚ) := Real.number?_ofInteger h
  have hBound : Real.number? 9223372036854775808.0 = some (2 ^ 63) := by
    have hForm : Real.form 9223372036854775808.0 = .finite false ⟨Real.hiddenBit, 11, true⟩ := rfl
    rw [Real.number?, hForm]
    norm_num [Real.Form.number?, Real.Binary.number, Real.hiddenBit]
  have hSmall : (-(2 ^ 63) : ℚ) < n.toInt ∧ (n.toInt : ℚ) < 2 ^ 63 := by
    have hLess : -(2 ^ 63) < n.toInt ∧ n.toInt < 2 ^ 63 := by omega
    exact_mod_cast hLess
  have hIntegral := (Real.isIntegral_iff (Real.ofInteger n)).mpr ⟨n.toInt, hNumber⟩
  have hLow := (Real.lt_iff_number (Real.number?_neg hBound) hNumber).mpr hSmall.1
  have hHigh := (Real.lt_iff_number hNumber hBound).mpr hSmall.2
  rw [Value.asInteger, if_pos (by simp [hIntegral, hLow, hHigh]), Real.toInteger_of_number hNumber]

/-- What a value is passed as is converted to the value. -/
theorem convert_passed {p : Property} (h : p.Holds) (hSigned : p.dataType ≠ .unsignedInt)
    (hMatrix : p.dataType ≠ .matrix) (object : String) : p.convert object p.value.passed = .ok p.value := by
  have hAdmits := h.admits
  unfold DataType.Admits at hAdmits
  cases hType : p.dataType <;> cases hValue : p.value <;> rw [hType, hValue] at hAdmits <;>
    first | (cases hAdmits; done) | simp only [convert, hType, Value.passed, Value.toText]
  case real.real x => rfl
  case integer.integer n => rw [asInteger_ofInteger (h.precise hValue)]
  case unsignedInt.integer n => exact absurd hType hSigned
  case string.string text | filename.string text => rfl
  case object.object name => rfl
  case matrix.matrix m => exact absurd hType hMatrix
  case enumeration.string text =>
    obtain ⟨accepted, hAccepted, hText⟩ := h.accepted hType
    rw [hValue] at hText
    cases hText
    simp [Value.asString, hAccepted]
  case stringArray.stringArray items => exact congrArg _ (congrArg _ (nameList_toText (h.names hValue)))
  case boolean.boolean flag => cases flag <;> rfl
  case onOff.onOff flag => cases flag <;> rfl

end Property

/-! ### The properties of a type -/

/-- The properties of the object without their values. -/
def Object.layout (o : Object) : List (String × Property) :=
  o.properties.entries.map fun entry => (entry.1, { entry.2 with value := .absent })

theorem Object.keys_eq (o : Object) : o.properties.keys = o.layout.map Prod.fst := by
  simp [layout, Table.keys, Function.comp_def]

/-- The object with another value in a property. -/
def Object.withValue (o : Object) (i : Nat) (v : Value) : Object :=
  { o with properties := o.properties.modifyAt i fun p => { p with value := v } }

theorem Object.layout_withValue (o : Object) (i : Nat) (v : Value) : (o.withValue i v).layout = o.layout := by
  refine ext_getElem? fun j => ?_
  simp only [layout, withValue, Table.modifyAt, List.getElem?_map, List.getElem?_modify]
  split
  · cases o.properties.entries[j]? <;> rfl
  · cases o.properties.entries[j]? <;> rfl

theorem Object.Takes.layout {o o' : Object} (h : o.Takes o') : o'.layout = o.layout := by
  cases h with
  | property there converted => exact o.layout_withValue _ _
  | _ => rfl

theorem Object.get_withValue {o : Object} {field : String} {i : Nat} {p : Property}
    (hIndex : o.properties.index? field = some i) (hProperty : o.property i = .ok p) (v : Value) :
    (o.withValue i v).get field = .ok v := by
  have hFound : (o.withValue i v).propertyIndex field = .ok i := by
    rw [propertyIndex, Table.index?_eq, keys_eq, layout_withValue, ← keys_eq, ← Table.index?_eq, hIndex]
  have hValue : (o.withValue i v).property i = .ok { p with value := v } := by
    rw [property, withValue, Table.getAt?_modifyAt, getAt?_of_property hProperty]
    rfl
  exact bind_eq_ok.mpr ⟨i, hFound, bind_eq_ok.mpr ⟨_, hValue, rfl⟩⟩

namespace Catalog

/-- One assembly of each type. -/
def samples : List Assembly :=
  [spacecraft "", impulsiveBurn "", userVariable "" 0.0, unsizedArray "", userString "" "",
    celestialBody "" 0.0 0.0,
    solarSystem, forceModel "", propSetup "", librationPoint "" "" "" "", reportFile ""] ++
  (coordinateSystem "" "" none).toOption.toList ++ axisTypes.filterMap fun t => (axisSystem t).toOption

/-- The properties of the objects of a type. -/
def layout? (typeName : String) : Option (List (String × Property)) :=
  (samples.find? fun a => a.object.typeName = typeName).map fun a => a.object.layout

/-- The properties of the object are those of its type. -/
def Conforms (o : Object) : Prop :=
  layout? o.typeName = some o.layout

theorem Conforms.keep {o o' : Object} (h : Conforms o) (hType : o'.typeName = o.typeName)
    (hLayout : o'.layout = o.layout) : Conforms o' := by
  rw [Conforms, hType, hLayout]
  exact h

/-- Objects of one type have the same properties. -/
theorem Builds.conforms {given : String → Prop} {m : Assembly} (h : Builds given m) : Conforms m.object := by
  induction h with
  | spacecraft | impulsiveBurn | userVariable | userArray | unsizedArray | userString | celestialBody
  | solarSystem | forceModel | propSetup | librationPoint | reportFile => rfl
  | axisSystem known =>
    unfold Catalog.axisSystem at known
    split at known
    · next hKnown =>
        cases known
        have hTypes : axisTypes = ["MJ2000Eq", "MJ2000Ec", "BodyFixed", "ObjectReferenced", "TOEEq", "MOEEq",
          "TODEq", "MODEq", "GSE", "GSM"] := rfl
        simp only [hTypes, contains_cons, contains_nil, Bool.or_false, Bool.or_eq_true,
          beq_iff_eq] at hKnown
        rcases hKnown with rfl | rfl | rfl | rfl | rfl | rfl | rfl | rfl | rfl | rfl <;> rfl
    · cases known
  | coordinateSystem known =>
    unfold Catalog.coordinateSystem at known
    dsimp only at known
    split at known
    · cases known
      rfl
    · obtain ⟨part, -, known⟩ := bind_eq_ok.mp known
      cases known
      rfl
  | withPart _ _ ih _ => exact ih
  | set _ written ih =>
    have hTakes := Object.takes_set written
    exact ih.keep hTakes.sameForm.typeName hTakes.layout
  | store _ written ih =>
    have hTakes := Object.takes_store written
    exact ih.keep hTakes.sameForm.typeName hTakes.layout
  | resize _ sized ih =>
    obtain ⟨hForm, hProperties⟩ := Object.sameForm_resize sized
    exact ih.keep hForm.typeName (by
      rw [Object.layout, Assembly.withObject, Assembly.object, hProperties]
      rfl)

/-- The object is of the catalogue, whatever has been written to its properties. -/
def Supplies (o : Object) : Prop :=
  ∃ given m, Builds given m ∧ o.typeName = m.object.typeName ∧ o.layout = m.object.layout

theorem Supplies.conforms {o : Object} (h : Supplies o) : Conforms o := by
  obtain ⟨given, m, hBuilt, hType, hLayout⟩ := h
  exact hBuilt.conforms.keep hType hLayout

/-- The properties of the catalogue have names that can be written behind a dot, and can be written. -/
theorem Conforms.plain {o : Object} (h : Conforms o) :
    ∀ entry ∈ o.layout, isValid entry.1 = true ∧ entry.2.readOnly = false ∧
      entry.2.dataType ≠ .unsignedInt ∧ entry.2.dataType ≠ .matrix := by
  have hSamples : ∀ a ∈ samples, ∀ entry ∈ a.object.layout, isValid entry.1 = true ∧
      entry.2.readOnly = false ∧ entry.2.dataType ≠ .unsignedInt ∧ entry.2.dataType ≠ .matrix := by
    decide +kernel
  obtain ⟨a, ha, hLayout⟩ := Option.map_eq_some_iff.mp h
  rw [← hLayout]
  exact hSamples a (mem_of_find?_eq_some ha)

end Catalog

/-! ### The name of a property -/

section

variable {owner field : String}

theorem toList_dotted (owner field : String) :
    (owner ++ "." ++ field).toList = owner.toList ++ '.' :: field.toList := by
  rw [String.toList_append, String.toList_append]
  simp

theorem isBlank_dotted (hOwner : isValid owner = true) (hField : isValid field = true) :
    ∀ c ∈ (owner ++ "." ++ field).toList, Expr.isDottedChar c = true ∧ Text.isBlank c = false := by
  intro c hc
  have hChar : Expr.isDottedChar c = true := by
    rw [toList_dotted] at hc
    rcases mem_append.mp hc with hc | hc
    · exact isDottedChar_of_isValid hOwner c hc
    · rcases mem_cons.mp hc with rfl | hc
      · rfl
      · exact isDottedChar_of_isValid hField c hc
  refine ⟨hChar, Bool.eq_false_iff.mpr fun hBlank => ?_⟩
  rw [(Expr.ends_of_isBlank hBlank).1] at hChar
  cases hChar

theorem trim_dotted (hOwner : isValid owner = true) (hField : isValid field = true) :
    Text.trim (owner ++ "." ++ field) = owner ++ "." ++ field := by
  rw [Text.trim, Literal.strip_of_full fun c hc => (isBlank_dotted hOwner hField c hc).2,
    String.ofList_toList]

theorem DottedName.parse_dotted (hOwner : isValid owner = true) (hField : isValid field = true) :
    parse (owner ++ "." ++ field) = ⟨owner, "", field⟩ := by
  have hFront : ∀ c ∈ owner.toList, c ≠ '.' := fun c hc h => dot_not_mem_of_isValid hOwner (h ▸ hc)
  have hBack : ∀ c ∈ field.toList, c ≠ '.' := fun c hc h => dot_not_mem_of_isValid hField (h ▸ hc)
  have hDrop : (owner ++ "." ++ field).toList.dropWhile (· ≠ '.') = '.' :: field.toList := by
    rw [toList_dotted, dropWhile_append_of_pos (by simpa using hFront)]
    rfl
  have hTake : (owner ++ "." ++ field).toList.takeWhile (· ≠ '.') = owner.toList := by
    rw [toList_dotted, takeWhile_append_of_pos (by simpa using hFront)]
    simp
  have hLast : (field.toList.reverse.takeWhile (· ≠ '.')).reverse = field.toList := by
    rw [takeWhile_eq_self_iff.mpr (by simpa using hBack), reverse_reverse]
  unfold parse
  dsimp only
  rw [hDrop]
  dsimp only
  rw [hLast, hTake]
  simp

/-- A name that begins with a letter is no literal. -/
theorem Phrase.literal?_dotted (hOwner : isValid owner = true) (hField : isValid field = true) :
    literal? (owner ++ "." ++ field) = none := by
  obtain ⟨c, rest, hText, hAlpha, -⟩ := isIdentifier_of_isValid hOwner
  have hHead : (owner ++ "." ++ field).toList = c :: (rest ++ '.' :: field.toList) := by
    rw [toList_dotted, hText, cons_append]
  have hChar : ∀ d, d.isAlpha = false → c ≠ d := by
    rintro d hd rfl
    rw [hAlpha] at hd
    cases hd
  have hReal : Literal.real? (owner ++ "." ++ field) = none := by
    refine Option.eq_none_iff_forall_ne_some.mpr fun v hv => ?_
    obtain ⟨negative, d, after, -, hSplit, hNumber, -⟩ := Literal.real?_eq_some.mp hv
    rw [Literal.strip_of_full fun c hc => (isBlank_dotted hOwner hField c hc).2, hHead] at hSplit
    rcases Literal.strip_of_splitSign hSplit with ⟨-, hSign⟩ | ⟨-, hSign | hSame⟩
    · exact hChar '-' rfl (List.cons.inj hSign).1
    · exact hChar '+' rfl (List.cons.inj hSign).1
    · exact hChar d (Expr.not_isAlpha_of_isNumberChar hNumber) (List.cons.inj hSame).1
  unfold literal?
  rw [if_neg, if_neg, hReal]
  · rfl
  · have hBrace := hChar '\x7b' rfl
    simp [Literal.isBraced, Literal.isEnclosed, hHead, hBrace]
  · have hQuote := hChar quote rfl
    simp [Literal.isQuoted, Literal.isQuotedChars, Literal.isEnclosed, hHead, hQuote]

/-- The dotted name of a property stands for it if properties come first. -/
theorem classify_dotted {kinds : ParameterKinds} {options : ClassifyOptions} {w : Workspace} {id : ObjectId}
    {i : Nat} (hFirst : options.parametersFirst = false) (hOwner : isValid owner = true)
    (hField : isValid field = true) (hFind : w.find? owner = some id)
    (hIndex : (w.registry.object id).properties.index? field = some i) :
    ∃ log, classify kinds options (owner ++ "." ++ field) w =
      (.ok (.property (owner ++ "." ++ field) ⟨owner, "", field, some (id, i)⟩), { w with log }) := by
  have hParts := DottedName.parse_dotted hOwner hField
  have hChars := isBlank_dotted hOwner hField
  have hOpen : '(' ∉ (owner ++ "." ++ field).toList := by
    intro hMem
    cases (hChars _ hMem).1
  have hDot : '.' ∈ (owner ++ "." ++ field).toList := by simp
  have hDots : DottedName.dots (owner ++ "." ++ field) = 1 := by
    rw [DottedName.dots, toList_dotted, count_append, count_cons_self,
      count_eq_zero.mpr (dot_not_mem_of_isValid hOwner),
      count_eq_zero.mpr (dot_not_mem_of_isValid hField)]
  have hProperty : w.registry.findProperty id "" field = some (id, i) := by
    unfold findProperty
    dsimp only
    rw [if_pos (by decide), hIndex]
    rfl
  have hAccessor :
      property? w.registry (owner ++ "." ++ field) id (DottedName.parse (owner ++ "." ++ field)) =
        some (.property (owner ++ "." ++ field) ⟨owner, "", field, some (id, i)⟩) := by
    rw [property?_eq, hParts, hProperty]
    rfl
  have hFound : w.find? (DottedName.parse (owner ++ "." ++ field)).owner = some id := by rw [hParts, hFind]
  have hDotted : dotted kinds options (owner ++ "." ++ field) w =
      (.ok (.property (owner ++ "." ++ field) ⟨owner, "", field, some (id, i)⟩), w) := by
    rw [dotted_eq, hFound]
    dsimp only
    split
    · rw [hParts]
      simp [solarSystemProperty, PropertyRef.bind, hProperty]
    · rw [hAccessor]
    · rw [hAccessor]
    · rw [hAccessor]
    · have hOrder : parameterFirst options (owner ++ "." ++ field) w (some id) = false := by
        rw [parameterFirst, if_neg (by rw [hDots]; decide), hFirst]
      rw [onOwner_eq, hOrder, if_pos (show (!false) = true from rfl),
        propertyThenParameter_some, hAccessor]
  rw [classify, Phrase.parse_eq_of_not_mem hOpen, trim_dotted hOwner hField, Phrase.literal?_dotted hOwner
    hField]
  change ∃ log, resolve kinds options (.identifier _) w = _
  rw [resolve, run_bind_of_ok (by rw [identifier_eq, if_pos hDot]; exact hDotted)]
  exact ⟨_, rfl⟩

end

/-! ### The call -/

/-- The local object that a value is copied into. -/
def Value.holder (formal : String) : Value → Assembly
  | .integer n => Catalog.userVariable formal (Real.ofInteger n)
  | .real x => Catalog.userVariable formal x
  | v => Catalog.userString formal v.toText

/-- The function returns its argument. -/
structure UserFunction.Returns (f : UserFunction) (formal : String) : Prop where
  inputs : f.inputs = [formal]
  outputs : f.outputs = [formal]
  locals : f.locals = []
  body : f.body = []

/-- A call with one argument and one result. -/
def Call.through (function source target : String) (a b : Option Accessor) : Call :=
  ⟨function, [⟨source, a⟩], [⟨target, b⟩]⟩

namespace Call

variable {function source target formal : String} {a b : Accessor} {f : UserFunction} {r : Registry}
  {v : Value}

/-- The local store has a new object for the argument, which holds its value. -/
theorem localStore_through (ha : a.kind ≠ .object) (hf : f.Returns formal) (hValue : a.evaluate r = .ok v)
    (hMatrix : ∀ m, v ≠ .matrix m) (result : Option Accessor) :
    (through function source target (some a) result).localStore f r = .ok
      ({ objects := ⟨[(formal, (r.install (v.holder formal)).1)]⟩ }, (r.install (v.holder formal)).2) := by
  have hObject : inputObject r formal a = .ok (v.holder formal) := by
    rw [inputObject, if_neg ha, hValue]
    cases v with
    | matrix m => exact absurd rfl (hMatrix m)
    | _ => rfl
  have hName : (v.holder formal).object.name = formal := by cases v <;> rfl
  have hStore : Store.add {} r (v.holder formal) = .ok ((r.install (v.holder formal)).1,
      { objects := ⟨[((v.holder formal).object.name, (r.install (v.holder formal)).1)]⟩ },
      (r.install (v.holder formal)).2) := rfl
  rw [hName] at hStore
  have hAdd : addLocal {} r (v.holder formal) = .ok (_, _) :=
    bind_eq_ok.mpr ⟨_, CommandError.liftObject_eq_ok.mpr hStore, rfl⟩
  rw [localStore, hf.inputs, hf.locals]
  exact bind_eq_ok.mpr ⟨_, bind_eq_ok.mpr ⟨_, hObject, bind_eq_ok.mpr ⟨_, hAdd, rfl⟩⟩, rfl⟩

/-- The local object gives what the value is passed as. -/
theorem evaluate_holder (hMatrix : ∀ m, v ≠ .matrix m) :
    (r.install (v.holder formal)).2.evaluate (r.install (v.holder formal)).1 = .ok v.passed := by
  rw [evaluate, object_install]
  cases v with
  | matrix m => exact absurd rfl (hMatrix m)
  | _ => rfl

/-- The value is written to the target, and nothing else happens apart from the new local object. -/
theorem run_through (ha : a.kind ≠ .object) (hb : b.kind ≠ .object) (hf : f.Returns formal) {ck : Checker}
    (hFunction : ck.functions.get? function = some f) (hFormal : isValid formal = true)
    (hOther : formal ≠ "SolarSystem") (hMatrix : ∀ m, v ≠ .matrix m) {s : RunState}
    (hValue : a.evaluate s.registry = .ok v)
    (hWrite : b.setValue (s.registry.install (v.holder formal)).2 v.passed = .ok r) (scope : Scope)
    (line : Option Nat) :
    ∃ log, runAll ck scope [.call (through function source target (some a) (some b)) line] s =
      (.ok (), { s with registry := r, log }) := by
  let c := through function source target (some a) (some b)
  let id := (s.registry.install (v.holder formal)).1
  let r₁ := (s.registry.install (v.holder formal)).2
  let locals : Store := { objects := ⟨[(formal, id)]⟩ }
  have hFind : locals.find? r₁ formal = some id := by
    unfold Store.find?
    dsimp only
    rw [stripIndex_of_isValid hFormal, if_neg hOther]
    simp [locals, Table.get?]
  have hFinish : writeOutputs locals function (f.outputs.zip c.outputs) r₁ = (.ok (), r) := by
    have hOutput : writeOutput locals function formal ⟨target, some b⟩ r₁ = .ok r := by
      rw [writeOutput]
      dsimp only
      rw [hFind]
      dsimp only
      rw [if_neg hb]
      refine bind_eq_ok.mpr ⟨_, CommandError.liftObject_eq_ok.mpr (evaluate_holder hMatrix), ?_⟩
      exact CommandError.liftAccess_eq_ok.mpr hWrite
    rw [hf.outputs]
    simp only [c, through, zip_cons_cons, zip_nil_right, writeOutputs, hOutput]
  have hIdle : function ∉ ([] : List String) := not_mem_nil
  obtain ⟨depth, hDepth, -⟩ :=
    (Execution.Stacked.nil ck).exists_depth (Nat.le_refl ck.functions.size) hIdle hFunction
  obtain ⟨log, hPrepare⟩ : ∃ log, prepare ck scope c f (ck.locate · c.text line) s =
      (.ok ⟨scope.enter locals, []⟩, { s with registry := r₁, log }) := by
    rw [prepare, localStore_through ha hf hValue hMatrix, hf.body]
    exact ⟨_, rfl⟩
  rw [runAll, executeAll, execute, show ck.functions.size = depth + 1 from hDepth,
    invoke_succ hIdle hFunction, hPrepare]
  dsimp only
  rw [Execution.Task.run, executeAll]
  dsimp only
  rw [finish]
  dsimp only
  rw [show (scope.enter locals).store = locals from rfl, show c.function = function from rfl, hFinish]
  exact ⟨_, rfl⟩

end Call

theorem Checker.accessorOf_property {ck : Checker} {options : ClassifyOptions} {name referencedIn : String}
    {w w' : Workspace} {a : Accessor} (h : classify ck.kinds options name w = (.ok a, w'))
    (hKind : a.kind = .objectProperty) : ck.accessorOf options name referencedIn w = (.ok a, w') := by
  rw [accessorOf, h]
  dsimp only
  rw [hKind]
  simp

/-- A call whose arguments are properties is accepted with these as its accessors. -/
theorem Checker.validate_through {ck : Checker} (hManaged : ck.settings.manage ≠ .unmanaged)
    {function source target : String} (hSource : source ≠ "") (hTarget : target ≠ "")
    (hTakes : ck.checkCall (.through function source target none none) = .ok ()) {s : CheckState}
    {a b : Accessor}
    (ha : ∀ log, ∃ log', classify ck.kinds ⟨false, false⟩ source { s.workspace with log } =
      (.ok a, { s.workspace with log := log' }))
    (hb : ∀ log, ∃ log', classify ck.kinds ⟨false, false⟩ target { s.workspace with log } =
      (.ok b, { s.workspace with log := log' }))
    (hKind : a.kind = .objectProperty ∧ b.kind = .objectProperty) (line : Option Nat) :
    ∃ log, ck.validate (.call (.through function source target none none) line) s =
      (.ok true, .call (.through function source target (some a) (some b)) line,
        { s with workspace := { s.workspace with log } }) := by
  obtain ⟨log₁, hFirst⟩ := ha s.workspace.log
  obtain ⟨log₂, hSecond⟩ := hb log₁
  let bound := Command.call (.through function source target (some a) (some b)) line
  suffices hCheck : ∃ log, ck.check (.call (.through function source target none none) line, s.workspace) =
      (.ok (), (bound, { s.workspace with log })) by
    obtain ⟨log, hCheck⟩ := hCheck
    refine ⟨log, ?_⟩
    rw [validate, validateOne, hCheck]
  have hReferences : ∀ w text, ck.checkReferences w text bound.references = .ok () := by
    intro w text
    have hNone : bound.references = [] := by
      simp [bound, through, Command.references, Command.accessors, slots, Slot.accessors,
        Command.isSystemParameter, hKind, Command.namedReferences]
    rw [hNone]
    rfl
  by_cases hSame : source = target
  · subst hSame
    obtain ⟨log₃, hAgain⟩ := hb s.workspace.log
    rw [hFirst] at hAgain
    cases hAgain
    refine ⟨log₁, (check_eq_ok hManaged).mpr ⟨⟨hTakes, ?_⟩, hReferences _ _⟩⟩
    have hNames : (Command.call (.through function source source none none) line).clear.names = [source] := by
      simp [through, Command.clear, Command.names, mapSlots, slots, Slot.names, Slot.clear,
        Accessor.union, hSource]
    rw [hNames]
    refine bindNames_cons_eq_ok.mpr ⟨a, _, accessorOf_property hFirst hKind.1, ?_, ?_⟩
    · simp [through, Command.bind, Command.clear, mapSlots, slots, Slot.bindAll, Slot.clear]
    · simp only [through, Command.bind, Command.clear, mapSlots, Slot.bind, Slot.clear,
        map_cons, map_nil, if_true]
      rfl
  · refine ⟨log₂, (check_eq_ok hManaged).mpr ⟨⟨hTakes, ?_⟩, hReferences _ _⟩⟩
    have hNames : (Command.call (.through function source target none none) line).clear.names =
        [source, target] := by
      simp [through, Command.clear, Command.names, mapSlots, slots, Slot.names, Slot.clear,
        Accessor.union, hSource, hTarget, Ne.symm hSame]
    rw [hNames]
    refine bindNames_cons_eq_ok.mpr ⟨a, _, accessorOf_property hFirst hKind.1, ?_,
      bindNames_cons_eq_ok.mpr ⟨b, _, accessorOf_property hSecond hKind.2, ?_, ?_⟩⟩
    · simp [through, Command.bind, Command.clear, mapSlots, slots, Slot.bindAll, Slot.clear]
    · simp [through, Command.bind, Command.clear, mapSlots, slots, Slot.bindAll, Slot.bind,
        Slot.clear, Ne.symm hSame]
    · simp only [through, Command.bind, Command.clear, mapSlots, Slot.bind, Slot.clear,
        map_cons, map_nil, if_true, hSame, Ne.symm hSame, if_false]
      rfl

/-! ### The result -/

namespace Catalog.Supplies

variable {o o' : Object} {field : String} {i : Nat} {p : Property}

/-- What a property of the catalogue has besides its value, and the same property of another object
of the type. -/
theorem property (h : Supplies o) (h' : Supplies o') (hType : o'.typeName = o.typeName)
    (hIndex : o.propertyIndex field = .ok i) (hProperty : o.property i = .ok p) :
    isValid field = true ∧ p.readOnly = false ∧ p.dataType ≠ .unsignedInt ∧ p.dataType ≠ .matrix ∧
      o.properties.index? field = some i ∧ o'.properties.index? field = some i ∧
      ∃ v, o'.property i = .ok { p with value := v } := by
  have hLayout : o'.layout = o.layout := by
    have hSame := h'.conforms
    rw [Conforms, hType, h.conforms] at hSame
    exact (Option.some.inj hSame).symm
  have hKeys : o'.properties.keys = o.properties.keys := by rw [Object.keys_eq, Object.keys_eq, hLayout]
  have hFound : o.properties.index? field = some i := by
    unfold Object.propertyIndex at hIndex
    split at hIndex
    · next hSome =>
        cases hIndex
        exact hSome
    · cases hIndex
  obtain ⟨entry, hEntry, rfl⟩ := Option.map_eq_some_iff.mp (Object.getAt?_of_property hProperty)
  have hName : entry.1 = field := by
    rw [Table.index?] at hFound
    obtain ⟨hLess, hSame, -⟩ := List.findIdx?_eq_some_iff_getElem.mp hFound
    rw [List.getElem?_eq_getElem hLess] at hEntry
    cases hEntry
    exact of_decide_eq_true hSame
  have hBlank : o.layout[i]? = some (entry.1, { entry.2 with value := .absent }) := by
    rw [Object.layout, List.getElem?_map, hEntry]
    rfl
  obtain ⟨hValid, hWritable, hSigned, hMatrix⟩ := h.conforms.plain _ (mem_of_getElem? hBlank)
  have hThere : o'.properties.index? field = some i := by rw [Table.index?_eq, hKeys, ← Table.index?_eq,
    hFound]
  refine ⟨hName ▸ hValid, hWritable, hSigned, hMatrix, hFound, hThere, ?_⟩
  rw [← hLayout, Object.layout, List.getElem?_map] at hBlank
  obtain ⟨other, hOther, hSame⟩ := Option.map_eq_some_iff.mp hBlank
  refine ⟨other.2.value, ?_⟩
  rw [Object.property, Table.getAt?, hOther]
  obtain ⟨key, q⟩ := other
  obtain ⟨-, hSame⟩ := Prod.mk.inj hSame
  obtain ⟨name, dataType, value, readOnly, refType, accepted⟩ := q
  simp only [Property.mk.injEq] at hSame
  obtain ⟨rfl, rfl, -, rfl, rfl, rfl⟩ := hSame
  rfl

end Catalog.Supplies

/-- A function that returns its argument moves the value of a property to the same property of
another object of the type. The call is accepted and runs to its end, the property then holds the
very value, and every other property and every other object is what it was. -/
theorem call_carries_value {ck : Checker} (hManaged : ck.settings.manage ≠ .unmanaged)
    {function formal : String}
    {f : UserFunction} (hFunction : ck.functions.get? (Text.trim function) = some f)
    (hReturns : f.Returns formal)
    (hFormal : Name.isValid formal = true ∧ formal ≠ "SolarSystem") {source target field : String}
    {s : CheckState}
    {sourceId targetId : ObjectId}
    (hSource : Name.isValid source = true ∧ s.workspace.find? source = some sourceId)
    (hTarget : Name.isValid target = true ∧ s.workspace.find? target = some targetId)
    (hSupplied : Catalog.Supplies (s.workspace.registry.object sourceId))
    (hSupplied' : Catalog.Supplies (s.workspace.registry.object targetId))
    (hType : (s.workspace.registry.object targetId).typeName =
      (s.workspace.registry.object sourceId).typeName)
    {i : Nat} {p : Property} (hIndex : (s.workspace.registry.object sourceId).propertyIndex field = .ok i)
    (hProperty : (s.workspace.registry.object sourceId).property i = .ok p) (hHolds : p.Holds)
    (line : Option Nat) :
    ∃ c log, ck.validate (.call (.make function [source ++ "." ++ field] [target ++ "." ++ field]) line) s =
        (.ok true, c, { s with workspace := { s.workspace with log } }) ∧
      ∀ output, ∃ r log', Execution.runAll ck s.workspace.scope [c] ⟨s.workspace.registry, log, output⟩ =
          (.ok (), ⟨r, log', output⟩) ∧
        (r.object targetId).get field = .ok p.value ∧
        r.entry targetId = { s.workspace.registry.entry targetId with
          object := (s.workspace.registry.object targetId).withValue i p.value } ∧
        ∀ id, s.workspace.registry.Has id → id ≠ targetId → r.entry id = s.workspace.registry.entry id := by
  obtain ⟨hField, hWritable, hSigned, hMatrix, hHere, hThere, old, hOld⟩ :=
    hSupplied.property hSupplied' hType hIndex hProperty
  let w := s.workspace
  let a : Accessor := .property (source ++ "." ++ field) ⟨source, "", field, some (sourceId, i)⟩
  let b : Accessor := .property (target ++ "." ++ field) ⟨target, "", field, some (targetId, i)⟩
  have hMake : Call.make function [source ++ "." ++ field] [target ++ "." ++ field] =
      .through (Text.trim function) (source ++ "." ++ field) (target ++ "." ++ field) none none := by
    simp [Call.make, Slot.make, Call.through, trim_dotted hSource.1 hField, trim_dotted hTarget.1 hField]
  have hTakes : ck.checkCall (.through (Text.trim function) (source ++ "." ++ field) (target ++ "." ++ field)
      none none) = .ok () := by
    simp [Checker.checkCall, Call.through, hFunction, hReturns.inputs, hReturns.outputs]
  rw [hMake]
  obtain ⟨log, hChecked⟩ := Checker.validate_through hManaged (by simp) (by simp) hTakes (a := a) (b := b)
    (fun log => classify_dotted rfl hSource.1 hField hSource.2 hHere)
    (fun log => classify_dotted rfl hTarget.1 hField hTarget.2 hThere) ⟨rfl, rfl⟩ line
  refine ⟨_, log, hChecked, fun output => ?_⟩
  have hNoMatrix : ∀ m, p.value ≠ .matrix m := by
    intro m hIs
    have hAdmits : p.dataType.carrier = some p.value.dataType := hHolds.admits
    rw [hIs] at hAdmits
    cases hData : p.dataType <;> rw [hData] at hAdmits <;> first | cases hAdmits; done | exact hMatrix hData
  have hHas : w.registry.Has targetId := by
    by_contra hNot
    have hDefault : w.registry.object targetId = default := by rw [object, entry_of_not_has hNot]; rfl
    rw [show s.workspace.registry.object targetId = default from hDefault] at hThere
    cases hThere
  have hValue : a.evaluate w.registry = .ok p.value :=
    liftObject_eq_ok.mpr (bind_eq_ok.mpr ⟨p, hProperty, rfl⟩)
  obtain ⟨hGrows, -⟩ := install_grows w.registry (p.value.holder formal)
  have hWrite : b.setValue (w.registry.install (p.value.holder formal)).2 p.value.passed = .ok
      ((w.registry.install (p.value.holder formal)).2.setObject targetId
        ((w.registry.object targetId).withValue i p.value)) := by
    refine liftObject_eq_ok.mpr (bind_eq_ok.mpr ⟨_, ?_, rfl⟩)
    rw [hGrows.object hHas]
    refine bind_eq_ok.mpr ⟨_, hOld, ?_⟩
    rw [if_neg (by simp [hWritable])]
    exact bind_eq_ok.mpr ⟨_, Property.convert_passed hHolds hSigned hMatrix _, rfl⟩
  have hKind : a.kind ≠ .object ∧ b.kind ≠ .object := by simp [a, b, Accessor.kind]
  obtain ⟨log', hRun⟩ := Call.run_through hKind.1 hKind.2 hReturns hFunction hFormal.1 hFormal.2 hNoMatrix
    (s := ⟨w.registry, log, output⟩) hValue hWrite w.scope line
  have hEntry : ((w.registry.install (p.value.holder formal)).2.setObject targetId
      ((w.registry.object targetId).withValue i p.value)).entry targetId =
      { w.registry.entry targetId with object := (w.registry.object targetId).withValue i p.value } := by
    rw [setObject, entry_modify_self (hGrows.has hHas), hGrows.entry hHas]
  refine ⟨_, log', hRun, ?_, hEntry, fun id hId hOther => ?_⟩
  · rw [object, hEntry]
    exact Object.get_withValue hThere hOld p.value
  · rw [setObject, entry_modify_ne hOther, hGrows.entry hId]

/-- Two force models, and a function that returns its argument. -/
def passingScript : Session :=
  (((Session.new {}).create "ForceModel" "s").2.create "ForceModel" "t").2.addFunction
    { name := "Id", inputs := ["a"], outputs := ["a"] }

/-- A list of names passes through a function. -/
theorem call_carries_list :
    ∃ c log r log', passingScript.find? "t" = some ⟨16⟩ ∧
      passingScript.checker.validate (.call (.make "Id" ["s.PrimaryBodies"] ["t.PrimaryBodies"]) none)
        { workspace := passingScript.workspace } =
          (.ok true, c, { workspace := { passingScript.workspace with log } }) ∧
      Execution.runAll passingScript.checker passingScript.workspace.scope [c]
        ⟨passingScript.registry, log, #[]⟩ =
        (.ok (), ⟨r, log', #[]⟩) ∧
      (r.object ⟨16⟩).get "PrimaryBodies" = .ok (.stringArray ["Earth"]) := by
  have hSource : passingScript.workspace.find? "s" = some ⟨13⟩ := by decide +kernel
  have hTarget : passingScript.workspace.find? "t" = some ⟨16⟩ := by decide +kernel
  have hObject : passingScript.workspace.registry.object ⟨13⟩ = (Catalog.forceModel "s").object := rfl
  have hObject' : passingScript.workspace.registry.object ⟨16⟩ = (Catalog.forceModel "t").object := rfl
  have hHolds : (Property.stringArray "PrimaryBodies" ["Earth"]).Holds := by
    refine ⟨rfl, nofun, nofun, ?_⟩
    rintro _ ⟨⟩
    decide
  have hSupplied : Catalog.Supplies (passingScript.workspace.registry.object ⟨13⟩) :=
    ⟨fun _ => False, _, .forceModel "s", congrArg Object.typeName hObject, congrArg Object.layout hObject⟩
  have hSupplied' : Catalog.Supplies (passingScript.workspace.registry.object ⟨16⟩) :=
    ⟨fun _ => False, _, .forceModel "t", congrArg Object.typeName hObject', congrArg Object.layout hObject'⟩
  obtain ⟨c, log, hChecked, hRun⟩ := @call_carries_value passingScript.checker (by decide) "Id" "a"
    { name := "Id", inputs := ["a"], outputs := ["a"] } rfl ⟨rfl, rfl, rfl, rfl⟩ (by decide) "s" "t"
      "PrimaryBodies"
    { workspace := passingScript.workspace } ⟨13⟩ ⟨16⟩ ⟨rfl, hSource⟩ ⟨rfl, hTarget⟩ hSupplied hSupplied' rfl
    1 (.stringArray "PrimaryBodies" ["Earth"]) rfl rfl hHolds none
  obtain ⟨r, log', hRun, hValue, -⟩ := hRun #[]
  exact ⟨c, log, r, log', hTarget, hChecked, hRun, hValue⟩

/-- A checker of the script that does not manage objects. -/
def unmanagedChecker : Checker :=
  { passingScript.checker with settings := { manage := .unmanaged } }

/-- Where objects are not managed, the same call is accepted without accessors and then fails. -/
theorem unmanaged_call_fails :
    ∃ c s, unmanagedChecker.validate (.call (.make "Id" ["s.PrimaryBodies"] ["t.PrimaryBodies"]) none)
        { workspace := passingScript.workspace } = (.ok true, c, s) ∧
      ∃ e s', Execution.runAll unmanagedChecker passingScript.workspace.scope [c]
        ⟨passingScript.registry, s.workspace.log, #[]⟩ = (.error e, s') :=
  ⟨_, _, rfl, _, _, rfl⟩

end Mission
