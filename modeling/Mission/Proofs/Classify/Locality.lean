import Mathlib.Data.Option.Basic
import Mission.Proofs.Accessor.Footprint
import Mission.Proofs.Checking.Changes
import Mission.Proofs.Classify.Description
import Mission.Proofs.Name.Scan

/-! Names that stay inside a function. A function body sees the local store of its call in front of
the script's. Texts that begin with a name of the local store lead to objects that came with the
call, and so do the Parameters that are created for them, whatever else the body does. -/
namespace Mission

open Registry Outcome List Name Text Literal DottedName Accessor

/-! ### Names and what stands under them -/

theorem Text.strip_of_getLast? {cs : List Char} {c : Char} (h : cs.getLast? = some c)
    (hBlank : isBlank c = false) : strip cs = stripStart cs ∧ (stripStart cs).getLast? = some c := by
  have hStart : (stripStart cs).getLast? = some c := by
    obtain ⟨gap, hGap, hSplit⟩ := exists_gap cs
    rw [hSplit, List.getLast?_append] at h
    cases hLast : (stripStart cs).getLast? with
    | some d =>
      rw [hLast] at h
      exact h
    | none =>
      rw [hLast] at h
      rw [all_eq_true.mp hGap c (mem_of_getLast? h)] at hBlank
      cases hBlank
  have hVisible : ∀ d ∈ (stripStart cs).getLast?, isBlank d = false := by
    intro d hd
    rw [hStart] at hd
    cases hd
    exact hBlank
  have hKept := stripEnd_append hVisible []
  rw [append_nil, stripEnd_nil, append_nil] at hKept
  exact ⟨hKept, hStart⟩

namespace Name

/-- Whether the key is the name followed by a dot and something more. -/
def isUnder (name key : String) : Bool :=
  (name.toList ++ ['.']).isPrefixOf key.toList

/-- The text is under one of the names. -/
def Inside (names : List String) (text : String) : Prop :=
  ∃ name ∈ names, isUnder name text = true

variable {name text : String}

theorem isUnder_iff : isUnder name text = true ↔ ∃ rest, text.toList = name.toList ++ '.' :: rest := by
  rw [isUnder, isPrefixOf_iff_prefix]
  constructor
  · rintro ⟨rest, h⟩
    exact ⟨rest, by rw [← h]; simp⟩
  · rintro ⟨rest, h⟩
    exact ⟨rest, by rw [h]; simp⟩

theorem dot_not_mem_of_isValid (h : isValid name = true) : '.' ∉ name.toList := by
  intro hMem
  have hDot := (isIdentifier_of_isValid h).isNameChar '.' hMem
  cases hDot

theorem isDottedChar_of_isValid (h : isValid name = true) :
    ∀ c ∈ name.toList, Expr.isDottedChar c = true := by
  intro c hc
  simp [Expr.isDottedChar, (isIdentifier_of_isValid h).isNameChar c hc]

/-- An index is looked for only behind the letters, digits and dots in front. -/
theorem toList_stripIndex {cs rest : List Char} (hText : text.toList = cs ++ rest) (hNonempty : cs ≠ [])
    (hCs : ∀ c ∈ cs, Expr.isDottedChar c = true) :
    (stripIndex text).toList = cs ++ stripEnd (rest.takeWhile fun c => c ≠ '(' && c ≠ '[') := by
  have hTake : ∀ c ∈ cs, (c ≠ '(' && c ≠ '[') = true := by
    intro c hc
    have hDotted := hCs c hc
    by_cases hOpen : c = '(' ∨ c = '['
    · rcases hOpen with rfl | rfl <;> cases hDotted
    · simpa using hOpen
  have hBlank : ∀ c ∈ cs, isBlank c = false := fun c hc => Expr.not_isBlank_of_isDottedChar (hCs c hc)
  have hStart : ∀ more, stripStart (cs ++ more) = cs ++ more := by
    intro more
    cases cs with
    | nil => exact absurd rfl hNonempty
    | cons c cs => exact stripStart_cons (hBlank c mem_cons_self) _
  rw [stripIndex, String.toList_ofList, hText, takeWhile_append_of_pos hTake, strip, hStart,
    stripEnd_append fun c hc => hBlank c (mem_of_getLast? hc)]

theorem stripIndex_of_isValid (h : isValid name = true) : stripIndex name = name := by
  have hStrip := toList_stripIndex (append_nil name.toList).symm (isIdentifier_of_isValid h).ne_nil
    (isDottedChar_of_isValid h)
  rw [takeWhile_nil, stripEnd_nil, append_nil] at hStrip
  exact String.toList_inj.mp hStrip

theorem isUnder_stripIndex (hName : isValid name = true) (h : isUnder name text = true) :
    isUnder name (stripIndex text) = true := by
  obtain ⟨rest, hText⟩ := isUnder_iff.mp h
  have hSplit : text.toList = (name.toList ++ ['.']) ++ rest := by rw [hText]; simp
  refine isUnder_iff.mpr ⟨_, (toList_stripIndex hSplit (by simp) ?_).trans (by simp; rfl)⟩
  intro c hc
  rcases mem_append.mp hc with hc | hc
  · exact isDottedChar_of_isValid hName c hc
  · rw [mem_singleton.mp hc]
    rfl

theorem stripIndex_gap {gap : List Char} (hGap : Text.Gap gap) (cs : List Char) :
    stripIndex (String.ofList ((gap ++ cs).takeWhile (· ≠ '.'))) =
      stripIndex (String.ofList (cs.takeWhile (· ≠ '.'))) := by
  have hNot : ∀ {d : Char}, isBlank d = false → ∀ c ∈ gap, decide (c ≠ d) = true := by
    intro d hd c hc
    refine decide_eq_true ?_
    rintro rfl
    rw [all_eq_true.mp hGap c hc] at hd
    cases hd
  have hFront : ∀ c ∈ gap, (c ≠ '(' && c ≠ '[') = true := by
    intro c hc
    rw [Bool.and_eq_true]
    exact ⟨hNot rfl c hc, hNot rfl c hc⟩
  rw [takeWhile_append_of_pos (hNot rfl), stripIndex, stripIndex, String.toList_ofList,
    String.toList_ofList, takeWhile_append_of_pos hFront, strip, strip, stripStart_gap hGap]

theorem takeWhile_of_isUnder (hName : '.' ∉ name.toList) (h : isUnder name text = true) :
    text.toList.takeWhile (· ≠ '.') = name.toList := by
  obtain ⟨rest, hText⟩ := isUnder_iff.mp h
  have hChars : ∀ c ∈ name.toList, decide (c ≠ '.') = true := by
    intro c hc
    refine decide_eq_true ?_
    rintro rfl
    exact hName hc
  rw [hText, takeWhile_append_of_pos hChars]
  simp

/-- A text with a dot is under what stands in front of the first dot. -/
theorem isUnder_takeWhile (hDot : '.' ∈ text.toList) :
    isUnder (String.ofList (text.toList.takeWhile (· ≠ '.'))) text = true := by
  refine isUnder_iff.mpr ?_
  have hSplit := takeWhile_append_dropWhile (p := (· ≠ '.')) (l := text.toList)
  cases hDrop : text.toList.dropWhile (· ≠ '.') with
  | nil =>
    have hAll := dropWhile_eq_nil_iff.mp hDrop '.' hDot
    cases hAll
  | cons c rest =>
    have hHead := List.head?_dropWhile_not (· ≠ '.') text.toList
    rw [hDrop] at hHead hSplit
    obtain rfl : c = '.' := by simpa using hHead
    exact ⟨rest, by rw [String.toList_ofList, hSplit]⟩

end Name

theorem DottedName.owner_parse {text : String} (hDot : '.' ∈ text.toList) :
    (parse text).owner = String.ofList (text.toList.takeWhile (· ≠ '.')) := by
  unfold parse
  dsimp only
  split
  · next hDrop =>
      have hAll := dropWhile_eq_nil_iff.mp hDrop '.' hDot
      cases hAll
  · rfl

theorem DottedName.owner_of_isUnder {name text : String} (hName : isValid name = true)
    (h : isUnder name text = true) : (parse text).owner = name := by
  have hDot : '.' ∈ text.toList := by
    obtain ⟨rest, hText⟩ := isUnder_iff.mp h
    rw [hText]
    simp
  rw [owner_parse hDot, takeWhile_of_isUnder (dot_not_mem_of_isValid hName) h, String.ofList_toList]

namespace Phrase

/-- The name in front of the indices of an array element, or in front of the first dot. -/
def base? : Phrase → Option String
  | element _ name _ _ => some name
  | identifier description => some (String.ofList (description.toList.takeWhile (· ≠ '.')))
  | literal _ | malformed _ => none

/-- The phrase begins with one of the names, unless it names nothing. -/
def Within (names : List String) (p : Phrase) : Prop :=
  ∀ base ∈ p.base?, base ∈ names

instance (names : List String) (p : Phrase) : Decidable (p.Within names) :=
  inferInstanceAs (Decidable (∀ base ∈ p.base?, base ∈ names))

variable {cs : List Char}

theorem real?_eq_none (h : cs.getLast? = some 's') : real? (String.ofList cs) = none := by
  obtain ⟨hStrip, hLast⟩ := strip_of_getLast? h rfl
  unfold real?
  rw [String.toList_ofList, hStrip]
  generalize stripStart cs = body at hLast
  have hBody : (Real.splitSign body).2 = [] ∨ (Real.splitSign body).2.getLast? = some 's' := by
    unfold Real.splitSign
    split
    · next rest =>
        cases rest with
        | nil => exact .inl rfl
        | cons c rest => exact .inr (by rwa [List.getLast?_cons_cons] at hLast)
    · next rest =>
        cases rest with
        | nil => exact .inl rfl
        | cons c rest => exact .inr (by rwa [List.getLast?_cons_cons] at hLast)
    · exact .inr hLast
  dsimp only
  refine if_pos ?_
  rcases hBody with hNil | hEnd
  · rw [hNil]
    rfl
  · have hNot : (Real.splitSign body).2.all
        (fun c => c.isDigit || ['.', 'e', 'E', '+', '-'].contains c) = false := by
      refine all_eq_false.mpr ⟨'s', mem_of_getLast? hEnd, by decide⟩
    rw [hNot]
    simp

theorem literal?_eq_none (h : cs.getLast? = some 's') : literal? (String.ofList cs) = none := by
  have hEnclosed : ∀ {first last : Char}, last ≠ 's' → isEnclosed first last cs = false := by
    intro first last hNot
    simp [isEnclosed, h, hNot.symm]
  have hQuoted : isQuoted (String.ofList cs) = false := by
    simp [isQuoted, isQuotedChars, hEnclosed (show quote ≠ 's' by decide)]
  have hBraced : isBraced (String.ofList cs) = false := by
    rw [isBraced, String.toList_ofList]
    exact hEnclosed (by decide)
  simp [literal?, hQuoted, hBraced, real?_eq_none h]

theorem index_eq_none (h : cs.getLast? = some 's') : ArrayIndex.parse (String.ofList cs) = .ok none := by
  obtain ⟨hStrip, hLast⟩ := strip_of_getLast? h rfl
  unfold ArrayIndex.parse
  rw [String.toList_ofList, hStrip]
  dsimp only
  split
  · rfl
  · rw [hLast]
    simp

/-- A text that ends like a word is a name, without the blanks in front of it. -/
theorem parse_of_getLast? {text : String} (h : text.toList.getLast? = some 's') :
    parse text = .identifier (String.ofList (stripStart text.toList)) := by
  obtain ⟨hStrip, hLast⟩ := strip_of_getLast? h rfl
  have hOpen : isParenthesised (stripStart text.toList) = false := by
    rw [Bool.eq_false_iff]
    intro hParenthesised
    obtain ⟨body, hBody, -⟩ := isParenthesised_iff.mp hParenthesised
    rw [hBody, List.getLast?_concat] at hLast
    cases hLast
  have hBare : unparenthesise text = String.ofList (stripStart text.toList) := by
    rw [unparenthesise, unparenthesiseChars]
    simp [hStrip, hOpen]
  have hIndex := index_eq_none hLast
  rw [parse, hBare, ofBare, literal?_eq_none hLast]
  dsimp only
  split
  · next hError =>
      rw [hIndex] at hError
      cases hError
  · next hSome =>
      rw [hIndex] at hSome
      cases hSome
  · rfl

/-- Where a text assigns axes, its owner is found under its base. -/
theorem base?_of_axes {text : String} (h : (DottedName.parse text).field = "Axes") :
    ∃ base, (parse text).base? = some base ∧
      Name.stripIndex (DottedName.parse text).owner = Name.stripIndex base := by
  obtain ⟨front, rest, hText, hField⟩ : ∃ front rest, text.toList = front ++ '.' :: rest ∧
      rest.reverse.takeWhile (· ≠ '.') = "Axes".toList.reverse := by
    have hSplit := takeWhile_append_dropWhile (p := (· ≠ '.')) (l := text.toList)
    unfold DottedName.parse at h
    dsimp only at h
    split at h
    · exact absurd h (by decide)
    · next c rest hDrop =>
        have hHead := List.head?_dropWhile_not (· ≠ '.') text.toList
        rw [hDrop] at hHead hSplit
        obtain rfl : c = '.' := by simpa using hHead
        refine ⟨_, rest, hSplit.symm, ?_⟩
        rw [← h, String.toList_ofList, reverse_reverse]
  have hDot : '.' ∈ text.toList := by simp [hText]
  have hLast : text.toList.getLast? = some 's' := by
    obtain ⟨more, hMore⟩ := takeWhile_prefix (p := (· ≠ '.')) (l := rest.reverse)
    have hRest : rest.reverse.head? = some 's' := by
      rw [← hMore, hField]
      rfl
    rw [List.head?_reverse] at hRest
    simp [hText, List.getLast?_append, List.getLast?_cons, hRest]
  rw [parse_of_getLast? hLast]
  refine ⟨_, rfl, ?_⟩
  obtain ⟨gap, hGap, hSplit⟩ := exists_gap text.toList
  rw [owner_parse hDot, String.toList_ofList]
  generalize stripStart text.toList = body at hSplit
  rw [hSplit, stripIndex_gap hGap]

end Phrase

/-! ### The workspace of a function -/

/-- The registry does not have the object, which is new from where it stands. -/
def Registry.Lacks (r : Registry) (id : ObjectId) : Prop :=
  ¬ r.Has id

namespace Store

/-- The names under which the store has objects, those of the bodies included. -/
def names (s : Store) (r : Registry) : List String :=
  s.objects.keys ++ (s.solarSystem.toList.flatMap r.owned).map fun id => (r.object id).name

theorem mem_names_of_find? {s : Store} {r : Registry} {text : String} {id : ObjectId}
    (h : s.find? r text = some id) (hName : stripIndex text ≠ "SolarSystem") :
    stripIndex text ∈ s.names r := by
  dsimp only [find?] at h
  rw [if_neg hName] at h
  rcases (Option.orElse_eq_some _ _ _).mp h with hKey | ⟨-, hBody⟩
  · exact mem_append_left _ (mem_map.mpr ⟨_, Table.mem_of_get? hKey, rfl⟩)
  · obtain ⟨system, hSystem, hFound⟩ := Option.bind_eq_some_iff.mp hBody
    refine mem_append_right _ (mem_map.mpr ⟨id, ?_, by simpa using List.find?_some hFound⟩)
    rw [hSystem]
    simpa using mem_of_find?_eq_some hFound

variable {kinds : ParameterKinds} {r r' : Registry} {s : Store}

/-- Writing new objects changes nothing of what the names of a store lead to. -/
theorem Sound.find?_writes (hSound : s.Sound r) (hForest : r.Forest) (h : Writes kinds r.Lacks r r')
    (text : String) : s.find? r' text = s.find? r text := by
  dsimp only [find?]
  cases hSystem : s.solarSystem with
  | none => rfl
  | some system =>
    have hHas := (hSound.system hSystem).1.has
    have hBody : r'.findOwned system (stripIndex text) = r.findOwned system (stripIndex text) := by
      rw [findOwned, findOwned, owned, h.entry hHas (not_not_intro hHas)]
      refine List.find?_congr fun part hPart => ?_
      have hOld := hForest.has hPart
      rw [object, h.entry hOld (not_not_intro hOld)]
      rfl
    rw [Option.bind_some, Option.bind_some, hBody]

theorem Sound.has_of_find? (hSound : s.Sound r) (hForest : r.Forest) {text : String} {id : ObjectId}
    (h : s.find? r text = some id) : r.Has id := by
  dsimp only [find?] at h
  split at h
  · exact (hSound.system h).1.has
  · rcases (Option.orElse_eq_some _ _ _).mp h with hKey | ⟨-, hBody⟩
    · exact (hSound.root (Table.mem_of_get? hKey)).has
    · obtain ⟨system, -, hFound⟩ := Option.bind_eq_some_iff.mp hBody
      exact hForest.has (mem_of_find?_eq_some hFound)

end Store

/-- The script that a function with these local names is called in: its objects when the call
begins, and the store that gives them their names. -/
structure Surroundings (kinds : ParameterKinds) (r : Registry) (globals : Store) (names : List String) :
    Prop where
  apart : kinds.Apart
  forest : r.Forest
  store : globals.Sound r
  valid : ∀ {name}, name ∈ names → Name.isValid name = true ∧ name ≠ "SolarSystem"
  free : ∀ {name key}, name ∈ names → key ∈ globals.names r → Name.isUnder name key = false

namespace Workspace

/-- The workspace of a function body with these local names, called in a script with the registry
`r`. The local names lead to new objects, and the Parameters under a local name belong to new
objects. -/
structure Sheltered (kinds : ParameterKinds) (r : Registry) (globals : Store) (names : List String)
    (w : Workspace) : Prop where
  writes : Writes kinds r.Lacks r w.registry
  outer : w.scope.outer = some globals
  system : w.scope.store.solarSystem = none
  fresh : ∀ {key id}, w.scope.store.objects.get? key = some id → r.Lacks id ∧ w.registry.Has id
  named : ∀ {name}, name ∈ names →
    ∃ id, w.scope.store.objects.get? name = some id ∧ (w.registry.object id).parameter? = none
  owners : ∀ {name key id p owner}, name ∈ names → Name.isUnder name key = true →
    w.scope.store.objects.get? key = some id → (w.registry.object id).parameter? = some p →
    p.owner = some owner → r.Lacks owner

namespace Sheltered

variable {kinds : ParameterKinds} {r r' : Registry} {globals : Store} {names : List String}
  {w w' : Workspace}
variable {id c : ObjectId} {name text axisType : String} {axes : Assembly}

section

variable (h : w.Sheltered kinds r globals names)
include h

theorem of_writes (hWrites : Writes kinds r.Lacks w.registry r') :
    Sheltered kinds r globals names { w with registry := r' } where
  writes := h.writes.trans hWrites
  outer := h.outer
  system := h.system
  fresh hKey := ⟨(h.fresh hKey).1, hWrites.has (h.fresh hKey).2⟩
  named hName := by
    obtain ⟨id, hKey, hNone⟩ := h.named hName
    exact ⟨id, hKey, (hWrites.parameter (h.fresh hKey).2).trans hNone⟩
  owners hName hUnder hKey hParameter := by
    rw [hWrites.parameter (h.fresh hKey).2] at hParameter
    exact h.owners hName hUnder hKey hParameter

/-- The parts of new objects are new. -/
theorem lacks_part (hId : r.Lacks id) (hc : c ∈ w.registry.owned id) :
    r.Lacks c := by
  rcases h.writes.parts hc with hOld | hNew
  · rw [owned_of_not_has hId] at hOld
    cases hOld
  · exact hNew

theorem lacks_of_findProperty {i : Nat} {part property : String}
    (hId : r.Lacks id) (hFound : w.registry.findProperty id part property = some (c, i)) : r.Lacks c := by
  rcases holder_of_findProperty hFound with rfl | hc
  · exact hId
  · exact h.lacks_part hId hc

section

variable (hs : Surroundings kinds r globals names)
include hs

theorem find?_eq
    (text : String) :
    w.find? text =
      ((if stripIndex text = "SolarSystem" then none
        else w.scope.store.objects.get? (stripIndex text)) <|> globals.find? r text) := by
  rw [find?, Scope.find?, h.outer, Option.bind_some, hs.store.find?_writes hs.forest h.writes, Store.find?,
    h.system]
  simp

theorem has_of_find?
    {text : String} {id : ObjectId} (hFind : w.find? text = some id) : w.registry.Has id := by
  rw [h.find?_eq hs] at hFind
  rcases (Option.orElse_eq_some _ _ _).mp hFind with hHere | ⟨-, hThere⟩
  · split at hHere
    · cases hHere
    · exact (h.fresh hHere).2
  · exact h.writes.has (hs.store.has_of_find? hs.forest hThere)

/-- A local name leads to a new object that is no Parameter. -/
theorem find?_local
    (hName : name ∈ names) (hText : stripIndex text = name) :
    ∃ id, w.find? text = some id ∧ r.Lacks id ∧ (w.registry.object id).parameter? = none := by
  obtain ⟨id, hKey, hNone⟩ := h.named hName
  refine ⟨id, ?_, (h.fresh hKey).1, hNone⟩
  rw [h.find?_eq hs, hText, if_neg (hs.valid hName).2, hKey]
  rfl

/-- What a text under a local name leads to is in the local store. -/
theorem get?_of_find?
    (hName : name ∈ names) (hUnder : isUnder name text = true) (hFind : w.find? text = some id) :
    isUnder name (stripIndex text) = true ∧
      w.scope.store.objects.get? (stripIndex text) = some id := by
  have hKey := isUnder_stripIndex (hs.valid hName).1 hUnder
  refine ⟨hKey, ?_⟩
  rw [h.find?_eq hs] at hFind
  rcases (Option.orElse_eq_some _ _ _).mp hFind with hHere | ⟨-, hThere⟩
  · split at hHere
    · cases hHere
    · exact hHere
  · have hSystem : stripIndex text ≠ "SolarSystem" := by
      intro hSame
      obtain ⟨rest, hRest⟩ := isUnder_iff.mp hKey
      rw [hSame] at hRest
      have hDot : '.' ∈ "SolarSystem".toList := by
        rw [hRest]
        simp
      exact absurd hDot (by decide)
    rw [hs.free hName (Store.mem_names_of_find? hThere hSystem)] at hKey
    cases hKey

end

theorem note (level : Level) (text : String) :
    (w.note level text).Sheltered kinds r globals names :=
  ⟨h.writes, h.outer, h.system, h.fresh, h.named, h.owners⟩

end

theorem regular_parameter {kind : ParameterKind} {p : SystemParameter}
    (h : Table.get? kinds (parse name).field = some kind) :
    Object.Regular kinds ⟨name, (parse name).field, .parameter, {}, .parameter p⟩ where
  named := by
    rw [Table.contains, h]
    rfl
  typed _ := rfl

/-- A Parameter under a local name belongs to a new object. -/
theorem withParameter (h : w.Sheltered kinds r globals names) (hs : Surroundings kinds r globals names)
    {name : String} {kind : ParameterKind} {p : SystemParameter} (hDot : '.' ∈ name.toList)
    (hKind : Table.get? kinds (parse name).field = some kind)
    (hDescribed : Parameter.describe w kind name (parse name).owner
      (parse name).dependency = .ok p) :
    Sheltered kinds r globals names (Parameter.withParameter w name
        ⟨name, (parse name).field, .parameter, {}, .parameter p⟩) ∧
      Writes kinds r.Lacks w.registry (Parameter.withParameter w name
        ⟨name, (parse name).field, .parameter, {}, .parameter p⟩).registry := by
  generalize hObject : (⟨name, (parse name).field, .parameter, {}, .parameter p⟩ : Object) = o
  obtain ⟨hGrows, hLoose⟩ := grows_push (.refl w.registry) (e := { object := o }) (by simp)
  have hWrites : Writes kinds r.Lacks w.registry (Parameter.withParameter w name o).registry :=
    .of_grows hGrows (regular_push h.writes.regular (hObject ▸ regular_parameter hKind))
  have hNew : r.Lacks (w.registry.push { object := o }).1 := fun hOld => hLoose.new (h.writes.has hOld)
  have hGet : ∀ {key : String}, key ≠ name →
      (Parameter.withParameter w name o).scope.store.objects.get? key = w.scope.store.objects.get? key :=
    fun hne => Table.get?_insert_of_ne hne _ _
  have hSelf : (Parameter.withParameter w name o).scope.store.objects.get? name =
      some (w.registry.push { object := o }).1 := Table.get?_insert_self _ _ _
  refine ⟨⟨h.writes.trans hWrites, h.outer, h.system, ?_, ?_, ?_⟩, hWrites⟩
  · intro key id hKey
    by_cases hSame : key = name
    · rw [hSame, hSelf] at hKey
      cases hKey
      exact ⟨hNew, hLoose.has⟩
    · rw [hGet hSame] at hKey
      exact ⟨(h.fresh hKey).1, hWrites.has (h.fresh hKey).2⟩
  · intro other hOther
    obtain ⟨id, hKey, hNone⟩ := h.named hOther
    have hSame : other ≠ name := by
      rintro rfl
      exact dot_not_mem_of_isValid (hs.valid hOther).1 hDot
    exact ⟨id, (hGet hSame).trans hKey, (hWrites.parameter (h.fresh hKey).2).trans hNone⟩
  · intro other key id q owner hOther hUnder hKey hParameter hOwner
    by_cases hSame : key = name
    · rw [hSame, hSelf] at hKey
      cases hKey
      have hq : (object (w.registry.push { object := o }).2
          (w.registry.push { object := o }).1).parameter? = some p := by
        rw [object, entry_push_id, ← hObject]
        rfl
      obtain rfl : p = q := Option.some.inj (hq.symm.trans hParameter)
      rw [hSame] at hUnder
      obtain ⟨id, hFind, hLacks, -⟩ :=
        h.find?_local hs hOther (stripIndex_of_isValid (hs.valid hOther).1)
      rw [(Parameter.describe_eq_ok hDescribed).2, owner_of_isUnder (hs.valid hOther).1 hUnder,
        hFind] at hOwner
      cases hOwner
      exact hLacks
    · rw [hGet hSame] at hKey
      rw [hWrites.parameter (h.fresh hKey).2] at hParameter
      exact h.owners hOther hUnder hKey hParameter hOwner

theorem regular_axisSystem (hApart : kinds.Apart) (h : Catalog.axisSystem axisType = .ok axes) :
    axes.Regular kinds := by
  unfold Catalog.axisSystem at h
  split at h
  · next hKnown =>
      cases h
      refine Assembly.regular_ofObject ⟨?_, nofun⟩
      refine hApart axisType ?_
      have hMem : axisType ∈ Catalog.axisTypes := by simpa using hKnown
      simp [hMem]
  · cases h

/-- Axes are attached to the object of a local name. -/
theorem withAxes (h : w.Sheltered kinds r globals names) (hs : Surroundings kinds r globals names)
    {lhs : String} {system : Object} (hTarget : (Phrase.parse lhs).Within names)
    (hField : (parse lhs).field = "Axes")
    (hFound : w.findOfType? (parse lhs).owner .coordinateSystem = some id)
    (hKnown : Catalog.axisSystem axisType = .ok axes)
    (hSet : (w.registry.object id).set "Axes" (.string axisType) = .ok system) :
    Writes kinds r.Lacks w.registry ((w.registry.setObject id system).replaceOwned id .axisSystem axes) := by
  obtain ⟨base, hBase, hOwner⟩ := Phrase.base?_of_axes hField
  have hLocal := hTarget base hBase
  obtain ⟨found, hFind, hLacks, -⟩ :=
    h.find?_local hs hLocal (hOwner.trans (stripIndex_of_isValid (hs.valid hLocal).1))
  have hSame := (find?_of_findOfType? hFound).symm.trans hFind
  cases hSame
  have hSetObject : Writes kinds r.Lacks w.registry (w.registry.setObject id system) :=
    writes_setObject h.writes.regular hLacks (Object.takes_set hSet).sameKind
  exact hSetObject.trans
    (writes_replaceOwned hSetObject.regular hLacks .axisSystem (regular_axisSystem hs.apart hKnown))

/-- A check of the body writes new objects only. -/
theorem changes {written : String → Prop} (hs : Surroundings kinds r globals names)
    (hWritten : ∀ {text}, written text → (Phrase.parse text).Within names)
    (h : w.Sheltered kinds r globals names) (hChanges : Changes kinds written w w') :
    w'.Sheltered kinds r globals names ∧ Writes kinds r.Lacks w.registry w'.registry := by
  induction hChanges with
  | refl => exact ⟨h, .refl h.writes.regular⟩
  | note _ level text ih => exact ⟨ih.1.note level text, ih.2⟩
  | parameter _ dotted _ _ known described _ ih =>
    obtain ⟨h', hWrites⟩ := ih.1.withParameter hs dotted known described
    exact ⟨h', ih.2.trans hWrites⟩
  | axes _ target field found known set ih =>
    have hWrites := ih.1.withAxes hs (hWritten target) field found known set
    exact ⟨ih.1.of_writes hWrites, ih.2.trans hWrites⟩

end Sheltered

end Workspace

/-! ### What texts stand for -/

/-- The accessor stands, and if `inside` holds it writes only what the registry `r` lacks. -/
structure Accessor.Contained (r : Registry) (inside : Prop) (now : Registry) (a : Accessor) : Prop where
  standing : a.Standing now
  written : inside → ∀ id ∈ a.written now, r.Lacks id

namespace Accessor

variable {kinds : ParameterKinds} {changed : ObjectId → Prop} {r r' now : Registry} {inside : Prop}
  {a : Accessor}

theorem Contained.later (h : a.Contained r inside now) (hWrites : Writes kinds changed now r') :
    a.Contained r inside r' where
  standing := h.standing.later hWrites
  written := by
    rw [h.standing.written_later hWrites]
    exact h.written

theorem contained_literal (h : a.kind.isLiteral = true) : a.Contained r inside now := by
  cases a with
  | number d x | string d s | boolean d b | onOff d b => exact ⟨⟨nofun, nofun⟩, nofun⟩
  | property d p => cases h
  | whole d k target => cases k <;> cases h
  | element d name array row column => cases h

theorem contained_property {d : String} {p : PropertyRef}
    (h : inside → ∀ {c i}, p.target = some (c, i) → r.Lacks c) :
    (property d p).Contained r inside now := by
  refine ⟨⟨nofun, nofun⟩, fun hInside id hId => ?_⟩
  cases hTarget : p.target with
  | none => simp [written, hTarget] at hId
  | some target =>
    have hSame : id = target.1 := by simpa [written, hTarget] using hId
    rw [hSame]
    exact h hInside hTarget

/-- An object as a whole is never taken for a plain object if it is a Parameter. -/
theorem contained_ofObject {d : String} {id : ObjectId} (hRegular : now.Regular kinds) (hHas : now.Has id)
    (hWritten : inside → ∀ k, ∀ o ∈ (whole d k (some id)).written now, r.Lacks o) :
    (ofObject now d id).Contained r inside now := by
  refine ⟨⟨?_, ?_⟩, fun hInside => hWritten hInside _⟩
  · intro d' k id' hSame
    cases hSame
    exact hHas
  · intro d' id' hSame
    rw [ofObject, whole.injEq, Option.some.injEq] at hSame
    obtain ⟨-, hKind, rfl⟩ := hSame
    have hNot : (now.object id).isParameter = false := by
      unfold WholeKind.of at hKind
      cases hParameter : (now.object id).isParameter with
      | false => rfl
      | true =>
        rw [hParameter] at hKind
        split at hKind
        · cases hKind
        · split at hKind
          · cases hKind
          · split at hKind <;> cases hKind
    cases hSome : (now.object id).parameter? with
    | none => rfl
    | some p =>
      rw [(hRegular id hHas).typed (by rw [hSome]; rfl)] at hNot
      cases hNot

end Accessor

namespace Workspace.Sheltered

variable {kinds : ParameterKinds} {r : Registry} {globals : Store} {names : List String} {w : Workspace}
variable {w' : Workspace} {id : ObjectId} {d : String}

section

variable (hs : Surroundings kinds r globals names) (h : w.Sheltered kinds r globals names)
include hs h

/-- The Parameter of a text under a local name is in the local store. -/
theorem provides_local
    {name : String} (hGiven : Parameter.Provides kinds name w w' id) :
    w'.registry.Has id ∧ ∀ {base}, base ∈ names → isUnder base name = true →
      ∃ key, isUnder base key = true ∧ w'.scope.store.objects.get? key = some id := by
  cases hGiven with
  | known hKnown =>
    have hFind := find?_of_findOfType? hKnown
    exact ⟨h.has_of_find? hs hFind, fun hBase hUnder => ⟨_, h.get?_of_find? hs hBase hUnder hFind⟩⟩
  | new => exact ⟨has_push.mpr (.inr rfl), fun _ hUnder => ⟨name, hUnder, Table.get?_insert_self _ _ _⟩⟩

theorem lacks_owner
    (hInside : Name.Inside names d) {owner : ObjectId} (hFind : w.find? (parse d).owner = some owner) :
    r.Lacks owner := by
  obtain ⟨base, hBase, hUnder⟩ := hInside
  obtain ⟨id, hId, hLacks, -⟩ := h.find?_local hs hBase (stripIndex_of_isValid (hs.valid hBase).1)
  rw [owner_of_isUnder (hs.valid hBase).1 hUnder, hId] at hFind
  cases hFind
  exact hLacks

theorem parameter_contained
    (hDot : '.' ∈ d.toList) (hTrim : trim d = d) (hGiven : Parameter.Provides kinds d w w' id) :
    (ofObject w'.registry d id).Contained r (Name.Inside names d) w'.registry := by
  obtain ⟨hHas, hKey⟩ := h.provides_local hs hGiven
  have hChanges : Changes kinds (fun _ => False) w w' := hGiven.changes hDot hTrim
  have h' := (h.changes hs nofun hChanges).1
  refine contained_ofObject h'.writes.regular hHas ?_
  rintro ⟨base, hBase, hUnder⟩ k o ho
  obtain ⟨key, hKeyUnder, hGet⟩ := hKey hBase hUnder
  cases hParameter : (w'.registry.object id).parameter? with
  | none =>
    rw [written_whole hParameter] at ho
    rw [mem_singleton.mp ho]
    exact (h'.fresh hGet).1
  | some p =>
    have hOwner : p.owner = some o := by simpa [written, hParameter] using ho
    exact h'.owners hBase hKeyUnder hGet hParameter hOwner

theorem object_contained
    (hFind : w.find? d = some id) : (ofObject w.registry d id).Contained r (d ∈ names) w.registry := by
  refine contained_ofObject h.writes.regular (h.has_of_find? hs hFind) fun hInside k => ?_
  obtain ⟨found, hFound, hLacks, hNone⟩ :=
    h.find?_local hs hInside (stripIndex_of_isValid (hs.valid hInside).1)
  rw [hFind] at hFound
  cases hFound
  rw [written_whole hNone]
  intro o ho
  rw [mem_singleton.mp ho]
  exact hLacks

theorem means_contained
    (hTrim : trim d = d) {a : Accessor} (hMeans : Classify.Means kinds d w w' a) :
    a.Contained r ((Phrase.identifier d).Within names) w'.registry := by
  have hInside : '.' ∈ d.toList → (Phrase.identifier d).Within names → Name.Inside names d :=
    fun hDot hWithin => ⟨_, hWithin _ rfl, isUnder_takeWhile hDot⟩
  cases hMeans with
  | parameter hDot hGiven =>
    have hContained := h.parameter_contained hs hDot hTrim hGiven
    exact ⟨hContained.standing, fun hWithin => hContained.written (hInside hDot hWithin)⟩
  | property hDot hName _ hOwner _ =>
    refine contained_property fun hWithin {c i} hTarget => ?_
    exact h.lacks_of_findProperty (h.lacks_owner hs (hInside hDot hWithin) (hName ▸ hOwner)) hTarget
  | object hDot hFind =>
    have hContained := h.object_contained hs hFind
    have hWhole : d.toList.takeWhile (· ≠ '.') = d.toList := by
      refine takeWhile_eq_self_iff.mpr fun c hc => decide_eq_true ?_
      rintro rfl
      exact hDot hc
    refine ⟨hContained.standing, fun hWithin => hContained.written ?_⟩
    have hBase := hWithin _ rfl
    rwa [hWhole, String.ofList_toList] at hBase
  | literal hLiteral _ => exact contained_literal hLiteral

end

theorem noteCreated_contained {inside : Prop} {a : Accessor} (ha : a.Contained r inside w.registry) :
    Meets (Classify.noteCreated a) w (fun _ => True) fun w' b => b.Contained r inside w'.registry :=
  Step.meets_note_bind (.pure ha)

/-- A text that begins with a local name is written to new objects only. -/
theorem classify_contained (hs : Surroundings kinds r globals names) (h : w.Sheltered kinds r globals names)
    (options : ClassifyOptions) (text : String) :
    Meets (classify kinds options text) w (fun _ => True) fun w' a =>
      a.Contained r ((Phrase.parse text).Within names) w'.registry := by
  have hPlain := Phrase.plain_parse text
  unfold classify
  cases hPhrase : Phrase.parse text with
  | literal a =>
    rw [hPhrase] at hPlain
    exact noteCreated_contained (Accessor.contained_literal hPlain)
  | malformed e => exact .throw _ trivial
  | element d name row column =>
    refine .get (.lift_bind trivial fun array hArray => ?_)
    obtain ⟨hFind, -⟩ := Classify.arrayOf_eq_ok hArray
    have hAny : ∀ (phrase : Phrase) (w : Workspace),
        Meets (Classify.resolve kinds .index phrase) w (fun _ => True) fun _ _ => True :=
      fun _ _ => ⟨fun _ => trivial, fun _ => trivial⟩
    refine .bind (hAny row w) fun row' w₁ _ => .bind (hAny column w₁) fun column' w₂ _ => .get ?_
    refine noteCreated_contained ⟨⟨nofun, nofun⟩, fun hInside id hId => ?_⟩
    have hName := hInside name rfl
    obtain ⟨found, hFound, hLacks, -⟩ :=
      h.find?_local hs hName (Name.stripIndex_of_isValid (hs.valid hName).1)
    rw [hFind] at hFound
    cases hFound
    dsimp only [Accessor.bind, Accessor.written] at hId
    split at hId
    · rw [List.mem_singleton.mp hId]
      exact hLacks
    · cases hId
  | identifier d =>
    rw [hPhrase] at hPlain
    have hMeans := Classify.identifier_means kinds options d w
    exact .bind (hMeans.mono (fun _ _ => trivial) fun _ _ => h.means_contained hs hPlain) fun a w' =>
      noteCreated_contained

/-- What is known of an accessor that a check of the body has made. -/
theorem contained_of_classified {written : String → Prop} (hs : Surroundings kinds r globals names)
    (hWritten : ∀ {text}, written text → (Phrase.parse text).Within names)
    (h : w.Sheltered kinds r globals names) {text : String} {a : Accessor}
    (ha : Classified kinds written w w' text a) :
    a.Contained r ((Phrase.parse text).Within names) w'.registry := by
  obtain ⟨options, w₁, w₂, hBefore, hRun, hAfter⟩ := ha
  have h₁ := (h.changes hs hWritten hBefore).1
  have hChanging : (classify kinds options text).Changing kinds written := classify_changing options text
  have hStep := hChanging w₁
  rw [hRun] at hStep
  have h₂ := (h₁.changes hs hWritten hStep).1
  exact ((Meets.of_ok hRun).mp (h₁.classify_contained hs options text)).later
    (h₂.changes hs hWritten hAfter).2

end Workspace.Sheltered

end Mission
