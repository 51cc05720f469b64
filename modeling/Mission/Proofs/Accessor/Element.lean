import Mission.Proofs.Accessor.Places
import Mission.Proofs.Checking.Slots
import Mission.Proofs.Classify.Stability
import Mission.Proofs.Real.Value

/-! Elements of arrays. An element is an array and two accessors for its indices. The indices are
reals that count from one; they become positions that count from zero, and indices again in
messages, all of them machine words. An index beyond the largest word is taken to be that word,
which no array reaches. -/
namespace Mission

open Registry Outcome Mission.Real

/-! ### Indices and positions -/

namespace Real

/-- The real is the index `n`, counted from one. -/
def IsIndex (x : Float) (n : Nat) : Prop :=
  1 ≤ n ∧ number? x = some (n : ℚ)

theorem number?_one : number? 1.0 = some 1 := by
  have hForm : form 1.0 = .finite false ⟨hiddenBit, -52, true⟩ := rfl
  rw [number?, hForm]
  simp only [Form.number?, Binary.number, hiddenBit, Bool.false_eq_true, if_false]
  norm_num

/-- The largest word that an index can become. -/
def lastWord : Nat :=
  UInt64.size - 1

theorem IsIndex.toUInt64 {x : Float} {n : Nat} (h : IsIndex x n) : x.toUInt64.toNat = min n lastWord :=
  toNat_toUInt64 h.2

end Real

namespace Accessor

variable {d name : String} {x y : Float} {n k : Nat}

theorem position_of_index (h : IsIndex x n) : position d x = .ok (min n lastWord - 1) := by
  have hIntegral : isIntegral x = true := (isIntegral_iff x).mpr ⟨n, by simpa using h.2⟩
  have hLarge : ¬ x < 1.0 := by
    rw [lt_iff_number h.2 number?_one, not_lt]
    exact_mod_cast h.1
  rw [position, if_neg (by simp [hIntegral, hLarge]), h.toUInt64]

theorem position_of_not_index (h : ∀ n, ¬ IsIndex x n) : position d x = .error (.invalidIndex d x) := by
  rw [position, if_pos]
  rw [Bool.or_eq_true, Bool.not_eq_true', decide_eq_true_eq, ← Bool.not_eq_true, isIntegral_iff]
  by_contra hIndex
  obtain ⟨⟨n, hn⟩, hLarge⟩ := not_or.mp hIndex |>.imp_left not_not.mp
  rw [lt_iff_number hn number?_one, not_lt] at hLarge
  have hPos : 1 ≤ n := by exact_mod_cast hLarge
  refine h n.toNat ⟨by omega, ?_⟩
  rw [hn, ← Int.cast_natCast, Int.toNat_of_nonneg (by omega)]

/-- The way from an index to its position and back stays within machine words: the index becomes a
word, one can be taken from it, and one can be added again. -/
def StaysInWords (d : String) (x : Float) (n : Nat) : Prop :=
  x.toUInt64.toNat = min n lastWord ∧
    ∃ i, position d x = .ok i ∧ i + 1 = x.toUInt64.toNat ∧ Object.shownIndex i = i + 1

theorem staysInWords_of_index (h : IsIndex x n) : StaysInWords d x n := by
  have hPos : 1 ≤ min n lastWord := by
    have := h.1
    simp only [lastWord, UInt64.size]
    omega
  refine ⟨h.toUInt64, min n lastWord - 1, position_of_index h, ?_, ?_⟩
  · rw [h.toUInt64, Nat.sub_add_cancel hPos]
  · rw [Object.shownIndex, Nat.sub_add_cancel hPos]
    refine Nat.mod_eq_of_lt ?_
    simp only [lastWord, UInt64.size]
    omega

theorem indexOf_of_evaluateReal {a : Accessor} {r : Registry} (h : a.evaluateReal r = .ok x) :
    indexOf a (a.evaluate r) = position a.description x := by
  obtain ⟨_, hRequire, h⟩ := bind_eq_ok.mp h
  obtain ⟨v, hValue, h⟩ := bind_eq_ok.mp h
  rw [indexOf, hRequire, hValue]
  change (liftType v.asReal >>= fun x => position a.description x) = _
  rw [h]
  rfl

end Accessor

/-! ### Entries -/

namespace Matrix

variable {m : Matrix} {i j : Nat}

/-- The entries fit into the memory of a machine with words of 64 bits. -/
def Addressable (m : Matrix) : Prop :=
  8 * m.data.size < UInt64.size

theorem get?_eq (m : Matrix) (i j : Nat) :
    m.get? i j = if i < m.rows ∧ j < m.cols then some (m.entry i j) else none := by
  rw [entry, get?]
  by_cases hIn : i < m.rows ∧ j < m.cols
  · have hAt : i * m.cols + j < m.data.size := by
      rw [m.size_data]
      calc i * m.cols + j < i * m.cols + m.cols := by omega
        _ = (i + 1) * m.cols := (Nat.succ_mul i m.cols).symm
        _ ≤ m.rows * m.cols := Nat.mul_le_mul_right _ hIn.1
    rw [if_pos (by simpa using hIn), if_pos hIn, Array.getElem?_eq_getElem hAt]
    rfl
  · rw [if_neg (by simpa using hIn), if_neg hIn]

/-- Writing an entry writes no other one. -/
theorem entry_set (hRow : i < m.rows) (hColumn : j < m.cols) (x : Float) (k l : Nat) :
    (m.set i j x).entry k l = if k = i ∧ l = j then x else m.entry k l := by
  have hIn : (decide (i < m.rows) && decide (j < m.cols)) = true := by simp [hRow, hColumn]
  split
  · next hSame =>
    obtain ⟨rfl, rfl⟩ := hSame
    rw [entry, get?_set (by rw [get?_eq, if_pos ⟨hRow, hColumn⟩]; rfl)]
    rfl
  · next hOther =>
    rw [entry, entry, get?, get?, set, if_pos hIn]
    by_cases hIn' : (decide (k < m.rows) && decide (l < m.cols)) = true
    · rw [if_pos hIn', if_pos hIn', Array.getElem?_setIfInBounds_ne]
      intro hPlace
      simp only [Bool.and_eq_true, decide_eq_true_eq] at hIn'
      have hDiv := congrArg (· / m.cols) hPlace
      have hMod := congrArg (· % m.cols) hPlace
      simp only [Nat.mul_add_mod_self_right, Nat.mod_eq_of_lt hColumn, Nat.mod_eq_of_lt hIn'.2] at hMod
      simp only [Nat.mul_comm _ m.cols, Nat.mul_add_div (by omega : 0 < m.cols), Nat.div_eq_of_lt hColumn,
        Nat.div_eq_of_lt hIn'.2] at hDiv
      exact hOther ⟨by omega, hMod.symm⟩
    · rw [if_neg hIn', if_neg hIn']

/-- The indices of an array are words. -/
theorem Addressable.lt_lastWord (h : m.Addressable) (hRows : 1 ≤ m.rows) (hCols : 1 ≤ m.cols) :
    m.rows < lastWord ∧ m.cols < lastWord := by
  unfold Addressable at h
  rw [m.size_data] at h
  have hRows' : m.rows ≤ m.rows * m.cols := Nat.le_mul_of_pos_right _ hCols
  have hCols' : m.cols ≤ m.rows * m.cols := Nat.le_mul_of_pos_left _ hRows
  simp only [lastWord, UInt64.size] at h ⊢
  omega

/-- An index beyond the largest word is beyond every array. -/
theorem Addressable.inside_iff {n k : Nat} (h : m.Addressable) (hn : 1 ≤ n) (hk : 1 ≤ k) :
    (min n lastWord - 1 < m.rows ∧ min k lastWord - 1 < m.cols) ↔ n ≤ m.rows ∧ k ≤ m.cols := by
  constructor
  · rintro ⟨hRow, hColumn⟩
    have hWords := h.lt_lastWord (by omega) (by omega)
    omega
  · omega

end Matrix

namespace Object

variable {o : Object} {i j : Nat}

theorem element_eq {m : Matrix} (h : o.content = .array (some m)) (i j : Nat) :
    o.element i j = if i < m.rows ∧ j < m.cols then .ok (m.entry i j) else .error (o.indexError m i j) := by
  have hValues : o.arrayValues = .ok m := by rw [arrayValues, h]
  by_cases hIn : i < m.rows ∧ j < m.cols
  · rw [if_pos hIn, element, hValues]
    simp [Matrix.get?_eq, hIn, Bind.bind, Except.bind, pure, Except.pure]
  · rw [if_neg hIn, element, hValues]
    simp [Matrix.get?_eq, hIn, Bind.bind, Except.bind, throw, throwThe, MonadExceptOf.throw]

theorem setElement_eq {m : Matrix} (h : o.content = .array (some m)) (i j : Nat) (x : Float) :
    o.setElement i j x =
      if i < m.rows ∧ j < m.cols then .ok { o with content := .array (some (m.set i j x)) }
      else .error (o.indexError m i j) := by
  have hValues : o.arrayValues = .ok m := by rw [arrayValues, h]
  by_cases hIn : i < m.rows ∧ j < m.cols
  · rw [if_pos hIn, setElement, hValues]
    simp [Matrix.get?_eq, hIn, Bind.bind, Except.bind, pure, Except.pure]
  · rw [if_neg hIn, setElement, hValues]
    simp [Matrix.get?_eq, hIn, Bind.bind, Except.bind, throw, throwThe, MonadExceptOf.throw]

theorem arrayValues_of_unsized (h : o.content = .array none) :
    o.arrayValues = .error (.arraySizeNotSet o.name) := by
  rw [arrayValues, h]

end Object

/-! ### Elements -/

namespace Accessor

variable {a row column : Accessor} {d name : String} {r : Registry} {id : ObjectId} {x y : Float}

/-- Reading fails with this error, and so does writing anything that is a real. -/
def Fails (a : Accessor) (r : Registry) (e : AccessError) : Prop :=
  a.evaluate r = .error e ∧ ∀ v z, v.asReal = .ok z → a.setValue r v = .error e

/-- Reading gives the entry in row `n` and column `k`, counted from one, and writing changes this
entry of the array and nothing else. -/
def Accesses (a : Accessor) (r : Registry) (id : ObjectId) (m : Matrix) (n k : Nat) : Prop :=
  a.evaluate r = .ok (.real (m.entry (n - 1) (k - 1))) ∧
    ∀ v z, v.asReal = .ok z → ∃ m' : Matrix,
      a.setValue r v = .ok (r.setObject id { r.object id with content := .array (some m') }) ∧
        m'.dims = m.dims ∧ ∀ i j, m'.entry i j = if i = n - 1 ∧ j = k - 1 then z else m.entry i j

/-- What an element accessor does when its indices have the values `x` and `y`. -/
structure Indexes (a row column : Accessor) (r : Registry) (id : ObjectId) (values : Option Matrix)
    (x y : Float) :
    Prop where
  words : ∀ n, (IsIndex x n → StaysInWords row.description x n) ∧
    (IsIndex y n → StaysInWords column.description y n)
  badRow : (∀ n, ¬ IsIndex x n) → a.Fails r (.invalidIndex row.description x)
  badColumn : ∀ n, IsIndex x n → (∀ k, ¬ IsIndex y k) → a.Fails r (.invalidIndex column.description y)
  unsized : ∀ n k, IsIndex x n → IsIndex y k → values = none →
    a.Fails r (.object (.arraySizeNotSet (r.object id).name))
  inside : ∀ n k m, IsIndex x n → IsIndex y k → values = some m → m.Addressable → n ≤ m.rows ∧ k ≤ m.cols →
    a.Accesses r id m n k
  outside : ∀ n k m, IsIndex x n → IsIndex y k → values = some m → m.Addressable →
    ¬ (n ≤ m.rows ∧ k ≤ m.cols) →
    a.Fails r (.object
      (.indexOutOfBounds (r.object id).name (min n lastWord) (min k lastWord) m.rows m.cols))

section

variable (hRow : row.evaluateReal r = .ok x) (hColumn : column.evaluateReal r = .ok y)
include hRow hColumn

theorem evaluate_element : (element d name (some id) row column).evaluate r = (do
    let i ← position row.description x
    let j ← position column.description y
    let z ← liftObject ((r.object id).element i j)
    return .real z) := by
  rw [evaluate, indexOf_of_evaluateReal hRow, indexOf_of_evaluateReal hColumn]
  rfl

theorem setValue_element {v : Value} {z : Float} (hReal : v.asReal = .ok z) :
    (element d name (some id) row column).setValue r v = (do
      let i ← position row.description x
      let j ← position column.description y
      liftObject (r.setElement id i j z)) := by
  have hLift : liftType v.asReal = .ok z := by rw [hReal]; rfl
  simp only [setValue, indexOf_of_evaluateReal hRow, indexOf_of_evaluateReal hColumn, hLift]
  rfl

/-- Both ways to use the element fail with the error of the positions. -/
theorem fails_of_positions {e : AccessError}
    (h : position row.description x = .error e ∨
      ∃ i, position row.description x = .ok i ∧ position column.description y = .error e) :
    (element d name (some id) row column).Fails r e := by
  refine ⟨?_, fun v z hReal => ?_⟩
  · rw [evaluate_element hRow hColumn]
    rcases h with h | ⟨i, hi, h⟩
    · rw [h]
      rfl
    · rw [hi, h]
      rfl
  · rw [setValue_element hRow hColumn hReal]
    rcases h with h | ⟨i, hi, h⟩
    · rw [h]
      rfl
    · rw [hi, h]
      rfl

/-- Both ways to use the element fail with the error of the array. -/
theorem fails_of_array {i j : Nat} {e : ObjectError} (hI : position row.description x = .ok i)
    (hJ : position column.description y = .ok j) (hRead : (r.object id).element i j = .error e)
    (hWrite : ∀ z, (r.object id).setElement i j z = .error e) :
    (element d name (some id) row column).Fails r (.object e) := by
  refine ⟨?_, fun v z hReal => ?_⟩
  · rw [evaluate_element hRow hColumn, hI, hJ]
    change (liftObject ((r.object id).element i j) >>= fun z => pure (Value.real z)) = _
    rw [hRead]
    rfl
  · rw [setValue_element hRow hColumn hReal, hI, hJ]
    change liftObject (r.setElement id i j z) = _
    rw [Registry.setElement, hWrite z]
    rfl

theorem indexes_element {values : Option Matrix} (hContent : (r.object id).content = .array values) :
    (element d name (some id) row column).Indexes row column r id values x y where
  words n := ⟨staysInWords_of_index, staysInWords_of_index⟩
  badRow hx := fails_of_positions hRow hColumn (.inl (position_of_not_index hx))
  badColumn n hn hy :=
    fails_of_positions hRow hColumn (.inr ⟨_, position_of_index hn, position_of_not_index hy⟩)
  unsized n k hn hk hNone := by
    subst hNone
    have hValues := Object.arrayValues_of_unsized hContent
    refine fails_of_array hRow hColumn (position_of_index hn) (position_of_index hk) ?_ fun z => ?_
    · rw [Object.element, hValues]
      rfl
    · rw [Object.setElement, hValues]
      rfl
  inside n k m hn hk hSome hSize hIn := by
    subst hSome
    have hPlace := (hSize.inside_iff hn.1 hk.1).mpr hIn
    obtain ⟨hRowWord, hColumnWord⟩ := hSize.lt_lastWord (hn.1.trans hIn.1) (hk.1.trans hIn.2)
    have hRowPlace : min n lastWord - 1 = n - 1 := by omega
    have hColumnPlace : min k lastWord - 1 = k - 1 := by omega
    refine ⟨?_, fun v z hReal => ⟨m.set (n - 1) (k - 1) z, ?_, ?_, ?_⟩⟩
    · rw [evaluate_element hRow hColumn, position_of_index hn, position_of_index hk]
      change (liftObject ((r.object id).element (min n lastWord - 1) (min k lastWord - 1)) >>= fun z =>
        pure (Value.real z)) = _
      rw [Object.element_eq hContent, if_pos hPlace, hRowPlace, hColumnPlace]
      rfl
    · rw [setValue_element hRow hColumn hReal, position_of_index hn, position_of_index hk]
      change liftObject (r.setElement id (min n lastWord - 1) (min k lastWord - 1) z) = _
      rw [Registry.setElement, Object.setElement_eq hContent, if_pos hPlace, hRowPlace, hColumnPlace]
      rfl
    · rw [Matrix.set]
      split <;> rfl
    · exact Matrix.entry_set (by omega) (by omega) z
  outside n k m hn hk hSome hSize hOut := by
    subst hSome
    have hPlace := mt (hSize.inside_iff hn.1 hk.1).mp hOut
    obtain ⟨hWord, i, hI, hBack, hShown⟩ := staysInWords_of_index (d := row.description) hn
    obtain ⟨hWord', j, hJ, hBack', hShown'⟩ := staysInWords_of_index (d := column.description) hk
    rw [← hWord, ← hBack, ← hShown, ← hWord', ← hBack', ← hShown']
    obtain rfl := Except.ok.inj (hI.symm.trans (position_of_index hn))
    obtain rfl := Except.ok.inj (hJ.symm.trans (position_of_index hk))
    refine fails_of_array hRow hColumn hI hJ ?_ fun z => ?_
    · rw [Object.element_eq hContent, if_neg hPlace]
      rfl
    · rw [Object.setElement_eq hContent, if_neg hPlace]
      rfl

end

end Accessor

/-! ### What the classifier gives -/

namespace Classify

variable {kinds : ParameterKinds} {options : ClassifyOptions} {d : String} {w w' : Workspace} {a : Accessor}

/-- A name without indices stands for no element. -/
theorem Means.not_element (h : Means kinds d w w' a) : a.kind ≠ .arrayElement := by
  cases h with
  | property => simp [Accessor.kind]
  | literal hLiteral _ =>
    intro hKind
    rw [hKind] at hLiteral
    cases hLiteral
  | parameter | object =>
    rw [Accessor.ofObject, Accessor.kind]
    generalize WholeKind.of _ = k
    cases k <;> simp [WholeKind.kind]

/-- An element is one of the array that its name leads to, and it is bound to this array if the
array has that name. -/
theorem element_of_classify {text name : String} {array : Option ObjectId} {row column : Accessor}
    (h : classify kinds options text w = (.ok (.element d name array row column), w')) :
    ∃ id, w.find? name = some id ∧ (w.registry.object id).isArray = true ∧
      array = if name = (w.registry.object id).name then some id else none := by
  have hPlain : (Phrase.parse text).Plain := Phrase.plain_parse text
  unfold classify at h
  cases hPhrase : Phrase.parse text with
  | literal b =>
    rw [hPhrase] at h hPlain
    cases h
    cases hPlain
  | malformed e =>
    rw [hPhrase] at h
    cases h
  | identifier text =>
    rw [hPhrase] at h
    obtain ⟨b, w₁, hRun, h⟩ := run_bind_eq_ok.mp h
    cases h
    exact absurd rfl ((Meets.of_ok hRun).mp (identifier_means kinds options text w)).not_element
  | element text name rowPhrase columnPhrase =>
    rw [hPhrase] at h hPlain
    obtain ⟨id, row', w₁, column', w₂, hArray, hRow, hColumn, hDone⟩ := resolve_element_eq_ok.mp h
    obtain ⟨hFind, hIsArray⟩ := arrayOf_eq_ok hArray
    cases hDone
    have hGrows : Grows w.registry w₂.registry := by
      have hFirst : Creates kinds w (resolve kinds .index rowPhrase w).2 := resolve_changing hPlain.2.1
        .index w
      have hSecond : Creates kinds w₁ (resolve kinds .index columnPhrase w₁).2 :=
        resolve_changing hPlain.2.2 .index w₁
      rw [hRow] at hFirst
      rw [hColumn] at hSecond
      exact hFirst.grows.trans hSecond.grows
    have hObject := hGrows.object (has_of_isArray hIsArray)
    refine ⟨id, hFind, hIsArray, ?_⟩
    simp [hObject, hIsArray]

/-- Access through an element is exact and stays within machine words. The array is the one that the
name of the element leads to, under the name it has itself. -/
theorem element_access_exact {text name : String} {array : Option ObjectId} {row column : Accessor}
    (h : classify kinds options text w = (.ok (.element d name array row column), w')) :
    ∃ id, w.find? name = some id ∧ (w.registry.object id).isArray = true ∧
      ((w.registry.object id).name = name → ∀ (r : Registry) (values : Option Matrix) (x y : Float),
        (r.object id).content = .array values → row.evaluateReal r = .ok x → column.evaluateReal r = .ok y →
          (Accessor.element d name array row column).Indexes row column r id values x y) := by
  obtain ⟨id, hFind, hArray, hBound⟩ := element_of_classify h
  refine ⟨id, hFind, hArray, fun hName r values x y hContent hRow hColumn => ?_⟩
  rw [hBound, if_pos hName.symm]
  exact Accessor.indexes_element hRow hColumn hContent

/-- Whether an element was found that is bound to `array`, with one for both indices, while the
first object is an array with one entry. -/
def isUnitElement (array : Option ObjectId) : Except ClassifyError Accessor × Workspace → Bool
  | (.ok (.element _ _ bound row column), w) =>
    let isOne (x : Except AccessError Float) : Bool := x.toOption.any fun x => x.toBits = (1.0 : Float).toBits
    bound = array && isOne (row.evaluateReal w.registry) && isOne (column.evaluateReal w.registry) &&
      match (w.registry.object ⟨0⟩).content with
      | .array (some m) => m.dims = (1, 1)
      | _ => false
  | _ => false

theorem isIndex_one {x : Float} (h : x.toBits = (1.0 : Float).toBits) : IsIndex x 1 := by
  refine ⟨le_rfl, ?_⟩
  rw [number?, form, h, ← form, ← number?, number?_one]
  rfl

theorem exists_unitElement (array : Option ObjectId) {x : Except ClassifyError Accessor × Workspace}
    (h : isUnitElement array x = true) : ∃ d name row column w' u v m,
      x = (.ok (.element d name array row column), w') ∧ row.evaluateReal w'.registry = .ok u ∧
      column.evaluateReal w'.registry = .ok v ∧ IsIndex u 1 ∧ IsIndex v 1 ∧
      (w'.registry.object ⟨0⟩).content = .array (some m) ∧ m.dims = (1, 1) := by
  unfold isUnitElement at h
  split at h
  · next d name bound row column w' =>
    simp only [Bool.and_eq_true, Option.any_eq_true, decide_eq_true_eq] at h
    obtain ⟨⟨⟨rfl, u, hu, hOne⟩, v, hv, hOne'⟩, hContent⟩ := h
    split at hContent
    · next m hm =>
      exact ⟨d, name, row, column, w', u, v, m, rfl, toOption_eq_some.mp hu, toOption_eq_some.mp hv,
        isIndex_one hOne, isIndex_one hOne', hm, of_decide_eq_true hContent⟩
    · cases hContent
  · cases h

end Classify

/-- A matrix with one entry fits into memory. -/
theorem Matrix.addressable_of_dims {m : Matrix} (h : m.dims = (1, 1)) : m.Addressable := by
  obtain ⟨hRows, hCols⟩ := Prod.mk.inj h
  rw [Addressable, m.size_data, hRows, hCols]
  decide

namespace Classify

open Checker

/-- The accessor reads and writes the only entry of the array. -/
theorem element_access_exact_unit :
    ∃ d name row column w' m, classify {} .index "SolarSystem(1,1)" (arraySystem "SolarSystem") =
        (.ok (.element d name (some ⟨0⟩) row column), w') ∧
      (Accessor.element d name (some ⟨0⟩) row column).Accesses w'.registry ⟨0⟩ m 1 1 := by
  obtain ⟨d, name, row, column, w', u, v, m, hRun, hu, hv, hOne, hOne', hContent, hDims⟩ :=
    exists_unitElement (some ⟨0⟩)
      (x := classify {} .index "SolarSystem(1,1)" (arraySystem "SolarSystem")) (by decide +kernel)
  obtain ⟨id, hFind, -, hIndexes⟩ := element_access_exact hRun
  obtain ⟨id', hFind', -, hBound⟩ := element_of_classify hRun
  obtain rfl := Option.some.inj (hFind.symm.trans hFind')
  split at hBound
  · next hName =>
    obtain rfl := Option.some.inj hBound
    obtain ⟨hRows, hCols⟩ := Prod.mk.inj hDims
    have hElement := hIndexes hName.symm w'.registry (some m) u v hContent hu hv
    exact ⟨d, name, row, column, w', m, hRun,
      hElement.inside 1 1 m hOne hOne' rfl (Matrix.addressable_of_dims hDims) ⟨hRows.ge, hCols.ge⟩⟩
  · cases hBound

/-- An array that is looked up under another name than its own is not bound, and then no entry of it
can be read. -/
theorem element_of_misnamed_array_unreadable :
    ∃ d name row column w' u v m, classify {} .index "SolarSystem(1,1)" (arraySystem "A") =
        (.ok (.element d name none row column), w') ∧ row.evaluateReal w'.registry = .ok u ∧
      column.evaluateReal w'.registry = .ok v ∧ IsIndex u 1 ∧ IsIndex v 1 ∧
      (w'.registry.object ⟨0⟩).content = .array (some m) ∧ m.dims = (1, 1) ∧
      (arraySystem "A").find? "SolarSystem" = some ⟨0⟩ ∧
      (Accessor.element d name none row column).evaluate w'.registry = .error (.notBound d) := by
  obtain ⟨d, name, row, column, w', u, v, m, hRun, hu, hv, hOne, hOne', hContent, hDims⟩ :=
    exists_unitElement none
      (x := classify {} .index "SolarSystem(1,1)" (arraySystem "A")) (by decide +kernel)
  exact ⟨d, name, row, column, w', u, v, m, hRun, hu, hv, hOne, hOne', hContent, hDims,
    by decide +kernel, rfl⟩

end Classify

end Mission
