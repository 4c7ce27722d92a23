import Mathlib
import RealmCore.Array.Blobs
import RealmCore.Lib.Run

/-!
# `ArrayString`: strings in three forms, or enumerated

`ArrayString` (src/realm/array_string.cpp) keeps a leaf of strings in one of three forms, by
`m_type`: `ArrayStringShort` for strings of at most `15` bytes, `ArraySmallBlobs` for at most
`63`, and `ArrayBigBlobs` for any length.  Before each write, `upgrade_leaf` moves the leaf to
the form the new string needs, by adding every string of the old leaf to a new one.  A leaf
of enumerated strings is an `Array` of indices into the distinct strings
`m_string_enum_values`, themselves an `ArrayString` whose leaf is not enumerated (loading one
that is asserts a spec, which that array does not have).

The strings an `ArrayString` holds are those its leaf holds, read through the indices for an
enumerated leaf.  Every operation acts on them as the list operation (`add_holds`,
`insert_holds`, `set_holds`, `erase_holds`, `move_holds`, `clear_holds`), from every state
that holds a list, and so along every run of operations that stay in range (`runExcept_holds`);
`get` and `is_null` read the list (`get_eq`, `isNull_eq`).  `find_first` finds the first
position of a range that holds the value (`findFirst_eq`), except where a small leaf has width
`0`: there a range that is empty and not at the end finds its start when the value is the
default of the leaf (`findFirst_null_empty_range`).

The array's own `m_nullable`, which only a leaf loaded from memory reads, is carried by the
small leaf's `nullable`; a new array's small leaf is nullable.
-/

namespace Realm

open ArrayStringShort (firstFrom findFirstSpec readAs)

/-- The leaf of an `ArrayString` whose strings are not enumerated, by `m_type`. -/
inductive StringLeaf
  | smallStrings (a : ArrayStringShort)
  | mediumStrings (a : ArraySmallBlobs)
  | bigStrings (a : ArrayBigBlobs)
deriving DecidableEq, Repr

/-- An `ArrayString`: a leaf of strings, or for `enum_strings` the indices and the leaf of
`m_string_enum_values`. -/
inductive ArrayString
  | strings (leaf : StringLeaf)
  | enumStrings (indices : List Nat) (values : StringLeaf)
deriving DecidableEq, Repr

namespace StringLeaf

/-- `ArrayString::small_string_max_size`. -/
def smallStringMaxSize : Nat := 15

/-- `ArrayString::medium_string_max_size`. -/
def mediumStringMaxSize : Nat := 63

/-- `size()`. -/
def size : StringLeaf → Nat
  | smallStrings a => a.size
  | mediumStrings a => a.size
  | bigStrings a => a.size

/-- The loop of `upgrade_leaf` that adds each of the `n` strings of the old leaf to the new
one. -/
def copyStrings {β : Type} (get : Nat → Except String StringData) (add : β → StringData → β)
    (init : β) (n : Nat) : Except String β :=
  (List.range n).foldlM (fun b i => do return add b (← get i)) init

/-- `upgrade_leaf(value_size)`: the leaf in the form that takes a string of the size. -/
def upgradeLeaf : StringLeaf → Nat → Except String StringLeaf
  | bigStrings a, _ => .ok (bigStrings a)
  | mediumStrings a, valueSize =>
    if valueSize ≤ mediumStringMaxSize then .ok (mediumStrings a)
    else bigStrings <$> copyStrings a.getString (·.addString ·) ArrayBigBlobs.create a.size
  | smallStrings a, valueSize =>
    if valueSize ≤ smallStringMaxSize then .ok (smallStrings a)
    else if valueSize ≤ mediumStringMaxSize then
      mediumStrings <$> copyStrings a.get (·.addString ·) ArraySmallBlobs.create a.size
    else bigStrings <$> copyStrings a.get (·.addString ·) ArrayBigBlobs.create a.size

/-- The switch on `m_type` of the writes that return nothing: the write of the leaf's form. -/
def onLeaf (l : StringLeaf) (small : ArrayStringShort → Except String ArrayStringShort)
    (medium : ArraySmallBlobs → Except String ArraySmallBlobs)
    (big : ArrayBigBlobs → Except String ArrayBigBlobs) : Except String StringLeaf :=
  match l with
  | smallStrings a => smallStrings <$> small a
  | mediumStrings a => mediumStrings <$> medium a
  | bigStrings a => bigStrings <$> big a

/-- The shape of `add`, `set` and `insert`: `upgrade_leaf(value.size())`, then the write of the
form it gives. -/
def upgradeThen (l : StringLeaf) (valueSize : Nat)
    (small : ArrayStringShort → Except String ArrayStringShort)
    (medium : ArraySmallBlobs → Except String ArraySmallBlobs)
    (big : ArrayBigBlobs → Except String ArrayBigBlobs) : Except String StringLeaf := do
  (← l.upgradeLeaf valueSize).onLeaf small medium big

/-- `add(value)` on a leaf of strings. -/
def add (l : StringLeaf) (value : StringData) : Except String StringLeaf :=
  l.upgradeThen value.size (·.add value) (fun a => .ok (a.addString value))
    (fun a => .ok (a.addString value))

/-- `set(ndx, value)` on a leaf of strings. -/
def set (l : StringLeaf) (ndx : Nat) (value : StringData) : Except String StringLeaf :=
  l.upgradeThen value.size (·.set ndx value) (·.setString ndx value) (·.setString ndx value)

/-- `insert(ndx, value)` on a leaf of strings. -/
def insert (l : StringLeaf) (ndx : Nat) (value : StringData) : Except String StringLeaf :=
  l.upgradeThen value.size (·.insert ndx value) (·.insertString ndx value)
    (·.insertString ndx value)

/-- `get(ndx)`. -/
def get : StringLeaf → Nat → Except String StringData
  | smallStrings a, ndx => a.get ndx
  | mediumStrings a, ndx => a.getString ndx
  | bigStrings a, ndx => .ok (a.getString ndx)

/-- `is_null(ndx)`. -/
def isNull : StringLeaf → Nat → Except String Bool
  | smallStrings a, ndx => a.isNull ndx
  | mediumStrings a, ndx => a.isNull ndx
  | bigStrings a, ndx => .ok (a.isNull ndx)

/-- `erase(ndx)`. -/
def erase (l : StringLeaf) (ndx : Nat) : Except String StringLeaf :=
  l.onLeaf (·.erase ndx) (·.erase ndx) (·.erase ndx)

/-- The `truncate(ndx)` that ends `move(dst, ndx)`. -/
def truncate (l : StringLeaf) (ndx : Nat) : Except String StringLeaf :=
  l.onLeaf (·.truncate ndx) (·.truncate ndx) (·.truncate ndx)

/-- `clear()`. -/
def clear (l : StringLeaf) : Except String StringLeaf :=
  l.onLeaf (·.clear) (fun a => .ok a.clear) (fun a => .ok a.clear)

/-- `find_first(value, begin, end)`: the blobs compare the value as a string. -/
def findFirst : StringLeaf → StringData → Nat → Nat → Except String (Option Nat)
  | smallStrings a, value, begin, stop => a.findFirst value begin stop
  | mediumStrings a, value, begin, stop => a.findFirst value true begin stop
  | bigStrings a, value, begin, stop => a.findFirst value true begin stop

end StringLeaf

namespace ArrayString

open StringLeaf

/-- A new array: the constructor's small leaf, which is nullable, after `create()`. -/
def create : ArrayString := strings (smallStrings (ArrayStringShort.create true))

/-- `size()`. -/
def size : ArrayString → Nat
  | strings l => l.size
  | enumStrings indices _ => indices.length

/-- The start of `set(ndx, value)` for an enumerated leaf: the index of the value among the
enumerated strings, where it is added if it is new. -/
def enumIndex (values : StringLeaf) (value : StringData) : Except String (StringLeaf × Nat) := do
  let sz := values.size
  match ← values.findFirst value 0 sz with
  | some res => return (values, res)
  | none => return (← values.add value, sz)

/-- `set(ndx, value)`: an enumerated leaf stores the index of the value among the enumerated
strings. -/
def set : ArrayString → Nat → StringData → Except String ArrayString
  | strings l, ndx, value => strings <$> l.set ndx value
  | enumStrings indices values, ndx, value => do
    let (values, res) ← enumIndex values value
    realmAssert (ndx < indices.length) "ndx < m_size"
    return enumStrings (indices.set ndx res) values

/-- `add(value)`: for an enumerated leaf, an index `0` added and then set. -/
def add : ArrayString → StringData → Except String ArrayString
  | strings l, value => strings <$> l.add value
  | enumStrings indices values, value =>
    (enumStrings (indices ++ [0]) values).set indices.length value

/-- `insert(ndx, value)`: for an enumerated leaf, an index `0` inserted and then set. -/
def insert : ArrayString → Nat → StringData → Except String ArrayString
  | strings l, ndx, value => strings <$> l.insert ndx value
  | enumStrings indices values, ndx, value =>
    (enumStrings (indices.insertIdx ndx 0) values).set ndx value

/-- `get(ndx)`. -/
def get : ArrayString → Nat → Except String StringData
  | strings l, ndx => l.get ndx
  | enumStrings indices values, ndx => values.get (indices.getD ndx 0)

/-- `is_null(ndx)`. -/
def isNull : ArrayString → Nat → Except String Bool
  | strings l, ndx => l.isNull ndx
  | enumStrings indices values, ndx => values.isNull (indices.getD ndx 0)

/-- `erase(ndx)`, for an enumerated leaf `Array::erase` of the index. -/
def erase : ArrayString → Nat → Except String ArrayString
  | strings l, ndx => strings <$> l.erase ndx
  | enumStrings indices values, ndx => do
    realmAssert (ndx + 1 ≤ indices.length) "begin <= end"
    return enumStrings (indices.eraseIdx ndx) values

/-- `clear()`. -/
def clear : ArrayString → Except String ArrayString
  | strings l => strings <$> l.clear
  | enumStrings _ values => .ok (enumStrings [] values)

/-- `move(dst, ndx)`: the strings from `ndx` on added to `dst`, then the leaf cut at `ndx`;
never called on an enumerated leaf. -/
def move (a dst : ArrayString) (ndx : Nat) : Except String (ArrayString × ArrayString) := do
  let dst ← (List.range' ndx (a.size - ndx)).foldlM (fun d i => do d.add (← a.get i)) dst
  match a with
  | strings l => return (strings (← l.truncate ndx), dst)
  | enumStrings _ _ => .error "REALM_UNREACHABLE"

/-- `find_first(value, begin, end)`: for an enumerated leaf, the index of the value among the
enumerated strings, searched for in the indices by `Array::find_first`. -/
def findFirst : ArrayString → StringData → Nat → Nat → Except String (Option Nat)
  | strings l, value, begin, stop => l.findFirst value begin stop
  | enumStrings indices values, value, begin, stop => do
    let sz := values.size
    match ← values.findFirst value 0 sz with
    | some res =>
      realmAssert (begin ≤ indices.length ∧ (stop ≤ indices.length ∨ stop = npos) ∧ begin ≤ stop)
        "start <= m_size && (end <= m_size || end == size_t(-1)) && start <= end"
      let stop := if stop = npos then indices.length else stop
      return firstFrom (fun i => indices.getD i 0 == res) begin stop
    | none => return none

example : (create.add (some [1]) >>= fun a => a.add (some (List.replicate 20 7)) >>= fun a =>
    a.insert 0 none >>= fun a => pure (a.size, a.get 2 |>.toOption)) =
      .ok (3, some (some (List.replicate 20 7))) := by decide

end ArrayString

/-! ## The strings a leaf holds -/

namespace StringLeaf

/-- Whether a leaf stores null: every leaf but a small one that is not nullable, where a null
reads as the empty string. -/
def nullable : StringLeaf → Bool
  | smallStrings a => a.nullable
  | _ => true

/-- The strings a leaf holds. -/
def Holds : StringLeaf → List StringData → Prop
  | smallStrings a, xs => a.Holds xs
  | mediumStrings a, xs => a.Stored xs
  | bigStrings a, xs => a.Stored xs

/-- A leaf takes a value: it stores null, or the value is a string. -/
def Accepts (l : StringLeaf) (value : StringData) : Prop :=
  l.nullable = true ∨ value.isSome = true

section Holds

variable {l : StringLeaf} {xs : List StringData}

lemma size_of_holds (h : l.Holds xs) : l.size = xs.length := by
  cases l with
  | smallStrings a => exact ArrayStringShort.size_of_holds h
  | mediumStrings a => exact h.length_eq
  | bigStrings a => exact ArrayBigBlobs.length_blobs h

/-- `get` reads the string at the position. -/
theorem get_eq (h : l.Holds xs) {i : Nat} (hi : i < xs.length) : l.get i = .ok xs[i] := by
  cases l with
  | smallStrings a => exact ArrayStringShort.get_of_holds h hi
  | mediumStrings a => exact ArraySmallBlobs.getString_eq h hi
  | bigStrings a => exact congrArg Except.ok (ArrayBigBlobs.getString_eq h hi)

theorem isNull_eq (h : l.Holds xs) {i : Nat} (hi : i < xs.length) :
    l.isNull i = .ok xs[i].isNone := by
  cases l with
  | smallStrings a => exact ArrayStringShort.isNull_of_holds h hi
  | mediumStrings a => exact ArraySmallBlobs.isNull_eq h hi
  | bigStrings a => exact congrArg Except.ok (ArrayBigBlobs.isNull_eq h hi)

/-- A write of each form that takes the strings `xs` to `xs'` takes the leaf there, and keeps
a leaf that stores null one that does. -/
lemma onLeaf_holds (h : l.Holds xs) {xs' : List StringData}
    {small : ArrayStringShort → Except String ArrayStringShort}
    {medium : ArraySmallBlobs → Except String ArraySmallBlobs}
    {big : ArrayBigBlobs → Except String ArrayBigBlobs}
    (hsmall : ∀ a, l = smallStrings a → a.Holds xs →
      ∃ a', small a = .ok a' ∧ a'.nullable = a.nullable ∧ a'.Holds xs')
    (hmedium : ∀ a, a.Stored xs → ∃ a', medium a = .ok a' ∧ a'.Stored xs')
    (hbig : ∀ a, a.Stored xs → ∃ a', big a = .ok a' ∧ a'.Stored xs') :
    ∃ l', l.onLeaf small medium big = .ok l' ∧ l'.Holds xs' ∧
      (l.nullable = true → l'.nullable = true) := by
  cases l with
  | smallStrings a =>
    obtain ⟨a', ha, hn, h'⟩ := hsmall a rfl h
    exact ⟨smallStrings a', by simp [onLeaf, ha], h', by simp [nullable, hn]⟩
  | mediumStrings a =>
    obtain ⟨a', ha, h'⟩ := hmedium a h
    exact ⟨mediumStrings a', by simp [onLeaf, ha], h', fun _ => rfl⟩
  | bigStrings a =>
    obtain ⟨a', ha, h'⟩ := hbig a h
    exact ⟨bigStrings a', by simp [onLeaf, ha], h', fun _ => rfl⟩

/-- The copy of `upgrade_leaf` adds the strings of the old leaf, in order. -/
lemma copyStrings_eq {β : Type} {get : Nat → Except String StringData}
    (add : β → StringData → β) (init : β) (hget : ∀ i (hi : i < xs.length), get i = .ok xs[i]) :
    ∀ n, n ≤ xs.length → copyStrings get add init n = .ok ((xs.take n).foldl add init)
  | 0, _ => rfl
  | n + 1, hn => by
    have ih := copyStrings_eq add init hget n (by omega)
    unfold copyStrings at ih ⊢
    rw [List.range_succ, List.foldlM_append, ih]
    simp only [bind, Except.bind, List.foldlM_cons, List.foldlM_nil, hget n (by omega), pure,
      Except.pure]
    rw [List.take_add_one, List.getElem?_eq_getElem (by omega), Option.toList_some, List.foldl_append,
      List.foldl_cons, List.foldl_nil]

/-- Adding strings one after another to an array that stores a list stores the list and the
strings, for any array whose `add_string` stores one more string. -/
lemma foldl_stored {β : Type} (Stored : β → List StringData → Prop) {add : β → StringData → β}
    (hadd : ∀ b ys v, Stored b ys → Stored (add b v) (ys ++ [v])) :
    ∀ (vs : List StringData) {b : β} {ys : List StringData}, Stored b ys →
      Stored (vs.foldl add b) (ys ++ vs)
  | [], _, ys, h => by rwa [List.foldl_nil, List.append_nil]
  | v :: vs, _, ys, h => by
    rw [List.foldl_cons, ← List.singleton_append, ← List.append_assoc]
    exact foldl_stored Stored hadd vs (hadd _ _ v h)

lemma copy_stored_medium {get : Nat → Except String StringData}
    (hget : ∀ i (hi : i < xs.length), get i = .ok xs[i]) :
    copyStrings get (·.addString ·) ArraySmallBlobs.create xs.length =
      .ok (xs.foldl (·.addString ·) ArraySmallBlobs.create) ∧
    (xs.foldl (·.addString ·) ArraySmallBlobs.create).Stored xs := by
  refine ⟨by rw [copyStrings_eq _ _ hget _ (Nat.le_refl _), List.take_length], ?_⟩
  simpa using foldl_stored ArraySmallBlobs.Stored
    (fun _ _ v h => ArraySmallBlobs.addString_stored h v) xs ArraySmallBlobs.create_stored

lemma copy_stored_big {get : Nat → Except String StringData}
    (hget : ∀ i (hi : i < xs.length), get i = .ok xs[i]) :
    copyStrings get (·.addString ·) ArrayBigBlobs.create xs.length =
      .ok (xs.foldl (·.addString ·) ArrayBigBlobs.create) ∧
    (xs.foldl (·.addString ·) ArrayBigBlobs.create).Stored xs := by
  refine ⟨by rw [copyStrings_eq _ _ hget _ (Nat.le_refl _), List.take_length], ?_⟩
  simpa using foldl_stored ArrayBigBlobs.Stored
    (fun _ _ v h => ArrayBigBlobs.addString_stored h v) xs ArrayBigBlobs.create_stored

/-- `upgrade_leaf` keeps the strings; it keeps a small leaf only for a short string, and gives
a leaf of blobs, which stores null, otherwise. -/
theorem upgradeLeaf_holds (h : l.Holds xs) (n : Nat) :
    ∃ l', l.upgradeLeaf n = .ok l' ∧ l'.Holds xs ∧ (l.nullable = true → l'.nullable = true) ∧
      ∀ a, l' = smallStrings a → l = smallStrings a ∧ n ≤ smallStringMaxSize := by
  cases l with
  | bigStrings a => exact ⟨_, rfl, h, id, fun _ h => nomatch h⟩
  | mediumStrings a =>
    simp only [upgradeLeaf]
    by_cases hn : n ≤ mediumStringMaxSize
    · exact ⟨_, if_pos hn, h, id, fun _ h => nomatch h⟩
    · obtain ⟨hcopy, hs⟩ := copy_stored_big (fun i hi => ArraySmallBlobs.getString_eq h hi)
      rw [if_neg hn, show a.size = xs.length from h.length_eq, hcopy]
      exact ⟨_, rfl, hs, fun _ => rfl, fun _ h => nomatch h⟩
  | smallStrings a =>
    have hsize := ArrayStringShort.size_of_holds h
    have hget := fun i (hi : i < xs.length) => ArrayStringShort.get_of_holds h hi
    simp only [upgradeLeaf]
    by_cases hs : n ≤ smallStringMaxSize
    · exact ⟨_, if_pos hs, h, id, fun _ h' => ⟨h', hs⟩⟩
    rw [if_neg hs]
    by_cases hm : n ≤ mediumStringMaxSize
    · obtain ⟨hcopy, hst⟩ := copy_stored_medium hget
      rw [if_pos hm, hsize, hcopy]
      exact ⟨_, rfl, hst, fun _ => rfl, fun _ h => nomatch h⟩
    · obtain ⟨hcopy, hst⟩ := copy_stored_big hget
      rw [if_neg hm, hsize, hcopy]
      exact ⟨_, rfl, hst, fun _ => rfl, fun _ h => nomatch h⟩

/-- The rule of `add`, `set` and `insert`: a write of each form that takes `xs` to `xs'`, the
small one for a value it takes and of at most `15` bytes, takes the leaf there. -/
lemma upgradeThen_holds (h : l.Holds xs) {xs' : List StringData} {v : StringData}
    (hv : l.Accepts v)
    {small : ArrayStringShort → Except String ArrayStringShort}
    {medium : ArraySmallBlobs → Except String ArraySmallBlobs}
    {big : ArrayBigBlobs → Except String ArrayBigBlobs}
    (hsmall : ∀ a, a.Holds xs → (a.nullable = true ∨ v.isSome = true) →
      v.size ≤ smallStringMaxSize → ∃ a', small a = .ok a' ∧ a'.nullable = a.nullable ∧ a'.Holds xs')
    (hmedium : ∀ a, a.Stored xs → ∃ a', medium a = .ok a' ∧ a'.Stored xs')
    (hbig : ∀ a, a.Stored xs → ∃ a', big a = .ok a' ∧ a'.Stored xs') :
    ∃ l', l.upgradeThen v.size small medium big = .ok l' ∧ l'.Holds xs' ∧
      (l.nullable = true → l'.nullable = true) := by
  obtain ⟨l₁, hup, h₁, hn₁, hsm⟩ := upgradeLeaf_holds h v.size
  obtain ⟨l', hl', h', hn'⟩ := @onLeaf_holds l₁ xs h₁ xs' small medium big (fun a ha ha' => by
      obtain ⟨hl, hsz⟩ := hsm a ha
      rw [hl] at hv
      exact hsmall a ha' hv hsz) hmedium hbig
  refine ⟨l', ?_, h', fun hn => hn' (hn₁ hn)⟩
  simp only [upgradeThen, hup, bind, Except.bind]
  exact hl'

/-- A string of at most `15` bytes fits a slot of `ArrayStringShort`. -/
lemma lt_maxWidth {v : StringData} (hv : v.size ≤ smallStringMaxSize) :
    v.size < ArrayStringShort.maxWidth := by
  unfold smallStringMaxSize at hv
  unfold ArrayStringShort.maxWidth
  omega

theorem add_holds (h : l.Holds xs) {v : StringData} (hv : l.Accepts v) :
    ∃ l', l.add v = .ok l' ∧ l'.Holds (xs ++ [v]) ∧ (l.nullable = true → l'.nullable = true) :=
  upgradeThen_holds h hv
    (fun _ ha hv' hsz => ArrayStringShort.add_holds ha hv' (lt_maxWidth hsz))
    (fun _ ha => ⟨_, rfl, ArraySmallBlobs.addString_stored ha v⟩)
    (fun _ ha => ⟨_, rfl, ArrayBigBlobs.addString_stored ha v⟩)

theorem set_holds (h : l.Holds xs) {i : Nat} (hi : i < xs.length) {v : StringData}
    (hv : l.Accepts v) :
    ∃ l', l.set i v = .ok l' ∧ l'.Holds (xs.set i v) ∧ (l.nullable = true → l'.nullable = true) :=
  upgradeThen_holds h hv
    (fun _ ha hv' hsz => ArrayStringShort.set_holds ha hi hv' (lt_maxWidth hsz))
    (fun _ ha => ArraySmallBlobs.setString_stored ha hi v)
    (fun _ ha => ArrayBigBlobs.setString_stored ha hi v)

theorem insert_holds (h : l.Holds xs) {i : Nat} (hi : i ≤ xs.length) {v : StringData}
    (hv : l.Accepts v) :
    ∃ l', l.insert i v = .ok l' ∧ l'.Holds (xs.insertIdx i v) ∧
      (l.nullable = true → l'.nullable = true) :=
  upgradeThen_holds h hv
    (fun _ ha hv' hsz => ArrayStringShort.insert_holds ha hi hv' (lt_maxWidth hsz))
    (fun _ ha => ArraySmallBlobs.insertString_stored ha hi v)
    (fun _ ha => ArrayBigBlobs.insertString_stored ha hi v)

theorem erase_holds (h : l.Holds xs) {i : Nat} (hi : i < xs.length) :
    ∃ l', l.erase i = .ok l' ∧ l'.Holds (xs.eraseIdx i) ∧
      (l.nullable = true → l'.nullable = true) :=
  onLeaf_holds h (fun _ _ ha => ArrayStringShort.erase_holds ha hi)
    (fun _ ha => ArraySmallBlobs.erase_stored ha hi)
    (fun _ ha => ArrayBigBlobs.erase_stored ha hi)

theorem clear_holds (h : l.Holds xs) :
    ∃ l', l.clear = .ok l' ∧ l'.Holds [] ∧ (l.nullable = true → l'.nullable = true) :=
  onLeaf_holds h (fun _ _ ha => ArrayStringShort.clear_holds ha)
    (fun _ _ => ⟨_, rfl, ArraySmallBlobs.create_stored⟩)
    (fun _ _ => ⟨_, rfl, ArrayBigBlobs.create_stored⟩)

/-- `truncate` keeps the strings below the new size, which the small blobs take only when it
is `0` or below the size. -/
theorem truncate_holds (h : l.Holds xs) {m : Nat} (hm : m = 0 ∨ m < xs.length) :
    ∃ l', l.truncate m = .ok l' ∧ l'.Holds (xs.take m) ∧
      (l.nullable = true → l'.nullable = true) :=
  onLeaf_holds h (fun _ _ ha => ArrayStringShort.truncate_holds ha (by omega))
    (fun _ ha => ArraySmallBlobs.truncate_stored ha hm)
    (fun _ ha => ArrayBigBlobs.truncate_stored ha (by omega))

/-- A leaf whose strings take room: every leaf but a small one of width `0`. -/
def HasWidth : StringLeaf → Prop
  | smallStrings a => 0 < a.width
  | _ => True

/-- `find_first` finds the first position of the range that holds the value, unless the range
is empty and not at the end while the leaf is small of width `0`. -/
theorem findFirst_eq (h : l.Holds xs) {value : StringData} (hv : l.Accepts value)
    {begin stop : Nat} (hrange : begin ≤ (if stop = npos then xs.length else stop))
    (hstop : (if stop = npos then xs.length else stop) ≤ xs.length)
    (hempty : begin < (if stop = npos then xs.length else stop) ∨ l.HasWidth ∨
      begin = xs.length) :
    l.findFirst value begin stop = .ok (findFirstSpec xs value begin stop) := by
  cases l with
  | smallStrings a => exact ArrayStringShort.findFirst_of_holds h hv hrange hstop hempty
  | mediumStrings a => exact ArraySmallBlobs.findFirst_eq h value hrange hstop
  | bigStrings a => exact ArrayBigBlobs.findFirst_eq h value hrange hstop

end Holds

end StringLeaf

/-! ## The strings an `ArrayString` holds -/

namespace ArrayString

open StringLeaf

/-- Whether the array stores null: its leaf does, or for an enumerated leaf its strings do. -/
def nullable : ArrayString → Bool
  | strings l => l.nullable
  | enumStrings _ values => values.nullable

/-- Whether the leaf is enumerated, which no operation changes. -/
def isEnum : ArrayString → Bool
  | strings _ => false
  | enumStrings _ _ => true

/-- The indices of an enumerated leaf read the strings `xs` from the distinct strings `vs`
that its values hold. -/
structure EnumHolds (indices : List Nat) (values : StringLeaf) (vs xs : List StringData) :
    Prop where
  values_holds : values.Holds vs
  nodup : vs.Nodup
  lt : ∀ k ∈ indices, k < vs.length
  eq : xs = indices.map (vs.getD · none)

/-- The strings an array holds. -/
def Holds : ArrayString → List StringData → Prop
  | strings l, xs => l.Holds xs
  | enumStrings indices values, xs => ∃ vs, EnumHolds indices values vs xs

/-- The array takes a value: it stores null, or the value is a string. -/
def Accepts (a : ArrayString) (value : StringData) : Prop :=
  a.nullable = true ∨ value.isSome = true

/-- An array whose strings take room: every array but one with a small leaf of width `0`. -/
def HasWidth : ArrayString → Prop
  | strings l => l.HasWidth
  | enumStrings _ _ => True

section Enum

variable {indices : List Nat} {values : StringLeaf} {vs xs : List StringData}

lemma EnumHolds.length_eq (h : EnumHolds indices values vs xs) : xs.length = indices.length := by
  rw [h.eq, List.length_map]

lemma EnumHolds.getD_lt (h : EnumHolds indices values vs xs) {i : Nat} (hi : i < xs.length) :
    indices.getD i 0 < vs.length := by
  have hi' : i < indices.length := h.length_eq ▸ hi
  rw [List.getD_eq_getElem?_getD, List.getElem?_eq_getElem hi', Option.getD_some]
  exact h.lt _ (List.getElem_mem hi')

lemma EnumHolds.getElem_eq (h : EnumHolds indices values vs xs) {i : Nat} (hi : i < xs.length) :
    xs[i] = vs.getD (indices.getD i 0) none := by
  have hi' : i < indices.length := h.length_eq ▸ hi
  have hk : indices.getD i 0 = indices[i] := by
    rw [List.getD_eq_getElem?_getD, List.getElem?_eq_getElem hi', Option.getD_some]
  simp only [h.eq, List.getElem_map, hk]

/-- The search of the enumerated strings for a value, over all of them, finds where it is. -/
lemma findFirst_values (hv : values.Holds vs) {value : StringData} (hacc : values.Accepts value) :
    values.findFirst value 0 values.size =
      .ok (firstFrom (fun i => decide (vs[i]? = some value)) 0 vs.length) := by
  have hne : 0 < vs.length ∨ values.HasWidth ∨ 0 = vs.length := by omega
  rw [size_of_holds hv, StringLeaf.findFirst_eq hv hacc (by simp) (by simp) (by simpa using hne),
    findFirstSpec, ite_self]

/-- `enumIndex` gives the index of the value among the enumerated strings, after adding it if
it was not there; they stay distinct. -/
lemma enumIndex_spec (hv : values.Holds vs) (hnodup : vs.Nodup) {value : StringData}
    (hacc : values.Accepts value) :
    ∃ values' ws res, enumIndex values value = .ok (values', res) ∧ values'.Holds (vs ++ ws) ∧
      (vs ++ ws).Nodup ∧ res < (vs ++ ws).length ∧ (vs ++ ws).getD res none = value ∧
      (values.nullable = true → values'.nullable = true) := by
  unfold enumIndex
  simp only [findFirst_values hv hacc, bind, Except.bind]
  cases hres : firstFrom (fun i => decide (vs[i]? = some value)) 0 vs.length with
  | some res =>
    -- the value is there
    obtain ⟨-, hlt, hp⟩ := ArrayStringShort.firstFrom_eq_some hres
    refine ⟨values, [], res, rfl, by rwa [List.append_nil], by rwa [List.append_nil],
      by simpa using hlt, ?_, id⟩
    rw [List.append_nil, List.getD_eq_getElem?_getD, of_decide_eq_true hp, Option.getD_some]
  | none =>
    -- the value is new: it is added after the others
    have hnot : value ∉ vs := fun hmem => by
      obtain ⟨k, hk, hkv⟩ := List.getElem_of_mem hmem
      have := ArrayStringShort.firstFrom_eq_none hres (Nat.zero_le k) hk
      simp [List.getElem?_eq_getElem hk, hkv] at this
    obtain ⟨values', hadd, hv', hn⟩ := StringLeaf.add_holds hv hacc
    refine ⟨values', [value], vs.length, ?_, hv', List.nodup_append.mpr ⟨hnodup,
      List.nodup_singleton _, fun x hx y hy => ?_⟩, by simp, by simp, hn⟩
    · simp only [hadd, size_of_holds hv, pure, Except.pure]
    · rw [List.mem_singleton.mp hy]
      exact fun hxy => hnot (hxy ▸ hx)

/-- `set` on an enumerated leaf whose indices read strings of `vs` everywhere but at the
position. -/
lemma setEnum_holds (hv : values.Holds vs) (hnodup : vs.Nodup) {i : Nat} (hi : i < indices.length)
    (hlt : ∀ j (hj : j < indices.length), j ≠ i → indices[j] < vs.length) {value : StringData}
    (hacc : values.Accepts value) :
    ∃ a', (enumStrings indices values).set i value = .ok a' ∧
      a'.Holds ((indices.map (vs.getD · none)).set i value) ∧
      (values.nullable = true → a'.nullable = true) ∧ a'.isEnum = true := by
  obtain ⟨values', ws, res, hidx, hv', hnodup', hres, hget, hn⟩ := enumIndex_spec hv hnodup hacc
  refine ⟨enumStrings (indices.set i res) values', ?_, ⟨vs ++ ws, hv', hnodup', ?_, ?_⟩, hn, rfl⟩
  · simp only [set, hidx, bind, Except.bind, realmAssert, if_pos hi, pure, Except.pure]
  · intro k hk
    obtain ⟨j, hj, rfl⟩ := List.getElem_of_mem hk
    rw [List.getElem_set]
    split_ifs with hji
    · exact hres
    · have := hlt j (by simpa using hj) (Ne.symm hji)
      rw [List.length_append]
      omega
  · -- the old strings are still where the other indices point
    refine List.ext_getElem (by simp) fun j h₁ h₂ => ?_
    simp only [List.getElem_map, List.getElem_set]
    split_ifs with hji
    · exact hget.symm
    · have := hlt j (by simpa using h₁) (Ne.symm hji)
      rw [List.getD_eq_getElem?_getD, List.getD_eq_getElem?_getD, List.getElem?_append_left this]

end Enum

section Holds

variable {a : ArrayString} {xs : List StringData}

lemma size_of_holds (h : a.Holds xs) : a.size = xs.length := by
  cases a with
  | strings l => exact StringLeaf.size_of_holds h
  | enumStrings indices values =>
    obtain ⟨vs, he⟩ := h
    exact he.length_eq.symm

/-- `get` reads the string at the position. -/
theorem get_eq (h : a.Holds xs) {i : Nat} (hi : i < xs.length) : a.get i = .ok xs[i] := by
  cases a with
  | strings l => exact StringLeaf.get_eq h hi
  | enumStrings indices values =>
    obtain ⟨vs, he⟩ := h
    have hk := he.getD_lt hi
    have hget : vs.getD (indices.getD i 0) none = vs[indices.getD i 0] := by
      rw [List.getD_eq_getElem?_getD, List.getElem?_eq_getElem hk, Option.getD_some]
    rw [get, StringLeaf.get_eq he.values_holds hk, he.getElem_eq hi, hget]

/-- `is_null` says whether the string at the position is null. -/
theorem isNull_eq (h : a.Holds xs) {i : Nat} (hi : i < xs.length) :
    a.isNull i = .ok xs[i].isNone := by
  cases a with
  | strings l => exact StringLeaf.isNull_eq h hi
  | enumStrings indices values =>
    obtain ⟨vs, he⟩ := h
    have hk := he.getD_lt hi
    have hget : vs.getD (indices.getD i 0) none = vs[indices.getD i 0] := by
      rw [List.getD_eq_getElem?_getD, List.getElem?_eq_getElem hk, Option.getD_some]
    rw [isNull, StringLeaf.isNull_eq he.values_holds hk, he.getElem_eq hi, hget]

/-- The result of a write on a leaf of strings, as a write on the array. -/
lemma strings_holds {l : StringLeaf} {xs' : List StringData} {r : Except String StringLeaf}
    (hr : ∃ l', r = .ok l' ∧ l'.Holds xs' ∧ (l.nullable = true → l'.nullable = true)) :
    ∃ a', strings <$> r = .ok a' ∧ a'.Holds xs' ∧
      ((strings l).nullable = true → a'.nullable = true) ∧ a'.isEnum = false := by
  obtain ⟨l', rfl, h', hn⟩ := hr
  exact ⟨strings l', rfl, h', hn, rfl⟩

theorem add_holds (h : a.Holds xs) {v : StringData} (hv : a.Accepts v) :
    ∃ a', a.add v = .ok a' ∧ a'.Holds (xs ++ [v]) ∧ (a.nullable = true → a'.nullable = true) ∧
      a'.isEnum = a.isEnum := by
  cases a with
  | strings l => exact strings_holds (StringLeaf.add_holds h hv)
  | enumStrings indices values =>
    obtain ⟨vs, he⟩ := h
    have hlt : ∀ j (hj : j < (indices ++ [0]).length), j ≠ indices.length →
        (indices ++ [0])[j] < vs.length := fun j hj hne => by
      rw [List.getElem_append_left (by simp at hj; omega)]
      exact he.lt _ (List.getElem_mem _)
    obtain ⟨a', hset, h', hn, he'⟩ :=
      setEnum_holds he.values_holds he.nodup (by simp) hlt hv
    refine ⟨a', hset, ?_, hn, he'⟩
    rwa [List.map_append, List.set_append_right _ _ (by simp), List.length_map, Nat.sub_self,
      List.map_singleton, List.set_cons_zero, ← he.eq] at h'

theorem insert_holds (h : a.Holds xs) {i : Nat} (hi : i ≤ xs.length) {v : StringData}
    (hv : a.Accepts v) :
    ∃ a', a.insert i v = .ok a' ∧ a'.Holds (xs.insertIdx i v) ∧
      (a.nullable = true → a'.nullable = true) ∧ a'.isEnum = a.isEnum := by
  cases a with
  | strings l => exact strings_holds (StringLeaf.insert_holds h hi hv)
  | enumStrings indices values =>
    obtain ⟨vs, he⟩ := h
    have hi' : i ≤ indices.length := he.length_eq ▸ hi
    have hlt : ∀ j (hj : j < (indices.insertIdx i 0).length), j ≠ i →
        (indices.insertIdx i 0)[j] < vs.length := fun j hj hne => by
      rw [List.getElem_insertIdx]
      by_cases h₁ : j < i
      · rw [dif_pos h₁]
        exact he.lt _ (List.getElem_mem _)
      · rw [dif_neg h₁, dif_neg hne]
        exact he.lt _ (List.getElem_mem _)
    obtain ⟨a', hset, h', hn, he'⟩ := setEnum_holds he.values_holds he.nodup
      (by rw [List.length_insertIdx_of_le_length hi']; omega) hlt hv
    refine ⟨a', hset, ?_, hn, he'⟩
    rwa [List.map_insertIdx, ArrayStringShort.set_insertIdx_self (by simpa using hi'),
      ← he.eq] at h'

theorem set_holds (h : a.Holds xs) {i : Nat} (hi : i < xs.length) {v : StringData}
    (hv : a.Accepts v) :
    ∃ a', a.set i v = .ok a' ∧ a'.Holds (xs.set i v) ∧
      (a.nullable = true → a'.nullable = true) ∧ a'.isEnum = a.isEnum := by
  cases a with
  | strings l => exact strings_holds (StringLeaf.set_holds h hi hv)
  | enumStrings indices values =>
    obtain ⟨vs, he⟩ := h
    obtain ⟨a', hset, h', hn, he'⟩ := setEnum_holds he.values_holds he.nodup
      (he.length_eq ▸ hi) (fun j _ _ => he.lt _ (List.getElem_mem _)) hv
    exact ⟨a', hset, by rwa [← he.eq] at h', hn, he'⟩

theorem erase_holds (h : a.Holds xs) {i : Nat} (hi : i < xs.length) :
    ∃ a', a.erase i = .ok a' ∧ a'.Holds (xs.eraseIdx i) ∧
      (a.nullable = true → a'.nullable = true) ∧ a'.isEnum = a.isEnum := by
  cases a with
  | strings l => exact strings_holds (StringLeaf.erase_holds h hi)
  | enumStrings indices values =>
    obtain ⟨vs, he⟩ := h
    have hi' : i + 1 ≤ indices.length := he.length_eq ▸ hi
    refine ⟨enumStrings (indices.eraseIdx i) values, by simp only [erase, realmAssert, if_pos hi',
      bind, Except.bind, pure, Except.pure], ⟨vs, he.values_holds, he.nodup, fun k hk => he.lt k
      (List.mem_of_mem_eraseIdx hk), by rw [he.eq, List.eraseIdx_map]⟩, id, rfl⟩

theorem clear_holds (h : a.Holds xs) :
    ∃ a', a.clear = .ok a' ∧ a'.Holds [] ∧ (a.nullable = true → a'.nullable = true) ∧
      a'.isEnum = a.isEnum := by
  cases a with
  | strings l => exact strings_holds (StringLeaf.clear_holds h)
  | enumStrings indices values =>
    obtain ⟨vs, he⟩ := h
    exact ⟨enumStrings [] values, rfl, ⟨vs, he.values_holds, he.nodup, (fun _ hk => nomatch hk),
      rfl⟩, id, rfl⟩

/-- The loop of `move` adds the strings of `[k, k + m)` to `dst`, one after another. -/
lemma moveLoop_holds (h : a.Holds xs) :
    ∀ (m k : Nat) {dst : ArrayString} {ys : List StringData}, k + m ≤ xs.length → dst.Holds ys →
      (dst.nullable = true ∨ ∀ x ∈ xs, x.isSome = true) →
      ∃ dst', (List.range' k m).foldlM (fun d i => do d.add (← a.get i)) dst = .ok dst' ∧
        dst'.Holds (ys ++ (xs.drop k).take m) ∧ (dst.nullable = true → dst'.nullable = true)
  | 0, _, dst, _, _, hd, _ => ⟨dst, rfl, by simpa using hd, id⟩
  | m + 1, k, dst, ys, hkm, hd, hacc => by
    have hk : k < xs.length := by omega
    obtain ⟨dst₁, hadd, hd₁, hn₁, -⟩ :=
      add_holds hd (v := xs[k]) (hacc.imp id fun hall => hall _ (List.getElem_mem hk))
    obtain ⟨dst', hloop, hd', hn'⟩ := moveLoop_holds h m (k + 1) (by omega) hd₁ (hacc.imp hn₁ id)
    refine ⟨dst', ?_, ?_, fun hn => hn' (hn₁ hn)⟩
    · rw [List.range'_succ, List.foldlM_cons]
      simp only [get_eq h hk, bind, Except.bind, hadd]
      exact hloop
    · rwa [List.drop_eq_getElem_cons hk, List.take_succ_cons, ← List.singleton_append,
        ← List.append_assoc]

/-- `move(dst, ndx)` on a leaf of strings: the strings from `ndx` on go to the end of `dst`,
which takes them, and the array keeps those below; the small blobs take only `0` or a
position below the size. -/
theorem move_holds {l : StringLeaf} (h : (strings l).Holds xs) {dst : ArrayString}
    {ys : List StringData} (hd : dst.Holds ys)
    (hacc : dst.nullable = true ∨ ∀ x ∈ xs, x.isSome = true) {ndx : Nat}
    (hndx : ndx = 0 ∨ ndx < xs.length) :
    ∃ a' dst', (strings l).move dst ndx = .ok (a', dst') ∧ a'.Holds (xs.take ndx) ∧
      dst'.Holds (ys ++ xs.drop ndx) ∧ ((strings l).nullable = true → a'.nullable = true) ∧
      a'.isEnum = false := by
  obtain ⟨dst', hloop, hd', -⟩ := moveLoop_holds h (xs.length - ndx) ndx (by omega) hd hacc
  obtain ⟨l', htr, h', hn⟩ := StringLeaf.truncate_holds (show l.Holds xs from h) hndx
  refine ⟨strings l', dst', ?_, h', ?_, hn, rfl⟩
  · unfold move
    rw [size_of_holds h, hloop]
    simp only [bind, Except.bind, htr, pure, Except.pure]
  · rwa [List.take_of_length_le (by simp)] at hd'

/-- `find_first` finds the first position of the range that holds the value, unless the range
is empty and not at the end while the leaf is small of width `0`. -/
theorem findFirst_eq (h : a.Holds xs) (hsize : xs.length ≤ npos) {value : StringData}
    (hv : a.Accepts value) {begin stop : Nat}
    (hrange : begin ≤ (if stop = npos then xs.length else stop))
    (hstop : (if stop = npos then xs.length else stop) ≤ xs.length)
    (hempty : begin < (if stop = npos then xs.length else stop) ∨ a.HasWidth ∨
      begin = xs.length) :
    a.findFirst value begin stop = .ok (findFirstSpec xs value begin stop) := by
  cases a with
  | strings l => exact StringLeaf.findFirst_eq h hv hrange hstop hempty
  | enumStrings indices values =>
    obtain ⟨vs, he⟩ := h
    have hlen := he.length_eq
    unfold findFirst
    simp only [findFirst_values he.values_holds hv, bind, Except.bind]
    cases hres : firstFrom (fun i => decide (vs[i]? = some value)) 0 vs.length with
    | some res =>
      -- the value is the enumerated string `res`, which no other index reads
      obtain ⟨-, hlt, hp⟩ := ArrayStringShort.firstFrom_eq_some hres
      have hres' : vs[res] = value :=
        Option.some.inj (by rw [← List.getElem?_eq_getElem hlt]; exact of_decide_eq_true hp)
      have hassert : begin ≤ xs.length ∧ (stop ≤ xs.length ∨ stop = npos) ∧ begin ≤ stop := by
        by_cases hs : stop = npos <;> simp only [hs, if_true, if_false] at hrange hstop <;> omega
      simp only [realmAssert, ← hlen]
      rw [if_pos hassert]
      simp only [pure, Except.pure, findFirstSpec]
      congr 1
      refine ArrayStringShort.firstFrom_congr fun i _ hi => ?_
      have hi' : i < xs.length := by
        by_cases hs : stop = npos <;> simp only [hs, if_true, if_false] at hi hstop <;> omega
      have hk := he.getD_lt hi'
      have hget : vs.getD (indices.getD i 0) none = vs[indices.getD i 0] := by
        rw [List.getD_eq_getElem?_getD, List.getElem?_eq_getElem hk, Option.getD_some]
      have hiff : indices.getD i 0 = res ↔ vs.getD (indices.getD i 0) none = value := by
        rw [hget, ← hres', he.nodup.getElem_inj_iff]
      rw [List.getElem?_eq_getElem hi', he.getElem_eq hi', Bool.eq_iff_iff]
      simp only [beq_iff_eq, decide_eq_true_eq, Option.some.injEq]
      exact hiff
    | none =>
      -- the value is none of the enumerated strings, so no index reads it
      simp only [pure, Except.pure, findFirstSpec]
      rw [ArrayStringShort.firstFrom_congr (q := fun _ => false) fun i _ hi => ?_,
        ArrayStringShort.firstFrom_const]
      · simp
      have hi' : i < xs.length := by
        by_cases hs : stop = npos <;> simp only [hs, if_true, if_false] at hi hstop <;> omega
      have hk := he.getD_lt hi'
      have := ArrayStringShort.firstFrom_eq_none hres (Nat.zero_le _) hk
      rw [List.getElem?_eq_getElem hi', he.getElem_eq hi', List.getD_eq_getElem?_getD]
      rw [List.getElem?_eq_getElem hk] at this ⊢
      simpa using this

/-- On the small blobs, `move(dst, size())` of a leaf that is not empty moves nothing and then
fails the assertion of `truncate`. -/
theorem move_at_end_fails {b : ArraySmallBlobs} (hpos : 0 < b.size) (dst : ArrayString) :
    (strings (mediumStrings b)).move dst b.size =
      .error "new_size == 0 || new_size < m_offsets.size()" := by
  have hne : b.offsets ≠ [] := List.ne_nil_of_length_pos hpos
  simp [move, size, StringLeaf.size, StringLeaf.truncate, onLeaf, ArraySmallBlobs.truncate,
    ArraySmallBlobs.size, realmAssert, hne, bind, Except.bind, pure, Except.pure]

end Holds

end ArrayString

/-! ## Runs of operations -/

/-- The operations on an `ArrayString`, with the array that `move` adds to. -/
inductive StringOp
  | add (value : StringData)
  | insert (ndx : Nat) (value : StringData)
  | set (ndx : Nat) (value : StringData)
  | erase (ndx : Nat)
  | move (dst : ArrayString) (ndx : Nat)
  | clear

namespace StringOp

/-- What an operation does to the list of strings. -/
def apply (xs : List StringData) : StringOp → List StringData
  | add v => xs ++ [v]
  | insert i v => xs.insertIdx i v
  | set i v => xs.set i v
  | erase i => xs.eraseIdx i
  | move _ i => xs.take i
  | clear => []

/-- An operation that callers issue on the strings `xs`: at a position in range, with a null
only where nulls are allowed, and `move` only on a leaf that is not enumerated, from `0` or a
position below the size, to an array that holds strings and takes those it gets. -/
def Admissible (nulls enum : Bool) (xs : List StringData) : StringOp → Prop
  | add v => nulls = true ∨ v.isSome = true
  | insert i v => i ≤ xs.length ∧ (nulls = true ∨ v.isSome = true)
  | set i v => i < xs.length ∧ (nulls = true ∨ v.isSome = true)
  | erase i => i < xs.length
  | move dst i => enum = false ∧ (i = 0 ∨ i < xs.length) ∧ (∃ ys, dst.Holds ys) ∧
      (dst.nullable = true ∨ nulls = false)
  | clear => True

end StringOp

namespace ArrayString

open StringLeaf

/-- One operation on the array; of `move` the array is kept, and what it gave `dst` is left. -/
def step (a : ArrayString) : StringOp → Except String ArrayString
  | .add v => a.add v
  | .insert i v => a.insert i v
  | .set i v => a.set i v
  | .erase i => a.erase i
  | .move dst i => Prod.fst <$> a.move dst i
  | .clear => a.clear

/-- What a run keeps: the array holds the strings, stores null where nulls are allowed and
holds none where they are not, and its leaf stays enumerated or not. -/
structure Inv (nulls enum : Bool) (a : ArrayString) (xs : List StringData) : Prop where
  holds : a.Holds xs
  nullable : nulls = true → a.nullable = true
  no_null : nulls = false → ∀ x ∈ xs, x.isSome = true
  isEnum_eq : a.isEnum = enum

section Inv

variable {nulls enum : Bool} {a : ArrayString} {xs : List StringData}

lemma Inv.accepts (h : Inv nulls enum a xs) {v : StringData} (hv : nulls = true ∨ v.isSome = true) :
    a.Accepts v :=
  hv.imp h.nullable id

/-- Every operation its callers admit succeeds and keeps the array holding what the operation
makes of the strings. -/
theorem step_inv (h : Inv nulls enum a xs) {o : StringOp} (hok : o.Admissible nulls enum xs) :
    ∃ a', a.step o = .ok a' ∧ Inv nulls enum a' (o.apply xs) := by
  cases o with
  | add v =>
    obtain ⟨a', ha, h', hn, he⟩ := add_holds h.holds (h.accepts hok)
    refine ⟨a', ha, h', fun hs => hn (h.nullable hs), fun hs x hx => ?_, he.trans h.isEnum_eq⟩
    rcases List.mem_append.mp hx with hx | hx
    · exact h.no_null hs x hx
    · rw [List.mem_singleton.mp hx]
      exact hok.resolve_left (by simp [hs])
  | insert i v =>
    obtain ⟨a', ha, h', hn, he⟩ := insert_holds h.holds hok.1 (h.accepts hok.2)
    refine ⟨a', ha, h', fun hs => hn (h.nullable hs), fun hs x hx => ?_, he.trans h.isEnum_eq⟩
    rcases (List.mem_insertIdx hok.1).mp hx with rfl | hx
    · exact hok.2.resolve_left (by simp [hs])
    · exact h.no_null hs x hx
  | set i v =>
    obtain ⟨a', ha, h', hn, he⟩ := set_holds h.holds hok.1 (h.accepts hok.2)
    refine ⟨a', ha, h', fun hs => hn (h.nullable hs), fun hs x hx => ?_, he.trans h.isEnum_eq⟩
    rcases List.mem_or_eq_of_mem_set hx with hx | rfl
    · exact h.no_null hs x hx
    · exact hok.2.resolve_left (by simp [hs])
  | erase i =>
    obtain ⟨a', ha, h', hn, he⟩ := erase_holds h.holds hok
    exact ⟨a', ha, h', fun hs => hn (h.nullable hs),
      fun hs x hx => h.no_null hs x (List.mem_of_mem_eraseIdx hx), he.trans h.isEnum_eq⟩
  | move dst i =>
    obtain ⟨henum, hi, ⟨ys, hd⟩, hdst⟩ := hok
    cases a with
    | enumStrings _ _ => exact absurd (h.isEnum_eq.trans henum) (by simp [isEnum])
    | strings l =>
      -- `dst` stores null, or the array holds none
      have hacc : dst.nullable = true ∨ ∀ x ∈ xs, x.isSome = true :=
        hdst.imp id fun hs => h.no_null hs
      obtain ⟨a', dst', hmove, h', -, hn, he⟩ := move_holds h.holds hd hacc hi
      refine ⟨a', by simp [step, hmove], h', fun hs => hn (h.nullable hs),
        fun hs x hx => h.no_null hs x (List.mem_of_mem_take hx), he.trans h.isEnum_eq⟩
  | clear =>
    obtain ⟨a', ha, h', hn, he⟩ := clear_holds h.holds
    exact ⟨a', ha, h', fun hs => hn (h.nullable hs), (fun _ x hx => nomatch hx),
      he.trans h.isEnum_eq⟩

/-- Along every run of operations its callers admit, every operation succeeds and the array
holds what the operations make of the strings. -/
theorem runExcept_holds (h : Inv nulls enum a xs) (ops : List StringOp)
    (hadm : Run.Admissible StringOp.apply (StringOp.Admissible nulls enum) xs ops) :
    ∃ a', Run.runExcept step a ops = .ok a' ∧ Inv nulls enum a' (Run.run StringOp.apply xs ops) :=
  Run.runExcept_simulation (R := Inv nulls enum) (fun _ _ o hs hok => step_inv (o := o) hs hok) ops
    a xs h hadm

end Inv

/-- A new array holds no strings and stores null. -/
lemma create_inv : Inv true false create [] :=
  ⟨⟨[], ⟨by simp [ArrayStringShort.create, ArrayStringShort.widths], rfl, rfl,
    (fun _ hy => nomatch hy)⟩, rfl⟩, fun _ => rfl, (fun _ _ hx => nomatch hx), rfl⟩

/-- Nulls added to a new array are counted by its small leaf, at width `0`. -/
lemma run_add_null :
    ∀ n, Run.runExcept step create (List.replicate n (.add none)) =
      .ok (strings (smallStrings ⟨true, 0, n, []⟩))
  | 0 => rfl
  | n + 1 => by
    have ih := run_add_null n
    unfold Run.runExcept at ih ⊢
    rw [List.replicate_succ', List.foldlM_append, ih]
    simp [step, add, StringLeaf.add, upgradeThen, upgradeLeaf, onLeaf, smallStringMaxSize,
      ArrayStringShort.add_null_zero_width, bind, Except.bind, pure, Except.pure]

/-- Nulls added to a new array: it holds them, yet `find_first(null, b, b)` over the empty
range `[b, b)` answers `b`, at every `b` below their number, where no position of the range
holds anything. -/
theorem findFirst_null_empty_range {n b : Nat} (hb : b < n) (hn : n ≤ npos) :
    ∃ a, Run.runExcept step create (List.replicate n (.add none)) = .ok a ∧
      a.Holds (List.replicate n none) ∧ a.findFirst none b b = .ok (some b) ∧
      findFirstSpec (List.replicate n none) none b b = none := by
  have hfit : ∀ y ∈ List.replicate n (none : StringData), ArrayStringShort.Fits 0 y :=
    fun y hy => Or.inr (List.eq_of_mem_replicate hy)
  refine ⟨_, run_add_null n, ⟨List.replicate n none, ⟨by simp [ArrayStringShort.widths], rfl,
    by simp, hfit⟩, by simp [readAs]⟩, ?_, ?_⟩
  · exact ArrayStringShort.findFirst_zero_width rfl rfl hb (by unfold npos at hn ⊢; omega)
  · simp [findFirstSpec, firstFrom, show b ≠ npos by unfold npos at hn ⊢; omega]

theorem findFirst_null_at_one_of_two : 1 < 2 ∧ 2 ≤ npos ∧
    ∃ a, Run.runExcept step create (List.replicate 2 (.add none)) = .ok a ∧
      a.Holds (List.replicate 2 none) ∧ a.findFirst none 1 1 = .ok (some 1) ∧
      findFirstSpec (List.replicate 2 none) none 1 1 = none :=
  ⟨by decide, by decide, findFirst_null_empty_range (by decide) (by decide)⟩

end ArrayString

end Realm
