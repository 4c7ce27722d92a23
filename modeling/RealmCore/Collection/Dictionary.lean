import Mathlib
import RealmCore.Lib.LowerBound
import RealmCore.Lib.ZipLookup
import RealmCore.Lib.Run

/-!
# `Dictionary`: keys and values in two parallel trees

`realm::Dictionary` (src/realm/dictionary.cpp) keeps its keys in ascending order in one B+-tree,
`m_keys`, and each value at its key's position in another, `m_values`.  `find_impl` locates a
key with `std::lower_bound` over the keys; `insert` puts a new key and its value at that
position in both trees and overwrites the value of a key already there; `erase` and
`try_erase` remove both entries at the position of a key they find.

With its keys strictly ascending and as many values as keys (`WF`), a dictionary is the finite
map `get?` that pairs each key with the value at its position.  Every write keeps `WF` and acts
on that map as the write of a map (`step_spec`), so every run keeps `WF` (`wf_run`), and
`try_get` and `contains` read the map (`tryGet_eq`, `contains_eq`).

`erase(Iterator)` erases the entry at the iterator's position and then steps past that
position.  The erase has already moved the next entry into it, so the iterator returned misses
that entry (`eraseIterator_skips_next`), and a loop `it = erase(it)` from `begin()` leaves every
other entry behind.

Replication, backlinks, nested collections and the checks of the value's type are left out; the
value type is a parameter, with what `do_get` reads of it.
-/

namespace Realm

open LowerBound ZipLookup

/-- The exceptions of the dictionary's writes: `InvalidDictionaryKey` from `validate_key_value`,
`KeyNotFound` from `erase(key)`, whose message names the key, and the out-of-range error of
`validate_index`. -/
inductive DictionaryError (K : Type) where
  | invalidDictionaryKey (message : String)
  | keyNotFound (key : K)
  | outOfBounds (message : String) (index size : Nat)
deriving DecidableEq, Repr

/-- `m_keys` and `m_values`. -/
structure Dictionary (K V : Type) where
  keys : List K
  values : List V
deriving DecidableEq, Repr

/-- What a dictionary reads of its values: the null value, and whether a value is a typed link
to an unresolved object. -/
structure ValueOps (V : Type) where
  null : V
  isUnresolvedLink : V → Bool

/-- `validate_key_value` on a string key: it must not start with `$` or contain `.`.  It checks
nothing of an integer key. -/
def validateKeyValue (key : String) : Except (DictionaryError String) Unit :=
  if key ≠ "" ∧ key.front = '$' then
    .error (.invalidDictionaryKey "Dictionary::insert: key must not start with '$'")
  else if key.contains '.' then
    .error (.invalidDictionaryKey "Dictionary::insert: key must not contain '.'")
  else .ok ()

namespace Dictionary

variable {K V : Type} [LinearOrder K]

section Ops

variable (validate : K → Except (DictionaryError K) Unit) (ops : ValueOps V)

/-- `Dictionary::size()`, the size of `m_values`. -/
def size (d : Dictionary K V) : Nat :=
  d.values.length

/-- `find_impl(key)`: `std::lower_bound` over the keys, and the key there if there is one. -/
def findImpl (d : Dictionary K V) (key : K) : Nat × Option K :=
  let ndx := lowerBound (fun x y => decide (x < y)) d.keys key
  (ndx, d.keys[ndx]?)

/-- `do_find_key(key)`: the position of `key`, `none` for `npos`. -/
def doFindKey (d : Dictionary K V) (key : K) : Option Nat :=
  if (d.findImpl key).2 = some key then some (d.findImpl key).1 else none

/-- `do_get(ndx)`: the value at `ndx`, an unresolved link reading as null. -/
def doGet (d : Dictionary K V) (ndx : Nat) : V :=
  let val := d.values.getD ndx ops.null
  if ops.isUnresolvedLink val then ops.null else val

/-- `Dictionary::try_get(key)`. -/
def tryGet (d : Dictionary K V) (key : K) : Option V :=
  (d.doFindKey key).map (d.doGet ops)

/-- `Dictionary::contains(key)`. -/
def contains (d : Dictionary K V) (key : K) : Bool :=
  (d.doFindKey key).isSome

/-- `Dictionary::insert(key, value)`: the position of the key and whether it was new, and the
dictionary after. -/
def insert (d : Dictionary K V) (key : K) (value : V) :
    Except (DictionaryError K) ((Nat × Bool) × Dictionary K V) := do
  validate key
  let (ndx, actualKey) := d.findImpl key
  if actualKey ≠ some key then
    return ((ndx, true), ⟨d.keys.insertIdx ndx key, d.values.insertIdx ndx value⟩)
  else
    return ((ndx, false), ⟨d.keys, d.values.set ndx value⟩)

/-- `do_erase(ndx, key)`: the erase from both trees. -/
def doErase (d : Dictionary K V) (ndx : Nat) : Dictionary K V :=
  ⟨d.keys.eraseIdx ndx, d.values.eraseIdx ndx⟩

/-- `Dictionary::try_erase(key)`: whether the key was there, and the dictionary after. -/
def tryErase (d : Dictionary K V) (key : K) :
    Except (DictionaryError K) (Bool × Dictionary K V) := do
  validate key
  match d.doFindKey key with
  | some ndx => return (true, d.doErase ndx)
  | none => return (false, d)

/-- `Dictionary::erase(key)`: `try_erase`, throwing `KeyNotFound` when the key is absent. -/
def erase (d : Dictionary K V) (key : K) : Except (DictionaryError K) (Dictionary K V) := do
  let (erased, d') ← d.tryErase validate key
  if erased then return d' else throw (.keyNotFound key)

/-- `Dictionary::erase(Iterator)` at the iterator's position `pos`: the position of the iterator
returned, and the dictionary after. -/
def eraseIterator (d : Dictionary K V) (pos : Nat) :
    Except (DictionaryError K) (Nat × Dictionary K V) :=
  if pos < d.size then
    let d' := d.doErase pos
    .ok (if pos < d'.size then pos + 1 else pos, d')
  else .error (.outOfBounds "erase()" pos d.size)

/-- The writes to a dictionary. -/
inductive Op (K V : Type)
  | insert (key : K) (value : V)
  | erase (key : K)
  | tryErase (key : K)
  | eraseIterator (pos : Nat)

/-- One write; one that throws leaves the dictionary as it was. -/
def step (d : Dictionary K V) : Op K V → Dictionary K V
  | .insert key value =>
    match d.insert validate key value with
    | .ok r => r.2
    | .error _ => d
  | .erase key =>
    match d.erase validate key with
    | .ok d' => d'
    | .error _ => d
  | .tryErase key =>
    match d.tryErase validate key with
    | .ok r => r.2
    | .error _ => d
  | .eraseIterator pos =>
    match d.eraseIterator pos with
    | .ok r => r.2
    | .error _ => d

end Ops

/-! ## The map a dictionary holds -/

/-- The value paired with `k`. -/
def get? (d : Dictionary K V) (k : K) : Option V :=
  (d.keys.zip d.values).lookup k

/-- Keys strictly ascending, and a value for each. -/
structure WF (d : Dictionary K V) : Prop where
  sorted : d.keys.SortedLT
  length_eq : d.keys.length = d.values.length

variable {validate : K → Except (DictionaryError K) Unit} {d : Dictionary K V}

lemma WF.nodup (h : d.WF) : d.keys.Nodup :=
  (List.sortedLT_iff_nodup_and_sortedLE.mp h.sorted).1

lemma wf_empty : (⟨[], []⟩ : Dictionary K V).WF :=
  ⟨List.sortedLT_iff_pairwise.mpr List.Pairwise.nil, rfl⟩

lemma findImpl_eq (h : d.keys.SortedLT) (key : K) :
    d.findImpl key = (below d.keys key, d.keys[below d.keys key]?) := by
  simp [findImpl, lowerBound_eq_below h]

/-- `do_find_key` on ascending keys: the position of the key, when it is there. -/
lemma doFindKey_eq (h : d.keys.SortedLT) (key : K) :
    d.doFindKey key = if key ∈ d.keys then some (below d.keys key) else none := by
  unfold doFindKey
  rw [findImpl_eq h]
  by_cases hk : key ∈ d.keys
  · obtain ⟨hlt, hat⟩ := (mem_iff_of_sortedLT h key).mp hk
    simp [hk, List.getElem?_eq_getElem hlt, hat]
  · rw [if_neg hk, if_neg]
    exact fun hget => hk (List.mem_of_getElem? hget)

/-- The value of a key in the tree is the value at its position. -/
lemma get?_of_mem (hwf : d.WF) {key : K} (hk : key ∈ d.keys) :
    ∃ hv : below d.keys key < d.values.length, d.get? key = some d.values[below d.keys key] := by
  obtain ⟨hlt, hat⟩ := (mem_iff_of_sortedLT hwf.sorted key).mp hk
  have hv : below d.keys key < d.values.length := hwf.length_eq ▸ hlt
  have hlook := lookup_zip_getElem hwf.nodup hlt hv
  rw [hat] at hlook
  exact ⟨hv, hlook⟩

/-- The keys of the map are the keys of the tree. -/
lemma get?_isSome_iff (hwf : d.WF) (k : K) : (d.get? k).isSome ↔ k ∈ d.keys := by
  constructor
  · intro hk
    by_contra hnot
    rw [get?, lookup_zip_of_not_mem hnot] at hk
    cases hk
  · intro hk
    obtain ⟨_, hget⟩ := get?_of_mem hwf hk
    rw [hget]
    rfl

/-- `try_get` reads the map, an unresolved link reading as null. -/
theorem tryGet_eq (ops : ValueOps V) (hwf : d.WF) (key : K) :
    d.tryGet ops key =
      (d.get? key).map fun v => if ops.isUnresolvedLink v then ops.null else v := by
  unfold tryGet
  rw [doFindKey_eq hwf.sorted]
  by_cases hk : key ∈ d.keys
  · obtain ⟨hv, hget⟩ := get?_of_mem hwf hk
    rw [if_pos hk, hget]
    simp [doGet, List.getElem?_eq_getElem hv]
  · rw [if_neg hk, get?, lookup_zip_of_not_mem hk]
    rfl

theorem contains_eq (hwf : d.WF) (key : K) : d.contains key = (d.get? key).isSome := by
  unfold contains
  rw [doFindKey_eq hwf.sorted]
  by_cases hk : key ∈ d.keys
  · rw [if_pos hk, Option.isSome_some, Eq.comm, (get?_isSome_iff hwf key).mpr hk]
  · rw [if_neg hk, Option.isSome_none, Eq.comm, Bool.eq_false_iff]
    exact fun h => hk ((get?_isSome_iff hwf key).mp h)

/-! ## The writes -/

/-- `insert` of a valid key: it reports the key's position and whether it was absent; a new key
goes in at its place in order, with its value at the same position, and the value of a key
already there is overwritten. -/
theorem insert_eq (hwf : d.WF) {key : K} (value : V) (hvalid : validate key = .ok ()) :
    d.insert validate key value =
      .ok ((below d.keys key, decide (key ∉ d.keys)),
        if key ∈ d.keys then ⟨d.keys, d.values.set (below d.keys key) value⟩
        else ⟨d.keys.insertIdx (below d.keys key) key,
          d.values.insertIdx (below d.keys key) value⟩) := by
  unfold insert
  rw [hvalid, findImpl_eq hwf.sorted]
  by_cases hk : key ∈ d.keys
  · obtain ⟨hlt, hat⟩ := (mem_iff_of_sortedLT hwf.sorted key).mp hk
    simp [hk, List.getElem?_eq_getElem hlt, hat, bind, Except.bind, pure, Except.pure]
  · have hnot : d.keys[below d.keys key]? ≠ some key :=
      fun hget => hk (List.mem_of_getElem? hget)
    simp [hk, hnot, bind, Except.bind, pure, Except.pure]

/-- Erasing the entry at a position with a key keeps `WF` and unbinds that key. -/
lemma doErase_spec (hwf : d.WF) {pos : Nat} (hpos : pos < d.keys.length) :
    (d.doErase pos).WF ∧
      ∀ k, (d.doErase pos).get? k = if k = d.keys[pos] then none else d.get? k := by
  refine ⟨⟨?_, ?_⟩, fun k => lookup_zip_eraseIdx k hwf.nodup hpos hwf.length_eq⟩
  · exact List.sortedLT_iff_pairwise.mpr
      ((List.sortedLT_iff_pairwise.mp hwf.sorted).sublist (List.eraseIdx_sublist _ _))
  · simp [doErase, List.length_eraseIdx, hwf.length_eq]

/-- `insert` of a valid key keeps `WF` and binds the key to the value. -/
lemma insert_spec (hwf : d.WF) {key : K} (value : V) (hvalid : validate key = .ok ()) :
    ∃ r, d.insert validate key value = .ok r ∧ r.2.WF ∧
      ∀ k, r.2.get? k = if k = key then some value else d.get? k := by
  refine ⟨_, insert_eq hwf value hvalid, ?_⟩
  by_cases hk : key ∈ d.keys
  · obtain ⟨hlt, hat⟩ := (mem_iff_of_sortedLT hwf.sorted key).mp hk
    rw [if_pos hk]
    refine ⟨⟨hwf.sorted, by simp [hwf.length_eq]⟩, fun k => ?_⟩
    rw [get?, lookup_zip_set value k hwf.nodup hlt hwf.length_eq, hat]
    rfl
  · rw [if_neg hk]
    have hle := below_le_length d.keys key
    refine ⟨⟨?_, ?_⟩, fun k => lookup_zip_insertIdx value k hk hle hwf.length_eq⟩
    · show (d.keys.insertIdx (below d.keys key) key).SortedLT
      rw [insertIdx_eq_orderedInsert]
      exact sortedLT_orderedInsert hwf.sorted hk
    · simp [List.length_insertIdx, hwf.length_eq ▸ hle, hwf.length_eq]

/-- `try_erase` of a valid key keeps `WF`, reports whether the key was there, and unbinds it. -/
lemma tryErase_spec (hwf : d.WF) {key : K} (hvalid : validate key = .ok ()) :
    ∃ r, d.tryErase validate key = .ok r ∧ r.1 = decide (key ∈ d.keys) ∧ r.2.WF ∧
      ∀ k, r.2.get? k = if k = key then none else d.get? k := by
  unfold tryErase
  rw [hvalid, doFindKey_eq hwf.sorted]
  by_cases hk : key ∈ d.keys
  · obtain ⟨hlt, hat⟩ := (mem_iff_of_sortedLT hwf.sorted key).mp hk
    obtain ⟨hwf', hget⟩ := doErase_spec hwf hlt
    refine ⟨_, by simp only [if_pos hk]; rfl, by simp [hk], hwf', fun k => ?_⟩
    rw [hget k, hat]
  · refine ⟨_, by simp only [if_neg hk]; rfl, by simp [hk], hwf, fun k => ?_⟩
    by_cases hkey : k = key
    · rw [if_pos hkey, hkey, get?, lookup_zip_of_not_mem hk]
    · rw [if_neg hkey]

/-- Every write keeps `WF`, and acts on the map as a map's write: `insert` binds a valid key,
`erase` and `try_erase` unbind one, and `erase(Iterator)` unbinds the key at its position. -/
theorem step_spec (hwf : d.WF) (o : Op K V) :
    (d.step validate o).WF ∧ ∀ k, (d.step validate o).get? k =
      match o with
      | .insert key value => if (validate key).isOk ∧ k = key then some value else d.get? k
      | .erase key => if (validate key).isOk ∧ k = key then none else d.get? k
      | .tryErase key => if (validate key).isOk ∧ k = key then none else d.get? k
      | .eraseIterator pos => if d.keys[pos]? = some k then none else d.get? k := by
  cases o with
  | insert key value =>
    cases hvalid : validate key with
    | error e =>
      have herr : d.insert validate key value = .error e := by
        simp [insert, hvalid, bind, Except.bind]
      simp [step, herr, hwf, hvalid, Except.isOk, Except.toBool]
    | ok u =>
      obtain ⟨r, hr, hwf', hget⟩ := insert_spec hwf value hvalid
      refine ⟨by simp [step, hr, hwf'], fun k => ?_⟩
      simp [step, hr, hget, hvalid, Except.isOk, Except.toBool]
  | erase key =>
    cases hvalid : validate key with
    | error e =>
      have herr : d.erase validate key = .error e := by
        simp [erase, tryErase, hvalid, bind, Except.bind]
      simp [step, herr, hwf, hvalid, Except.isOk, Except.toBool]
    | ok u =>
      obtain ⟨r, hr, hflag, hwf', hget⟩ := tryErase_spec hwf hvalid
      by_cases hk : key ∈ d.keys
      · -- the key is there: `erase` is `try_erase`
        have hok : d.erase validate key = .ok r.2 := by
          simp [erase, hr, hflag, hk, bind, Except.bind, pure, Except.pure]
        refine ⟨by simp [step, hok, hwf'], fun k => ?_⟩
        simp [step, hok, hget, hvalid, Except.isOk, Except.toBool]
      · -- the key is absent: `erase` throws and the map had no value for it
        have herr : d.erase validate key = .error (.keyNotFound key) := by
          simp [erase, hr, hflag, hk, bind, Except.bind, throw, throwThe, MonadExceptOf.throw]
        refine ⟨by simp [step, herr, hwf], fun k => ?_⟩
        by_cases hkey : k = key
        · simp [step, herr, hkey, get?, lookup_zip_of_not_mem hk, hvalid, Except.isOk, Except.toBool]
        · simp [step, herr, hkey]
  | tryErase key =>
    cases hvalid : validate key with
    | error e =>
      have herr : d.tryErase validate key = .error e := by
        simp [tryErase, hvalid, bind, Except.bind]
      simp [step, herr, hwf, hvalid, Except.isOk, Except.toBool]
    | ok u =>
      obtain ⟨r, hr, -, hwf', hget⟩ := tryErase_spec hwf hvalid
      refine ⟨by simp [step, hr, hwf'], fun k => ?_⟩
      simp [step, hr, hget, hvalid, Except.isOk, Except.toBool]
  | eraseIterator pos =>
    by_cases hpos : pos < d.size
    · have hlt : pos < d.keys.length := hwf.length_eq ▸ hpos
      obtain ⟨hwf', hget⟩ := doErase_spec hwf hlt
      have hok : d.eraseIterator pos =
          .ok (if pos < (d.doErase pos).size then pos + 1 else pos, d.doErase pos) := by
        simp only [eraseIterator, if_pos hpos]
      refine ⟨by simp [step, hok, hwf'], fun k => ?_⟩
      simp only [step, hok, hget, List.getElem?_eq_getElem hlt, Option.some.injEq, eq_comm]
    · have herr : d.eraseIterator pos = .error (.outOfBounds "erase()" pos d.size) := by
        simp only [eraseIterator, if_neg hpos]
      have hnone : d.keys[pos]? = none :=
        List.getElem?_eq_none (by rw [hwf.length_eq]; exact Nat.le_of_not_lt hpos)
      exact ⟨by simp [step, herr, hwf], fun k => by simp [step, herr, hnone]⟩

/-- Every run of writes from a dictionary with `WF` keeps it, in particular from an empty one. -/
theorem wf_run (hwf : d.WF) (ops : List (Op K V)) : (Run.run (step validate) d ops).WF :=
  @Run.run_invariant _ _ (step validate) WF (fun _ o h => (step_spec h o).1) ops d hwf

/-! ## `erase(Iterator)` -/

/-- `erase(Iterator)` at a position with an entry after it: the entry at the position is erased
and the next one moves into the position, but the iterator returned is one further, so it does
not point at that entry: it points at the entry after, or at the end. -/
theorem eraseIterator_skips_next (hwf : d.WF) {pos : Nat} (hpos : pos + 1 < d.size) :
    ∃ d', d.eraseIterator pos = .ok (pos + 1, d') ∧ d'.keys = d.keys.eraseIdx pos ∧
      d'.keys[pos]? = d.keys[pos + 1]? ∧ d'.keys[pos + 1]? ≠ d.keys[pos + 1]? := by
  have hlen : pos + 1 < d.keys.length := hwf.length_eq ▸ hpos
  have hv : pos + 1 < d.values.length := hpos
  have hsize : pos < (d.doErase pos).size := by
    simp only [size, doErase, List.length_eraseIdx]
    split_ifs <;> omega
  refine ⟨d.doErase pos, ?_, rfl, ?_, ?_⟩
  · simp only [eraseIterator, if_pos (Nat.lt_of_succ_lt hpos), if_pos hsize]
  · simp only [doErase, List.getElem?_eraseIdx, lt_irrefl, if_false]
  · -- the entry now after the position is the one two after it, or there is none
    simp only [doErase, List.getElem?_eraseIdx, if_neg (by omega : ¬pos + 1 < pos)]
    rw [List.getElem?_eq_getElem hlen]
    by_cases h2 : pos + 2 < d.keys.length
    · rw [List.getElem?_eq_getElem h2, Ne, Option.some.injEq]
      have hlt : d.keys[pos + 1] < d.keys[pos + 2] :=
        List.sortedLT_iff_getElem_lt_getElem_of_lt.mp hwf.sorted (by omega)
      exact ne_of_gt hlt
    · rw [List.getElem?_eq_none (by omega)]
      exact (Option.some_ne_none _).symm

/-- The keys `1`, `2`, `3` with the values `10`, `20`, `30`. -/
def oneTwoThree : Dictionary Int Int := ⟨[1, 2, 3], [10, 20, 30]⟩

lemma wf_oneTwoThree : oneTwoThree.WF :=
  ⟨List.sortedLT_iff_pairwise.mpr (by decide), rfl⟩

/-- `it = erase(begin())` on `{1, 2, 3}` returns an iterator at `3`, not at `2`; one more
`it = erase(it)` erases `3` and returns `end()`, with `2` still in the dictionary. -/
theorem eraseIterator_skips_next_from_begin :
    (∃ d', oneTwoThree.eraseIterator 0 = .ok (0 + 1, d') ∧
      d'.keys = oneTwoThree.keys.eraseIdx 0 ∧ d'.keys[0]? = oneTwoThree.keys[0 + 1]? ∧
      d'.keys[0 + 1]? ≠ oneTwoThree.keys[0 + 1]?) ∧
    (oneTwoThree.eraseIterator 0 >>= fun r => r.2.eraseIterator r.1) =
      .ok (1, ⟨[2], [20]⟩) :=
  ⟨eraseIterator_skips_next wf_oneTwoThree (by decide), by decide⟩

end Dictionary

end Realm
