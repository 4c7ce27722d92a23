import Mathlib
import RealmCore.Index.StringIndex

/-!
# An indexed column

A column of single values with a search index.  Every write of the column goes through the
index first, while the column still holds the old value: creating an object calls
`StringIndex::insert`, `Obj::set` calls `StringIndex::set`, and removing an object calls
`StringIndex::erase`.  `IndexedColumn.step` is one such write, on the column's values and its
index together; the objects whose value is `==` to a query (`IndexedColumn.matching`) are what
a scan of the column finds, and what the lookups of the index are for.

The lookups are sound: an object `find_first` returns holds a value `==` to the query
(`findFirst_mem_matching`).  They are not complete across the numeric types.  A `Float` and a
`Double` of one non-integral value are `==`, but `get_index_data` keeps the four bytes of the
one and the eight bytes of the other, so a lookup for the double descends by other keys than
those the float is indexed under.
-/

namespace Realm

/-- A column of single values and its search index. -/
structure IndexedColumn where
  values : AList fun _ : ObjKey => Mixed
  index : StringIndex.IndexNode

namespace IndexedColumn

/-- An empty column with an empty index. -/
def empty : IndexedColumn := ⟨∅, []⟩

/-- `ClusterColumn::get_value(key)` over the values `values`. -/
def valueOf (values : AList fun _ : ObjKey => Mixed) (k : ObjKey) : Mixed :=
  (values.lookup k).getD .null

/-- The value of an object of the column. -/
def getValue (c : IndexedColumn) (k : ObjKey) : Mixed :=
  valueOf c.values k

/-- A write of the column. -/
inductive IndexOp where
  | insert (key : ObjKey) (value : Mixed)
  | erase (key : ObjKey)
  | set (key : ObjKey) (value : Mixed)
deriving Repr

/-- One write, on the index and then the column. -/
def step (c : IndexedColumn) : IndexOp → IndexedColumn
  | .insert k v =>
    let values := c.values.insert k v
    ⟨values, StringIndex.insert (valueOf values) c.index k v⟩
  | .erase k => ⟨c.values.erase k, StringIndex.erase c.getValue c.index k⟩
  | .set k v => ⟨c.values.insert k v, StringIndex.set c.getValue c.index k v⟩

/-- The objects whose value is `==` to `q`: what a scan of the column finds. -/
def matching (c : IndexedColumn) (q : Mixed) : List ObjKey :=
  c.values.keys.filter fun k => (c.getValue k).eq q

/-- A value `==` to a value other than null is not null. -/
lemma ne_null_of_eq {v q : Mixed} (hq : q ≠ .null) (h : v.eq q = true) : v ≠ .null := by
  rintro rfl
  cases q <;> simp_all [Mixed.eq, Mixed.compare]

/-- An object `find_first` returns for a query other than null is one of the objects a scan
finds. -/
theorem findFirst_mem_matching (c : IndexedColumn) {q : Mixed} (hq : q ≠ .null)
    (h : StringIndex.findFirst c.getValue c.index q ≠ ObjKey.null) :
    StringIndex.findFirst c.getValue c.index q ∈ c.matching q := by
  have heq := StringIndex.findFirst_sound c.getValue c.index q h
  -- the object holds a value, so it is an object of the column
  have hmem : StringIndex.findFirst c.getValue c.index q ∈ c.values := by
    by_contra hnot
    have hnull : c.getValue (StringIndex.findFirst c.getValue c.index q) = .null := by
      simp [getValue, valueOf, AList.lookup_eq_none.mpr hnot]
    exact ne_null_of_eq hq heq hnull
  exact List.mem_filter.mpr ⟨(AList.mem_keys).mpr hmem, heq⟩

theorem findFirst_misses_equal_double :
    ∃ c, c = Run.run step empty [.insert ⟨0⟩ (Mixed.ofFloat ⟨0x3F000000⟩)] ∧
      c.matching (.double ⟨0x3FE0000000000000⟩) = [⟨0⟩] ∧
      StringIndex.findFirst c.getValue c.index (.double ⟨0x3FE0000000000000⟩) = ObjKey.null ∧
      StringIndex.count c.getValue c.index (.double ⟨0x3FE0000000000000⟩) = 0 ∧
      StringIndex.findAll c.getValue c.index (.double ⟨0x3FE0000000000000⟩) = [] := by
  refine ⟨_, rfl, ?_⟩
  decide

end IndexedColumn

end Realm
