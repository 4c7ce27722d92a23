import Mathlib
import RealmCore.Lib.LowerBound
import RealmCore.ObjKey

/-!
# Object IDs and the hash-collision table

A table with a primary key gives the object of primary key `pk` the local key
`get_optimistic_local_id_hashed(GlobalKey(pk))`, the low 62 bits of the object ID
(src/realm/table.cpp).  When two object IDs meet at one local key,
`allocate_local_id_after_hash_collision` records both in the collision table, three parallel
`int64_t` arrays `lo`, `hi` and `local_id` in the table's top array, and
`global_to_local_object_id_hashed` looks an object ID up there before falling back on its
optimistic key; `free_local_id_after_hash_collision` drops the entry of a local key when the
object under it goes.

The arrays store the 64-bit halves of an object ID as `int64_t`.  The insertion position is
found with `lower_bound_int` on `hi`, which compares as signed integers, and then by a scan
that compares `lo` as unsigned; lookup uses `find_first` on `hi` and then on `lo`.  `rows`
reads the arrays back as a list of (object ID, local key) entries; in that view, as long as
the entries are strictly sorted in the order the insertion uses (`RowLt`, kept by `WF`), lookup
returns the local key recorded for an object ID or its optimistic key (`globalToLocal_eq`),
insertion keeps the entries sorted and adds the one entry (`WF.insertCollision_ok`), and
release takes out the entry of the key (`collisionEntries_free_perm`).
-/

namespace Realm

/-- `realm::GlobalKey`, an object ID of 128 bits. -/
@[ext]
structure GlobalKey where
  hi : UInt64
  lo : UInt64
deriving DecidableEq, Repr

namespace GlobalKey

/-- `GlobalKey(Mixed)` of a null primary key. -/
def null : GlobalKey := ⟨1, 0⟩

/-- `GlobalKey(Mixed)` of an `Int` primary key. -/
def ofInt (v : Int64) : GlobalKey := ⟨0, v.toUInt64⟩

/-- The bytes of a little-endian 64-bit word, lowest first. -/
def littleEndian (bytes : List UInt8) : UInt64 :=
  bytes.foldr (fun b acc => (acc <<< 8) ||| b.toUInt64) 0

end GlobalKey

/-- `realm::UUID`: sixteen bytes. -/
structure UUID where
  bytes : List UInt8
  length_bytes : bytes.length = 16
deriving DecidableEq

/-- `GlobalKey(Mixed)` of a `UUID` primary key: the two halves of its bytes, read as
`uint64_t` on a little-endian host. -/
def GlobalKey.ofUUID (u : UUID) : GlobalKey :=
  ⟨GlobalKey.littleEndian (u.bytes.take 8), GlobalKey.littleEndian (u.bytes.drop 8)⟩

/-- `GlobalKey::operator<`: by `hi`, then by `lo`, both unsigned. -/
def GlobalKey.lt (a b : GlobalKey) : Prop :=
  if a.hi = b.hi then a.lo < b.lo else a.hi < b.hi

instance : DecidableRel GlobalKey.lt := fun a b =>
  inferInstanceAs (Decidable (if a.hi = b.hi then a.lo < b.lo else a.hi < b.hi))

/-- `get_optimistic_local_id_hashed`: the low 62 bits of `lo`. -/
def getOptimisticLocalIdHashed (objectId : GlobalKey) : ObjKey :=
  ⟨(objectId.lo &&& 0x3fffffffffffffff).toInt64⟩

/-- `make_tagged_local_id_after_hash_collision`: bit 62 set over a sequence number, which
must fit below it. -/
def makeTaggedLocalIdAfterHashCollision (sequenceNumber : Nat) : Except String ObjKey :=
  if sequenceNumber >>> 62 ≠ 0 then .error "Assertion failed: !(sequence_number >> 62)"
  else .ok ⟨(0x4000000000000000 ||| sequenceNumber.toUInt64).toInt64⟩

/-- Optimistic keys lie in `[0, 2^62)`. -/
lemma getOptimisticLocalIdHashed_toInt (objectId : GlobalKey) :
    0 ≤ (getOptimisticLocalIdHashed objectId).value.toInt ∧
      (getOptimisticLocalIdHashed objectId).value.toInt < 2 ^ 62 := by
  have hmask : (0x3fffffffffffffff : UInt64).toNat = 2 ^ 62 - 1 := by decide
  have hand : objectId.lo.toNat &&& (2 ^ 62 - 1) ≤ 2 ^ 62 - 1 := Nat.and_le_right
  have hlt : (objectId.lo &&& 0x3fffffffffffffff).toNat < 2 ^ 62 := by
    rw [UInt64.toNat_and, hmask]
    omega
  have hv := toInt_toInt64_of_lt (show (objectId.lo &&& 0x3fffffffffffffff).toNat < 2 ^ 63 by omega)
  simp only [getOptimisticLocalIdHashed, hv]
  omega

/-- Tagged keys lie in `[2^62, 2^63)`: bit 62 over a sequence number below it. -/
lemma makeTaggedLocalIdAfterHashCollision_eq_ok {sequenceNumber : Nat} {key : ObjKey}
    (h : makeTaggedLocalIdAfterHashCollision sequenceNumber = .ok key) :
    sequenceNumber < 2 ^ 62 ∧ key.value.toInt = 2 ^ 62 + sequenceNumber := by
  rw [makeTaggedLocalIdAfterHashCollision] at h
  split_ifs at h with hsn
  injection h with h
  subst h
  have hlt : sequenceNumber < 2 ^ 62 := by
    rw [not_not, Nat.shiftRight_eq_div_pow] at hsn
    exact (Nat.div_eq_zero_iff_lt (Nat.two_pow_pos 62)).mp hsn
  have hsize : sequenceNumber < UInt64.size := by
    unfold UInt64.size
    omega
  have hor : (0x4000000000000000 ||| sequenceNumber.toUInt64).toNat = 2 ^ 62 + sequenceNumber := by
    have h62 : (0x4000000000000000 : UInt64).toNat = 2 ^ 62 := by decide
    rw [UInt64.toNat_or, UInt64.toNat_ofNat_of_lt' hsize, h62]
    have := Nat.two_pow_add_eq_or_of_lt hlt 1
    rw [Nat.mul_one] at this
    omega
  refine ⟨hlt, ?_⟩
  show (0x4000000000000000 ||| sequenceNumber.toUInt64).toInt64.toInt = _
  rw [toInt_toInt64_of_lt (by omega), hor]
  omega

/-! ## The order of the entries -/

/-- The order the collision table keeps its entries in: `hi` compared as a signed integer, as
`lower_bound_int` compares, then `lo` as an unsigned one, as the scan after it compares. -/
def RowLt (a b : GlobalKey) : Prop :=
  a.hi.toInt64 < b.hi.toInt64 ∨ (a.hi = b.hi ∧ a.lo < b.lo)

instance : DecidableRel RowLt := fun _ _ => inferInstanceAs (Decidable (_ ∨ _))

lemma hi_eq_iff_toInt_eq {a b : UInt64} : a = b ↔ a.toInt64.toInt = b.toInt64.toInt := by
  rw [Int64.toInt_inj]
  constructor
  · rintro rfl
    rfl
  · intro h
    rw [← UInt64.toUInt64_toInt64 a, h, UInt64.toUInt64_toInt64]

lemma rowLt_iff {a b : GlobalKey} : RowLt a b ↔
    a.hi.toInt64.toInt < b.hi.toInt64.toInt ∨
      (a.hi.toInt64.toInt = b.hi.toInt64.toInt ∧ a.lo.toNat < b.lo.toNat) := by
  rw [RowLt, Int64.lt_iff_toInt_lt, UInt64.lt_iff_toNat_lt, hi_eq_iff_toInt_eq]

lemma rowLt_irrefl (a : GlobalKey) : ¬ RowLt a a := by
  rw [rowLt_iff]
  omega

lemma rowLt_trans {a b c : GlobalKey} (hab : RowLt a b) (hbc : RowLt b c) : RowLt a c := by
  rw [rowLt_iff] at hab hbc ⊢
  omega

lemma rowLt_asymm {a b : GlobalKey} (hab : RowLt a b) : ¬ RowLt b a :=
  fun hba => rowLt_irrefl a (rowLt_trans hab hba)

/-- Two object IDs either side of each other in neither direction are equal. -/
lemma eq_of_not_rowLt {a b : GlobalKey} (hab : ¬ RowLt a b) (hba : ¬ RowLt b a) : a = b := by
  rw [rowLt_iff] at hab hba
  have hhi : a.hi = b.hi := hi_eq_iff_toInt_eq.2 (by omega)
  have hlo : a.lo = b.lo := UInt64.toNat_inj.mp (by omega)
  cases a
  cases b
  simp_all

/-- Entries below the same object ID have the same `hi` as every entry between them. -/
lemma hi_eq_of_rowLt_of_rowLt {a b c : GlobalKey} (hab : RowLt a b ∨ a = b)
    (hbc : RowLt b c ∨ b = c) (hac : a.hi = c.hi) : b.hi = c.hi := by
  have hac' := hi_eq_iff_toInt_eq.1 hac
  apply hi_eq_iff_toInt_eq.2
  rcases hab with hab | rfl <;> rcases hbc with hbc | rfl
  · rw [rowLt_iff] at hab hbc
    omega
  · rfl
  · exact hac'
  · exact hac'

/-! ## The arrays -/

namespace IntArray

/-- `Array::find_first(value, begin)`: the first index at or after `begin` holding `value`. -/
def findFirst (l : List Int64) (value : Int64) (start : Nat) : Option Nat :=
  ((l.drop start).findIdx? (· == value)).map (start + ·)

/-- `Array::lower_bound_int`: the branch-free binary search of `lower_bound` in
array_direct.hpp, comparing as signed integers.  Its unrolled copies of the loop body are the
same step, so the model runs the step alone. -/
def lowerBoundInt (l : List Int64) (value : Int64) : Nat :=
  LowerBound.halving (fun x v => decide (x < v)) l value 0 l.length

lemma findFirst_eq_some_iff {l : List Int64} {v : Int64} {s i : Nat} :
    findFirst l v s = some i ↔
      s ≤ i ∧ i < l.length ∧ l.getD i 0 = v ∧ ∀ j, s ≤ j → j < i → l.getD j 0 ≠ v := by
  rw [findFirst, Option.map_eq_some_iff]
  constructor
  · rintro ⟨a, ha, rfl⟩
    obtain ⟨hlt, hv, hbefore⟩ := List.findIdx?_eq_some_iff_getElem.mp ha
    rw [List.length_drop] at hlt
    refine ⟨Nat.le_add_right s a, by omega, ?_, ?_⟩
    · rw [List.getD_eq_getElem _ _ (by omega)]
      simpa using hv
    · intro j hsj hj h
      have hj' := hbefore (j - s) (by omega)
      rw [List.getD_eq_getElem _ _ (by omega)] at h
      simp [Nat.add_sub_cancel' hsj, h] at hj'
  · rintro ⟨hsi, hi, hv, hbefore⟩
    refine ⟨i - s, List.findIdx?_eq_some_iff_getElem.mpr ⟨by simp; omega, ?_, ?_⟩, by omega⟩
    · rw [List.getD_eq_getElem _ _ hi] at hv
      simp [Nat.add_sub_cancel' hsi, hv]
    · intro j hj
      have hj' := hbefore (s + j) (by omega) (by omega)
      rw [List.getD_eq_getElem _ _ (by omega)] at hj'
      simpa using hj'

lemma findFirst_eq_none_iff {l : List Int64} {v : Int64} {s : Nat} :
    findFirst l v s = none ↔ ∀ j, s ≤ j → j < l.length → l.getD j 0 ≠ v := by
  rw [findFirst, Option.map_eq_none_iff, List.findIdx?_eq_none_iff]
  constructor
  · intro h j hsj hj hv
    rw [List.getD_eq_getElem _ _ hj] at hv
    have hmem : l[j] ∈ l.drop s :=
      List.mem_iff_getElem.mpr ⟨j - s, by simp; omega, by simp [Nat.add_sub_cancel' hsj]⟩
    simpa [hv] using h l[j] hmem
  · intro h x hx
    obtain ⟨j, hj, rfl⟩ := List.getElem_of_mem hx
    rw [List.length_drop] at hj
    have hj' := h (s + j) (by omega) (by omega)
    rw [List.getD_eq_getElem _ _ (by omega)] at hj'
    simpa using hj'

/-- A value found at or after `s` is found first no later than there. -/
lemma exists_findFirst_le {l : List Int64} {v : Int64} {s j : Nat} (hsj : s ≤ j)
    (hj : j < l.length) (hv : l.getD j 0 = v) : ∃ i, findFirst l v s = some i ∧ i ≤ j := by
  cases h : findFirst l v s with
  | none => exact absurd hv (findFirst_eq_none_iff.1 h j hsj hj)
  | some i =>
    obtain ⟨-, -, -, hbefore⟩ := findFirst_eq_some_iff.1 h
    exact ⟨i, rfl, Nat.le_of_not_lt fun hji => hbefore j hsj hji hv⟩

end IntArray

/-- The collision table: `lo`, `hi` and `local_id` under `s_collision_map_lo`,
`s_collision_map_hi` and `s_collision_map_local_id`. -/
structure CollisionMap where
  lo : List Int64
  hi : List Int64
  localId : List Int64
deriving DecidableEq, Repr

namespace CollisionMap

/-- Entry `i` as the getters of the arrays read it: the object ID from `hi` and `lo`, and its
local key. -/
def row (cm : CollisionMap) (i : Nat) : Σ _ : GlobalKey, ObjKey :=
  ⟨⟨(cm.hi.getD i 0).toUInt64, (cm.lo.getD i 0).toUInt64⟩, ⟨cm.localId.getD i 0⟩⟩

/-- The entries, in the order of the arrays. -/
def rows (cm : CollisionMap) : List (Σ _ : GlobalKey, ObjKey) :=
  (List.range cm.hi.length).map cm.row

@[simp] lemma length_rows (cm : CollisionMap) : cm.rows.length = cm.hi.length := by
  simp [rows]

@[simp] lemma getElem_rows (cm : CollisionMap) {i : Nat} (hi : i < cm.rows.length) :
    cm.rows[i] = cm.row i := by
  simp [rows]

lemma mem_rows {cm : CollisionMap} {e : Σ _ : GlobalKey, ObjKey} :
    e ∈ cm.rows ↔ ∃ i < cm.hi.length, cm.row i = e := by
  simp [rows]

/-- A well-formed table: three arrays of one length whose entries are strictly sorted in the
order the insertion keeps. -/
structure WF (cm : CollisionMap) : Prop where
  length_lo : cm.lo.length = cm.hi.length
  length_localId : cm.localId.length = cm.hi.length
  sorted : cm.rows.Pairwise fun a b => RowLt a.1 b.1

namespace WF

variable {cm : CollisionMap}

lemma rowLt (hwf : cm.WF) {i j : Nat} (hij : i < j) (hj : j < cm.hi.length) :
    RowLt (cm.row i).1 (cm.row j).1 := by
  have h := List.pairwise_iff_getElem.mp hwf.sorted i j (by simp; omega) (by simpa using hj) hij
  simpa using h

lemma rowLt_or_eq (hwf : cm.WF) {i j : Nat} (hij : i ≤ j) (hj : j < cm.hi.length) :
    RowLt (cm.row i).1 (cm.row j).1 ∨ (cm.row i).1 = (cm.row j).1 := by
  rcases Nat.lt_or_eq_of_le hij with h | rfl
  · exact Or.inl (hwf.rowLt h hj)
  · exact Or.inr rfl

/-- Two entries with one object ID are one entry. -/
lemma eq_of_fst_eq (hwf : cm.WF) {i j : Nat} (hi : i < cm.hi.length) (hj : j < cm.hi.length)
    (h : (cm.row i).1 = (cm.row j).1) : i = j := by
  rcases Nat.lt_trichotomy i j with hij | rfl | hji
  · exact absurd (h ▸ hwf.rowLt hij hj) (rowLt_irrefl _)
  · rfl
  · exact absurd (h ▸ hwf.rowLt hji hi) (rowLt_irrefl _)

lemma nodupKeys (hwf : cm.WF) : cm.rows.NodupKeys :=
  List.nodupKeys_iff_pairwise.mpr <| hwf.sorted.imp fun {a b} h (heq : a.1 = b.1) =>
    rowLt_irrefl b.1 (heq ▸ h)

lemma dlookup_row (hwf : cm.WF) {i : Nat} (hi : i < cm.hi.length) :
    cm.rows.dlookup (cm.row i).1 = some (cm.row i).2 :=
  List.mem_dlookup hwf.nodupKeys (mem_rows.2 ⟨i, hi, rfl⟩)

end WF

lemma dlookup_rows_eq_none {cm : CollisionMap} {g : GlobalKey}
    (hg : ∀ i < cm.hi.length, (cm.row i).1 ≠ g) : cm.rows.dlookup g = none := by
  rw [List.dlookup_eq_none, List.mem_keys]
  rintro ⟨k, hk⟩
  obtain ⟨i, hi, hrow⟩ := mem_rows.1 hk
  exact hg i hi (by rw [hrow])

/-- The scan of `lower_bound_object_id` past the entries of the same `hi` and a smaller `lo`,
compared as unsigned. -/
def scanLo (cm : CollisionMap) (objectId : GlobalKey) (i : Nat) : Nat :=
  if h : i < cm.hi.length ∧ (cm.hi.getD i 0).toUInt64 = objectId.hi ∧
      (cm.lo.getD i 0).toUInt64 < objectId.lo then
    scanLo cm objectId (i + 1)
  else i
termination_by cm.hi.length - i

/-- `lower_bound_object_id`: where `objectId` belongs among the entries. -/
def lowerBoundObjectId (cm : CollisionMap) (objectId : GlobalKey) : Nat :=
  cm.scanLo objectId (IntArray.lowerBoundInt cm.hi objectId.hi.toInt64)

lemma row_hi_toInt64 (cm : CollisionMap) (i : Nat) : (cm.row i).1.hi.toInt64 = cm.hi.getD i 0 :=
  Int64.toInt64_toUInt64 _

/-- The scan moves past the entries of the same `hi` and a smaller `lo`, all below `g` in the
order of the entries, and stops at the first other one. -/
lemma scanLo_spec (cm : CollisionMap) (g : GlobalKey) :
    ∀ i, i ≤ cm.hi.length → (∀ j < i, RowLt (cm.row j).1 g) →
      i ≤ cm.scanLo g i ∧ cm.scanLo g i ≤ cm.hi.length ∧
      (∀ j < cm.scanLo g i, RowLt (cm.row j).1 g) ∧
      (cm.scanLo g i < cm.hi.length →
        ¬ ((cm.row (cm.scanLo g i)).1.hi = g.hi ∧ (cm.row (cm.scanLo g i)).1.lo < g.lo)) := by
  intro i hi hbelow
  fun_induction scanLo cm g i with
  | case1 i h ih =>
    have hrow : RowLt (cm.row i).1 g := Or.inr ⟨h.2.1, h.2.2⟩
    have hbelow' : ∀ j < i + 1, RowLt (cm.row j).1 g := fun j hj =>
      (Nat.lt_succ_iff_lt_or_eq.mp hj).elim (hbelow j) (fun h => h ▸ hrow)
    obtain ⟨h₁, h₂, h₃, h₄⟩ := ih (by omega) hbelow'
    exact ⟨by omega, h₂, h₃, h₄⟩
  | case2 i h => exact ⟨Nat.le_refl i, hi, hbelow, fun hlt hrow => h ⟨hlt, hrow⟩⟩

/-- `lower_bound_object_id` on well-formed entries: the entries before the position it returns
are below `g`, and the others are not. -/
lemma WF.lowerBoundObjectId_spec {cm : CollisionMap} (hwf : cm.WF) (g : GlobalKey) :
    cm.lowerBoundObjectId g ≤ cm.hi.length ∧
    (∀ j < cm.lowerBoundObjectId g, RowLt (cm.row j).1 g) ∧
    ∀ j, cm.lowerBoundObjectId g ≤ j → j < cm.hi.length → ¬ RowLt (cm.row j).1 g := by
  -- the signed `hi`s grow along the entries, so those below `g.hi` lead
  have hpart : ∀ (i : Nat) (hi : i < cm.hi.length), decide (cm.hi[i] < g.hi.toInt64) = true ↔
      i < (cm.hi.takeWhile fun x => decide (x < g.hi.toInt64)).length := by
    refine LowerBound.getElem_iff_lt_length_takeWhile (p := fun x => decide (x < g.hi.toInt64))
      fun i j hi hj hij h => ?_
    have hle := hwf.rowLt hij hj
    rw [rowLt_iff, row_hi_toInt64, row_hi_toInt64, List.getD_eq_getElem _ _ hj,
      List.getD_eq_getElem _ _ hi] at hle
    rw [decide_eq_true_iff, Int64.lt_iff_toInt_lt] at h ⊢
    omega
  set k := (cm.hi.takeWhile fun x => decide (x < g.hi.toInt64)).length
  have hkn : k ≤ cm.hi.length := (List.takeWhile_sublist _).length_le
  have hlb : IntArray.lowerBoundInt cm.hi g.hi.toInt64 = k :=
    LowerBound.halving_whole_eq_of_partition hkn hpart
  have hk : ∀ j < k, RowLt (cm.row j).1 g := fun j hj => by
    have hjn : j < cm.hi.length := Nat.lt_of_lt_of_le hj hkn
    have h := decide_eq_true_iff.mp ((hpart j hjn).mpr hj)
    left
    rwa [row_hi_toInt64, List.getD_eq_getElem _ _ hjn]
  obtain ⟨hkp, hpn, hbelow, hstop⟩ :=
    scanLo_spec cm g k hkn hk
  rw [lowerBoundObjectId, hlb]
  refine ⟨hpn, hbelow, fun j hpj hj => ?_⟩
  -- the entry where the scan stopped is not below `g`, and every later one is above it
  have hnot : ¬ RowLt (cm.row (cm.scanLo g k)).1 g := by
    have hpn' : cm.scanLo g k < cm.hi.length := by omega
    rintro (hlt | hlo)
    · rw [row_hi_toInt64, List.getD_eq_getElem _ _ hpn'] at hlt
      have := (hpart _ hpn').mp (decide_eq_true hlt)
      omega
    · exact hstop hpn' hlo
  rcases hwf.rowLt_or_eq hpj hj with h | h
  · exact fun hj' => hnot (rowLt_trans h hj')
  · exact h ▸ hnot

/-- `insert_collision`: record `objectId` under `newLocalId` where it belongs, unless it is
recorded already, which must then be under the same local key. -/
def insertCollision (cm : CollisionMap) (objectId : GlobalKey) (newLocalId : ObjKey) :
    Except String CollisionMap :=
  let i := cm.lowerBoundObjectId objectId
  if i ≠ cm.hi.length ∧
      (⟨(cm.hi.getD i 0).toUInt64, (cm.lo.getD i 0).toUInt64⟩ : GlobalKey) = objectId then
    if newLocalId.value = cm.localId.getD i 0 then .ok cm
    else .error "Assertion failed: new_local_id.value == local_id.get(i)"
  else
    .ok ⟨cm.lo.insertIdx i objectId.lo.toInt64, cm.hi.insertIdx i objectId.hi.toInt64,
      cm.localId.insertIdx i newLocalId.value⟩

/-- The entries after inserting one at position `p` of each array. -/
lemma rows_insertIdx {cm : CollisionMap} (hwf : cm.WF) {p : Nat} (hp : p ≤ cm.hi.length)
    (g : GlobalKey) (k : ObjKey) :
    (⟨cm.lo.insertIdx p g.lo.toInt64, cm.hi.insertIdx p g.hi.toInt64,
      cm.localId.insertIdx p k.value⟩ : CollisionMap).rows = cm.rows.insertIdx p ⟨g, k⟩ := by
  apply List.ext_getElem
  · simp [List.length_insertIdx, hp]
  · intro j h₁ h₂
    simp only [getElem_rows, List.getElem_insertIdx]
    simp only [row, List.getD_eq_getElem?_getD, List.getElem?_insertIdx]
    have := hwf.length_lo
    have := hwf.length_localId
    split_ifs <;> first | omega | simp_all

/-- The entries after erasing position `p` of each array. -/
lemma rows_eraseIdx (cm : CollisionMap) (p : Nat) :
    (⟨cm.lo.eraseIdx p, cm.hi.eraseIdx p, cm.localId.eraseIdx p⟩ : CollisionMap).rows =
      cm.rows.eraseIdx p := by
  apply List.ext_getElem
  · simp [List.length_eraseIdx]
  · intro j h₁ h₂
    simp only [getElem_rows, List.getElem_eraseIdx]
    simp only [row, List.getD_eq_getElem?_getD, List.getElem?_eraseIdx]
    split_ifs <;> rfl

section Insert

variable {cm : CollisionMap} {g : GlobalKey} {k : ObjKey}

/-- `insert_collision` of an object ID with an entry does nothing when the entry is for the
same key, and fails its assertion otherwise. -/
lemma WF.insertCollision_of_dlookup_eq_some (hwf : cm.WF) {k' : ObjKey}
    (h : cm.rows.dlookup g = some k') :
    cm.insertCollision g k = if k = k' then .ok cm
      else .error "Assertion failed: new_local_id.value == local_id.get(i)" := by
  obtain ⟨j, hj, hrow⟩ := mem_rows.1 (List.of_mem_dlookup h)
  obtain ⟨hpn, hbelow, habove⟩ := hwf.lowerBoundObjectId_spec g
  have hg : (cm.row j).1 = g := by rw [hrow]
  -- the insertion point is the entry of `g`: nothing before it is `g`, nothing after is below
  have hpj : cm.lowerBoundObjectId g = j := by
    rcases Nat.lt_trichotomy (cm.lowerBoundObjectId g) j with hlt | heq | hgt
    · have hlt' := hwf.rowLt hlt hj
      rw [hg] at hlt'
      exact absurd hlt' (habove _ le_rfl (by omega))
    · exact heq
    · exact absurd (hg ▸ hbelow j hgt) (rowLt_irrefl g)
  have hexisting : (⟨(cm.hi.getD j 0).toUInt64, (cm.lo.getD j 0).toUInt64⟩ : GlobalKey) = g := hg
  have hk' : k' = ⟨cm.localId.getD j 0⟩ := by
    have := congrArg Sigma.snd hrow
    exact this.symm
  simp only [insertCollision, hpj, ne_eq, Nat.ne_of_lt hj, not_false_eq_true, hexisting, and_self,
    if_true, hk']
  cases k
  simp only [ObjKey.mk.injEq]

/-- `insert_collision` of an object ID without an entry adds one where the order puts it. -/
lemma WF.insertCollision_of_dlookup_eq_none (hwf : cm.WF) (h : cm.rows.dlookup g = none) :
    ∃ cm', cm.insertCollision g k = .ok cm' ∧ cm'.WF ∧ cm'.rows.Perm (⟨g, k⟩ :: cm.rows) := by
  obtain ⟨hpn, hbelow, habove⟩ := hwf.lowerBoundObjectId_spec g
  have hne : ∀ j < cm.hi.length, (cm.row j).1 ≠ g := fun j hj hjg =>
    List.dlookup_eq_none.mp h (hjg ▸ List.mem_keys_of_mem (mem_rows.2 ⟨j, hj, rfl⟩))
  have hfresh : ¬ (cm.lowerBoundObjectId g ≠ cm.hi.length ∧
      (⟨(cm.hi.getD (cm.lowerBoundObjectId g) 0).toUInt64,
        (cm.lo.getD (cm.lowerBoundObjectId g) 0).toUInt64⟩ : GlobalKey) = g) :=
    fun ⟨hp, hpg⟩ => hne _ (by omega) hpg
  have hrows := rows_insertIdx hwf hpn g k
  refine ⟨_, by simp only [insertCollision, if_neg hfresh]; rfl, ⟨?_, ?_, ?_⟩, ?_⟩
  · simp [List.length_insertIdx, hpn, hwf.length_lo]
  · simp [List.length_insertIdx, hpn, hwf.length_localId]
  · -- the entries before the insertion point are below `g`, and the others above it
    rw [hrows]
    refine LowerBound.pairwise_insertIdx (by simpa using hpn) hwf.sorted
      (fun i hi hip => by simpa using hbelow i hip) (fun i hi hpi => ?_)
    have hi' : i < cm.hi.length := by simpa using hi
    simp only [getElem_rows]
    by_contra hng
    exact hne i hi' (eq_of_not_rowLt (habove i hpi hi') hng)
  · rw [hrows]
    exact List.perm_insertIdx _ _ (by simpa using hpn)

/-- What a successful `insert_collision` leaves: a well-formed table that is the old one, where
`g` is recorded under `k` already, or the old one with the entry added. -/
lemma WF.insertCollision_ok (hwf : cm.WF) {cm' : CollisionMap}
    (h : cm.insertCollision g k = .ok cm') :
    cm'.WF ∧ ((cm.rows.dlookup g = some k ∧ cm' = cm) ∨
      (cm.rows.dlookup g = none ∧ cm'.rows.Perm (⟨g, k⟩ :: cm.rows))) := by
  cases hd : cm.rows.dlookup g with
  | none =>
    obtain ⟨c, hc, hcwf, hperm⟩ := hwf.insertCollision_of_dlookup_eq_none (k := k) hd
    rw [hc] at h
    injection h with h
    subst h
    exact ⟨hcwf, Or.inr ⟨rfl, hperm⟩⟩
  | some k' =>
    rw [hwf.insertCollision_of_dlookup_eq_some hd] at h
    split_ifs at h with hk
    injection h with h
    subst h hk
    exact ⟨hwf, Or.inl ⟨rfl, rfl⟩⟩

end Insert

end CollisionMap

/-- `Table::global_to_local_object_id_hashed`: the local key recorded for `objectId`, or its
optimistic one. -/
def globalToLocalObjectIdHashed (map : Option CollisionMap) (objectId : GlobalKey) : ObjKey :=
  let optimistic := getOptimisticLocalIdHashed objectId
  match map with
  | none => optimistic
  | some cm =>
    match IntArray.findFirst cm.hi objectId.hi.toInt64 0 with
    | some found =>
      if (cm.hi.getD found 0).toUInt64 = objectId.hi then
        match IntArray.findFirst cm.lo objectId.lo.toInt64 found with
        | some candidate =>
          if (cm.hi.getD candidate 0).toUInt64 = objectId.hi then ⟨cm.localId.getD candidate 0⟩
          else optimistic
        | none => optimistic
      else optimistic
    | none => optimistic

/-! ## Lookup -/

section Lookup

variable {cm : CollisionMap}

/-- Where the entries are sorted, the two `find_first` calls of the lookup end on the entry of
an object ID that has one: the first entry with its `hi` comes no later, and every entry
between the two has that `hi` too. -/
lemma CollisionMap.WF.globalToLocal_row (hwf : cm.WF) {j : Nat} (hj : j < cm.hi.length) :
    globalToLocalObjectIdHashed (some cm) (cm.row j).1 = (cm.row j).2 := by
  have hv : (cm.row j).1.hi.toInt64 = cm.hi.getD j 0 := Int64.toInt64_toUInt64 _
  have hw : (cm.row j).1.lo.toInt64 = cm.lo.getD j 0 := Int64.toInt64_toUInt64 _
  obtain ⟨f, hf, hfj⟩ := IntArray.exists_findFirst_le (Nat.zero_le j) hj hv.symm
  obtain ⟨-, -, hfv, -⟩ := IntArray.findFirst_eq_some_iff.1 hf
  obtain ⟨c, hc, hcj⟩ := IntArray.exists_findFirst_le hfj (hwf.length_lo ▸ hj) hw.symm
  obtain ⟨hfc, -, hcv, -⟩ := IntArray.findFirst_eq_some_iff.1 hc
  have hhi : (cm.row c).1.hi = (cm.row j).1.hi :=
    hi_eq_of_rowLt_of_rowLt (hwf.rowLt_or_eq hfc (by omega)) (hwf.rowLt_or_eq hcj hj)
      (by show (cm.hi.getD f 0).toUInt64 = _; rw [hfv, UInt64.toUInt64_toInt64])
  have hlo : (cm.row c).1.lo = (cm.row j).1.lo := by
    show (cm.lo.getD c 0).toUInt64 = _
    rw [hcv, UInt64.toUInt64_toInt64]
  have hcj : c = j := hwf.eq_of_fst_eq (by omega) hj (GlobalKey.ext hhi hlo)
  subst hcj
  have hfhi : (cm.hi.getD f 0).toUInt64 = (cm.row c).1.hi := by
    rw [hfv, UInt64.toUInt64_toInt64]
  simp only [globalToLocalObjectIdHashed, hf, hc, hfhi, if_true]
  exact if_pos rfl

/-- The lookup answers from the table only for an object ID that has an entry there. -/
lemma globalToLocal_of_forall_ne (hlen : cm.lo.length = cm.hi.length) {g : GlobalKey}
    (hg : ∀ i < cm.hi.length, (cm.row i).1 ≠ g) :
    globalToLocalObjectIdHashed (some cm) g = getOptimisticLocalIdHashed g := by
  simp only [globalToLocalObjectIdHashed]
  split
  · split_ifs
    · split
      · rename_i c hc
        split_ifs with hchi
        · -- the second search found an entry with both halves of `g`
          obtain ⟨-, hcn, hcv, -⟩ := IntArray.findFirst_eq_some_iff.1 hc
          have hlo : (cm.lo.getD c 0).toUInt64 = g.lo := by rw [hcv, UInt64.toUInt64_toInt64]
          exact absurd (GlobalKey.ext hchi hlo) (hg c (hlen ▸ hcn))
        · rfl
      · rfl
    · rfl
  · rfl

/-- The entries of the collision table of a table, which has none until its first collision
(the slot in the top array holds `0` until then). -/
def collisionEntries : Option CollisionMap → List (Σ _ : GlobalKey, ObjKey)
  | none => []
  | some cm => cm.rows

/-- A collision table, where there is one, is well formed. -/
def CollisionWF : Option CollisionMap → Prop
  | none => True
  | some cm => cm.WF

/-- Lookup through a well-formed collision table is the entry of the object ID, and its
optimistic key where it has none. -/
theorem globalToLocal_eq {map : Option CollisionMap} (hwf : CollisionWF map) (g : GlobalKey) :
    globalToLocalObjectIdHashed map g =
      ((collisionEntries map).dlookup g).getD (getOptimisticLocalIdHashed g) := by
  cases map with
  | none => rfl
  | some cm =>
    by_cases hg : ∃ j < cm.hi.length, (cm.row j).1 = g
    · obtain ⟨j, hj, rfl⟩ := hg
      simp only [collisionEntries, hwf.globalToLocal_row hj, hwf.dlookup_row hj, Option.getD_some]
    · push Not at hg
      simp only [collisionEntries, globalToLocal_of_forall_ne hwf.length_lo hg,
        CollisionMap.dlookup_rows_eq_none hg, Option.getD_none]

lemma CollisionWF.nodupKeys {map : Option CollisionMap} (hwf : CollisionWF map) :
    (collisionEntries map).NodupKeys := by
  cases map with
  | none => exact List.nodupKeys_nil
  | some cm => exact CollisionMap.WF.nodupKeys hwf

/-- Lookup through a table that has the entries of another one and one more. -/
lemma globalToLocal_of_perm_cons {map map' : Option CollisionMap} (hwf : CollisionWF map)
    (hwf' : CollisionWF map') {e : Σ _ : GlobalKey, ObjKey}
    (hperm : (collisionEntries map').Perm (e :: collisionEntries map)) (g : GlobalKey) :
    globalToLocalObjectIdHashed map' g =
      if g = e.1 then e.2 else globalToLocalObjectIdHashed map g := by
  rw [globalToLocal_eq hwf', globalToLocal_eq hwf, List.perm_dlookup g hwf'.nodupKeys hperm]
  split_ifs with hg
  · subst hg
    rw [List.dlookup_cons_eq]
    rfl
  · rw [List.dlookup_cons_ne _ _ hg]

/-- Lookup through a table that has the entries of another one but one: the object ID of that
one falls back on its optimistic key. -/
lemma globalToLocal_of_perm_cons_release {map map' : Option CollisionMap}
    (hwf : CollisionWF map) (hwf' : CollisionWF map') {e : Σ _ : GlobalKey, ObjKey}
    (hperm : (collisionEntries map).Perm (e :: collisionEntries map')) (g : GlobalKey) :
    globalToLocalObjectIdHashed map' g =
      if g = e.1 then getOptimisticLocalIdHashed g else globalToLocalObjectIdHashed map g := by
  rw [globalToLocal_of_perm_cons hwf' hwf hperm g]
  split_ifs with hg
  · -- the object ID of the released entry has no other entry
    have hnd := List.notMem_keys_of_nodupKeys_cons ((List.perm_nodupKeys hperm).mp hwf.nodupKeys)
    rw [globalToLocal_eq hwf', List.dlookup_eq_none.mpr (hg ▸ hnd), Option.getD_none]
  · rfl

end Lookup

/-- `Table::allocate_local_id_after_hash_collision`: create the table if there is none, take
the next sequence number for a tagged local key, and record the incoming object ID under it
and the colliding one under its local key.  Returns the table, the next sequence number and
the new key. -/
def allocateLocalIdAfterHashCollision (map : Option CollisionMap) (sequenceNumber : Nat)
    (incomingId collidingId : GlobalKey) (collidingLocalId : ObjKey) :
    Except String (CollisionMap × Nat × ObjKey) := do
  let cm := map.getD ⟨[], [], []⟩
  if cm.lo.length ≠ cm.hi.length then throw "Assertion failed: lo.size() == num_entries"
  if cm.localId.length ≠ cm.hi.length then
    throw "Assertion failed: local_id.size() == num_entries"
  let newLocalId ← makeTaggedLocalIdAfterHashCollision sequenceNumber
  let cm ← cm.insertCollision incomingId newLocalId
  let cm ← cm.insertCollision collidingId collidingLocalId
  return (cm, sequenceNumber + 1, newLocalId)

/-- `Table::free_local_id_after_hash_collision`: drop the first entry recorded under `key`
(resolved), and the whole table once it is empty. -/
def freeLocalIdAfterHashCollision (map : Option CollisionMap) (key : ObjKey) :
    Option CollisionMap :=
  match map with
  | none => none
  | some cm =>
    let key := if key.isUnresolved then key.getUnresolved else key
    match IntArray.findFirst cm.localId key.value 0 with
    | some ndx =>
      let cm' : CollisionMap :=
        ⟨cm.lo.eraseIdx ndx, cm.hi.eraseIdx ndx, cm.localId.eraseIdx ndx⟩
      if cm'.hi.length = 0 then none else some cm'
    | none => some cm

/-! ## Allocation and release -/

section Free

variable {map : Option CollisionMap} {key : ObjKey}

lemma collisionWF_free (hwf : CollisionWF map) (key : ObjKey) :
    CollisionWF (freeLocalIdAfterHashCollision map key) := by
  cases map with
  | none => trivial
  | some cm =>
    have hwf : cm.WF := hwf
    simp only [freeLocalIdAfterHashCollision]
    split
    · rename_i ndx hndx
      obtain ⟨-, hn, -, -⟩ := IntArray.findFirst_eq_some_iff.mp hndx
      split_ifs
      · trivial
      · -- erasing one position of each array keeps them of one length and sorted
        have := hwf.length_lo
        have := hwf.length_localId
        refine ⟨?_, ?_, ?_⟩
        · simp only [List.length_eraseIdx]
          split_ifs <;> omega
        · simp only [List.length_eraseIdx]
          split_ifs <;> omega
        · rw [CollisionMap.rows_eraseIdx]
          exact hwf.sorted.sublist (List.eraseIdx_sublist _ _)
    · exact hwf

/-- Releasing the local key of an entry, where the local keys are distinct, takes that entry
out and leaves the others. -/
theorem collisionEntries_free_perm (hwf : CollisionWF map)
    (hnd : ((collisionEntries map).map Sigma.snd).Nodup) {e : Σ _ : GlobalKey, ObjKey}
    (he : e ∈ collisionEntries map)
    (hkey : e.2 = if key.isUnresolved then key.getUnresolved else key) :
    (collisionEntries map).Perm (e :: collisionEntries (freeLocalIdAfterHashCollision map key)) := by
  cases map with
  | none => exact absurd he List.not_mem_nil
  | some cm =>
    have hwf : cm.WF := hwf
    obtain ⟨j, hj, rfl⟩ := CollisionMap.mem_rows.mp he
    have hv : cm.localId.getD j 0 = (if key.isUnresolved then key.getUnresolved else key).value :=
      congrArg ObjKey.value hkey
    obtain ⟨ndx, hndx, hndxj⟩ :=
      IntArray.exists_findFirst_le (Nat.zero_le j) (hwf.length_localId ▸ hj) hv
    obtain ⟨-, hn, hnv, -⟩ := IntArray.findFirst_eq_some_iff.mp hndx
    -- the first entry under the key is the entry `e`, as no two entries share a local key
    have hnj : ndx = j := by
      have hb₁ : ndx < (cm.rows.map Sigma.snd).length := by simp; omega
      have hb₂ : j < (cm.rows.map Sigma.snd).length := by simpa using hj
      have hsnd : (cm.rows.map Sigma.snd)[ndx] = (cm.rows.map Sigma.snd)[j] := by
        simp only [List.getElem_map, CollisionMap.getElem_rows, CollisionMap.row, hnv, hv]
      exact (List.Nodup.getElem_inj_iff hnd).mp hsnd
    subst hnj
    have hperm : cm.rows.Perm (cm.row ndx ::
        (⟨cm.lo.eraseIdx ndx, cm.hi.eraseIdx ndx, cm.localId.eraseIdx ndx⟩ : CollisionMap).rows) := by
      rw [CollisionMap.rows_eraseIdx]
      have h := List.getElem_cons_eraseIdx_perm (l := cm.rows) (n := ndx) (by simpa using hj)
      simpa using h.symm
    simp only [collisionEntries, freeLocalIdAfterHashCollision, hndx]
    split_ifs with h0
    · -- the table had this one entry and goes
      have hnil : (⟨cm.lo.eraseIdx ndx, cm.hi.eraseIdx ndx, cm.localId.eraseIdx ndx⟩ :
          CollisionMap).rows = [] := List.eq_nil_of_length_eq_zero (by simpa using h0)
      simpa [collisionEntries, hnil] using hperm
    · exact hperm

/-- Releasing a local key that no entry has changes nothing. -/
theorem free_eq_self (hwf : CollisionWF map)
    (h : ∀ e ∈ collisionEntries map, e.2 ≠ if key.isUnresolved then key.getUnresolved else key) :
    freeLocalIdAfterHashCollision map key = map := by
  cases map with
  | none => rfl
  | some cm =>
    have hwf : cm.WF := hwf
    have hnone : IntArray.findFirst cm.localId
        (if key.isUnresolved then key.getUnresolved else key).value 0 = none := by
      refine IntArray.findFirst_eq_none_iff.mpr fun j _ hj hv => h (cm.row j)
        (CollisionMap.mem_rows.mpr ⟨j, hwf.length_localId ▸ hj, rfl⟩) ?_
      show (⟨cm.localId.getD j 0⟩ : ObjKey) = _
      rw [hv]
    simp only [freeLocalIdAfterHashCollision, hnone]

/-- Releasing a local key, where the local keys are distinct: the table stays well formed with
distinct keys, keeps only entries it had and none under the key, and the lookup changes only
for the object ID of the entry under the key, which falls back on its optimistic key. -/
theorem free_spec (hwf : CollisionWF map) (hnd : ((collisionEntries map).map Sigma.snd).Nodup)
    (key : ObjKey) :
    CollisionWF (freeLocalIdAfterHashCollision map key) ∧
      ((collisionEntries (freeLocalIdAfterHashCollision map key)).map Sigma.snd).Nodup ∧
      (∀ e ∈ collisionEntries (freeLocalIdAfterHashCollision map key),
        e ∈ collisionEntries map ∧ e.2 ≠ if key.isUnresolved then key.getUnresolved else key) ∧
      ∀ g, globalToLocalObjectIdHashed (freeLocalIdAfterHashCollision map key) g =
          globalToLocalObjectIdHashed map g ∨
        (⟨g, globalToLocalObjectIdHashed map g⟩ ∈ collisionEntries map ∧
          globalToLocalObjectIdHashed map g =
            (if key.isUnresolved then key.getUnresolved else key) ∧
          globalToLocalObjectIdHashed (freeLocalIdAfterHashCollision map key) g =
            getOptimisticLocalIdHashed g) := by
  have hwf' := collisionWF_free hwf key
  by_cases hex : ∃ e ∈ collisionEntries map,
      e.2 = if key.isUnresolved then key.getUnresolved else key
  · obtain ⟨e, he, her⟩ := hex
    have hperm := collisionEntries_free_perm hwf hnd he her
    have hnd' := List.nodup_cons.mp ((hperm.map Sigma.snd).nodup_iff.mp hnd)
    refine ⟨hwf', hnd'.2, fun e' he' => ⟨hperm.symm.subset (List.mem_cons_of_mem _ he'),
      fun her' => hnd'.1 (List.mem_map.mpr ⟨e', he', her'.trans her.symm⟩)⟩, fun g => ?_⟩
    rw [globalToLocal_of_perm_cons_release hwf hwf' hperm g]
    by_cases hg : g = e.1
    · -- the object ID of the released entry: its entry was its answer
      rw [if_pos hg]
      have hd : (collisionEntries map).dlookup e.1 = some e.2 := List.mem_dlookup hwf.nodupKeys he
      have hlook : globalToLocalObjectIdHashed map g = e.2 := by
        rw [globalToLocal_eq hwf, hg, hd, Option.getD_some]
      refine Or.inr ⟨?_, hlook.trans her, rfl⟩
      rw [hlook, hg]
      exact he
    · rw [if_neg hg]
      exact Or.inl rfl
  · -- no entry is under the key, so nothing changes
    push Not at hex
    rw [free_eq_self hwf hex]
    exact ⟨hwf, hnd, fun e he => ⟨he, hex e he⟩, fun g => Or.inl rfl⟩

end Free

section Allocate

variable {map : Option CollisionMap}

lemma wf_getD_empty (hwf : CollisionWF map) : (map.getD ⟨[], [], []⟩).WF := by
  cases map with
  | none => exact ⟨rfl, rfl, List.Pairwise.nil⟩
  | some cm => exact hwf

lemma rows_getD_empty (map : Option CollisionMap) :
    (map.getD ⟨[], [], []⟩).rows = collisionEntries map := by
  cases map <;> rfl

/-- A successful `allocate_local_id_after_hash_collision` takes the tagged key of the sequence
number and records the two object IDs with `insert_collision`, the incoming one first. -/
theorem allocateLocalIdAfterHashCollision_eq_ok
    {sequenceNumber : Nat} {incomingId collidingId : GlobalKey} {collidingLocalId : ObjKey}
    {cm : CollisionMap} {next : Nat} {newLocalId : ObjKey}
    (h : allocateLocalIdAfterHashCollision map sequenceNumber incomingId collidingId
      collidingLocalId = .ok (cm, next, newLocalId)) :
    next = sequenceNumber + 1 ∧
      makeTaggedLocalIdAfterHashCollision sequenceNumber = .ok newLocalId ∧
      ∃ c, (map.getD ⟨[], [], []⟩).insertCollision incomingId newLocalId = .ok c ∧
        c.insertCollision collidingId collidingLocalId = .ok cm := by
  simp only [allocateLocalIdAfterHashCollision] at h
  -- the two length checks passed
  split_ifs at h
  · exact nomatch h
  · exact nomatch h
  · exact nomatch h
  -- and each of the three fallible steps succeeded
  cases ht : makeTaggedLocalIdAfterHashCollision sequenceNumber with
  | error e => simp [ht, bind, Except.bind] at h
  | ok key =>
    cases h₁ : (map.getD ⟨[], [], []⟩).insertCollision incomingId key with
    | error e => simp [ht, h₁, bind, Except.bind] at h
    | ok c =>
      cases h₂ : c.insertCollision collidingId collidingLocalId with
      | error e => simp [ht, h₁, h₂, bind, Except.bind] at h
      | ok c' =>
        simp only [ht, h₁, h₂, bind, Except.bind, pure, Except.pure, Except.ok.injEq,
          Prod.mk.injEq] at h
        obtain ⟨rfl, rfl, rfl⟩ := h
        exact ⟨rfl, rfl, c, h₁, h₂⟩

end Allocate

end Realm
