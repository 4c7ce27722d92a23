import Mathlib

/-!
# Object keys

`realm::ObjKey` (src/realm/keys.hpp), the key of an object in its table, which the HNSW index
keys its nodes by and the search index stores for every indexed value.
-/

namespace Realm

/-- A `uint64_t` below `2^63` keeps its value as an `int64_t`. -/
lemma toInt_toInt64_of_lt {x : UInt64} (h : x.toNat < 2 ^ 63) : x.toInt64.toInt = x.toNat := by
  rw [Int64.toInt, UInt64.toBitVec_toInt64, BitVec.toInt_eq_toNat_cond, if_pos]
  · rfl
  · simp only [UInt64.toNat] at h
    omega

/-- `realm::ObjKey`: a 64-bit object key. -/
structure ObjKey where
  value : Int64
deriving DecidableEq, Repr

namespace ObjKey

/-- The default-constructed key, with value `-1`. -/
def null : ObjKey := ⟨-1⟩

/-- `explicit operator bool`: every key but the null one is set. -/
def isSet (k : ObjKey) : Bool :=
  k.value != -1

/-- `is_unresolved`: the keys of tombstones are those at or below `-2`. -/
def isUnresolved (k : ObjKey) : Bool :=
  decide (k.value ≤ -2)

/-- `get_unresolved`: `-2 - value`, which maps the keys at or above `0` to the keys at or below
`-2` and back. -/
def getUnresolved (k : ObjKey) : ObjKey :=
  ⟨-2 - k.value⟩

@[simp] lemma getUnresolved_getUnresolved (k : ObjKey) : k.getUnresolved.getUnresolved = k := by
  cases k
  simp only [getUnresolved, ObjKey.mk.injEq]
  grind

lemma getUnresolved_injective : Function.Injective getUnresolved := fun a b h => by
  rw [← getUnresolved_getUnresolved a, h, getUnresolved_getUnresolved]

lemma isUnresolved_eq_false {k : ObjKey} (h : 0 ≤ k.value.toInt) : k.isUnresolved = false := by
  simp only [isUnresolved, decide_eq_false_iff_not, Int64.le_iff_toInt_le]
  have h2 : (-2 : Int64).toInt = -2 := by decide
  omega

/-- Resolving the unresolved form of a key at or above `0`, as
`free_local_id_after_hash_collision` does, gives the key back: `-2 - value` wraps only for the
largest key, which is then its own unresolved form. -/
lemma resolve_getUnresolved {k : ObjKey} (h : 0 ≤ k.value.toInt) :
    (if k.getUnresolved.isUnresolved then k.getUnresolved.getUnresolved
      else k.getUnresolved) = k := by
  by_cases hu : k.getUnresolved.isUnresolved = true
  · rw [if_pos hu, getUnresolved_getUnresolved]
  · rw [if_neg hu]
    obtain ⟨v⟩ := k
    have hwrap : ¬ (-2 - v ≤ -2) := fun hle => hu (decide_eq_true hle)
    simp only [getUnresolved, ObjKey.mk.injEq] at h ⊢
    rw [Int64.le_iff_toInt_le, Int64.toInt_sub] at hwrap
    rw [← Int64.toInt_inj, Int64.toInt_sub]
    have hv := Int64.toInt_lt v
    have h2 : (-2 : Int64).toInt = -2 := by decide
    rw [h2] at hwrap ⊢
    have hmax : v.toInt = 2 ^ 63 - 1 := by
      rcases Int.lt_or_le v.toInt (2 ^ 63 - 1) with hlt | hle
      · rw [Int.bmod_eq_of_le (by omega) (by omega)] at hwrap
        omega
      · simp at hv
        omega
    rw [Int.bmod_eq_iff (by decide)]
    exact ⟨by omega, by omega, ⟨1, by omega⟩⟩

end ObjKey

end Realm
