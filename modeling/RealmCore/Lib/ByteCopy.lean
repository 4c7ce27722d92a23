import Mathlib

/-!
# Copies inside one buffer

A buffer is a list, and the loops of `<algorithm>` that write into it are list writes.  `fill`
sets a range to one value and `write` copies a list from outside the buffer into a range; both
are stated position by position, since they read nothing of the buffer.  `copyBackward` is
`std::copy_backward`, one element at a time from the last, and `copyForward` is `std::copy_n`,
one element at a time from the first; `move` is what `memmove` specifies, a destination that
receives the source as it was before the call.

A copy inside one buffer is a move when it never overwrites an element before reading it: a
backward copy when the destination does not start below the source (`copyBackward_eq_move`),
a forward copy when it does not start above it (`copyForward_eq_move`).

Records of one width laid end to end are read at `i * w + k` (`getElem?_flatten_of_width`).
-/

namespace ByteCopy

variable {α : Type*}

/-- `std::fill(buf + pos, buf + pos + len, x)`. -/
def fill (buf : List α) (pos len : Nat) (x : α) : List α :=
  buf.mapIdx fun p y => if pos ≤ p ∧ p < pos + len then x else y

/-- `std::copy_n(bytes.data(), bytes.size(), buf + pos)`, from outside the buffer. -/
def write (buf : List α) (pos : Nat) (bytes : List α) : List α :=
  buf.mapIdx fun p y => if pos ≤ p ∧ p < pos + bytes.length then bytes.getD (p - pos) y else y

section Inhabited

variable [Inhabited α]

/-- `memmove(buf + dst, buf + src, len)`. -/
def move (buf : List α) (dst src len : Nat) : List α :=
  buf.mapIdx fun p y => if dst ≤ p ∧ p < dst + len then buf.getD (p - dst + src) default else y

/-- `std::copy_backward(buf + src, buf + src + len, buf + dst + len)`. -/
def copyBackward (dst src : Nat) : Nat → List α → List α
  | 0, buf => buf
  | k + 1, buf => copyBackward dst src k (buf.set (dst + k) (buf.getD (src + k) default))

/-- `std::copy_n(buf + src, len, buf + dst)`. -/
def copyForward (dst src : Nat) : Nat → List α → List α
  | 0, buf => buf
  | k + 1, buf => copyForward (dst + 1) (src + 1) k (buf.set dst (buf.getD src default))

/-! The two loops one step at a time. -/

lemma copyBackward_zero (dst src : Nat) (buf : List α) : copyBackward dst src 0 buf = buf := rfl

lemma copyBackward_succ (dst src k : Nat) (buf : List α) :
    copyBackward dst src (k + 1) buf =
      copyBackward dst src k (buf.set (dst + k) (buf.getD (src + k) default)) :=
  rfl

lemma copyForward_zero (dst src : Nat) (buf : List α) : copyForward dst src 0 buf = buf := rfl

lemma copyForward_succ (dst src k : Nat) (buf : List α) :
    copyForward dst src (k + 1) buf =
      copyForward (dst + 1) (src + 1) k (buf.set dst (buf.getD src default)) :=
  rfl

end Inhabited

/-! ## Lengths and elements -/

@[simp] lemma length_fill (buf : List α) (pos len : Nat) (x : α) :
    (fill buf pos len x).length = buf.length :=
  List.length_mapIdx

@[simp] lemma length_write (buf : List α) (pos : Nat) (bytes : List α) :
    (write buf pos bytes).length = buf.length :=
  List.length_mapIdx

lemma getElem?_fill (buf : List α) (pos len : Nat) (x : α) {p : Nat} (hp : p < buf.length) :
    (fill buf pos len x)[p]? = if pos ≤ p ∧ p < pos + len then some x else buf[p]? := by
  delta fill
  simp only [List.getElem?_mapIdx, List.getElem?_eq_getElem hp, Option.map_some]
  split_ifs <;> rfl

lemma getElem?_write (buf : List α) (pos : Nat) (bytes : List α) {p : Nat} (hp : p < buf.length) :
    (write buf pos bytes)[p]? =
      if pos ≤ p ∧ p < pos + bytes.length then bytes[p - pos]? else buf[p]? := by
  delta write
  simp only [List.getElem?_mapIdx, List.getElem?_eq_getElem hp, Option.map_some]
  split_ifs with h
  · rw [List.getD_eq_getElem?_getD, List.getElem?_eq_getElem (by omega), Option.getD_some]
  · rfl

section Inhabited

variable [Inhabited α]

@[simp] lemma length_move (buf : List α) (dst src len : Nat) :
    (move buf dst src len).length = buf.length :=
  List.length_mapIdx

lemma getElem?_move (buf : List α) (dst src len : Nat) {p : Nat} (hp : p < buf.length) :
    (move buf dst src len)[p]? =
      some (if dst ≤ p ∧ p < dst + len then buf.getD (p - dst + src) default else buf[p]) := by
  delta move
  simp [hp]

/-- A move whose source lies in the buffer, read with `getElem?`. -/
lemma getElem?_move_of_le (buf : List α) (dst src len : Nat) {p : Nat} (hp : p < buf.length)
    (hsrc : src + len ≤ buf.length) :
    (move buf dst src len)[p]? =
      if dst ≤ p ∧ p < dst + len then buf[p - dst + src]? else buf[p]? := by
  rw [getElem?_move _ _ _ _ hp]
  split_ifs with h
  · rw [List.getD_eq_getElem?_getD, List.getElem?_eq_getElem (by omega), Option.getD_some]
  · rw [List.getElem?_eq_getElem hp]

@[simp] lemma length_copyBackward (dst src : Nat) :
    ∀ (len : Nat) (buf : List α), (copyBackward dst src len buf).length = buf.length
  | 0, _ => rfl
  | k + 1, buf => by rw [copyBackward_succ, length_copyBackward, List.length_set]

@[simp] lemma length_copyForward :
    ∀ (dst src len : Nat) (buf : List α), (copyForward dst src len buf).length = buf.length
  | _, _, 0, _ => rfl
  | dst, src, k + 1, buf => by rw [copyForward_succ, length_copyForward, List.length_set]

/-! ## Copies that are moves -/

/-- A backward copy to a destination that does not start below the source moves the range:
each write lands on a source element already read. -/
theorem copyBackward_eq_move {dst src : Nat} (h : src ≤ dst) :
    ∀ (len : Nat) (buf : List α), copyBackward dst src len buf = move buf dst src len
  | 0, buf => by
    refine List.ext_getElem?' fun p hp => ?_
    have hp' : p < buf.length := by simpa using hp
    rw [copyBackward_zero, getElem?_move _ _ _ _ hp', if_neg (by omega), List.getElem?_eq_getElem hp']
  | k + 1, buf => by
    rw [copyBackward_succ, copyBackward_eq_move h k]
    refine List.ext_getElem?' fun p hp => ?_
    have hp' : p < buf.length := by simpa using hp
    rw [getElem?_move _ _ _ _ (by simpa using hp'), getElem?_move _ _ _ _ hp']
    by_cases hin : dst ≤ p ∧ p < dst + k
    · -- the source position is below `dst + k`, which the write did not touch
      rw [if_pos hin, if_pos ⟨hin.1, by omega⟩, List.getD_eq_getElem?_getD,
        List.getElem?_set_ne (by omega), ← List.getD_eq_getElem?_getD]
    · rw [if_neg hin, List.getElem_set]
      by_cases hp'' : p = dst + k
      · rw [if_pos hp''.symm, if_pos ⟨by omega, by omega⟩, hp'', Nat.add_sub_cancel_left,
          Nat.add_comm k src]
      · rw [if_neg (Ne.symm hp''), if_neg (by omega)]

/-- A forward copy to a destination that does not start above the source moves the range. -/
theorem copyForward_eq_move :
    ∀ {dst src : Nat} (len : Nat) (buf : List α), dst ≤ src →
      copyForward dst src len buf = move buf dst src len
  | dst, src, 0, buf, _ => by
    refine List.ext_getElem?' fun p hp => ?_
    have hp' : p < buf.length := by simpa using hp
    rw [copyForward_zero, getElem?_move _ _ _ _ hp', if_neg (by omega), List.getElem?_eq_getElem hp']
  | dst, src, k + 1, buf, h => by
    rw [copyForward_succ, copyForward_eq_move k _ (by omega)]
    refine List.ext_getElem?' fun p hp => ?_
    have hp' : p < buf.length := by simpa using hp
    rw [getElem?_move _ _ _ _ (by simpa using hp'), getElem?_move _ _ _ _ hp']
    by_cases hin : dst + 1 ≤ p ∧ p < dst + 1 + k
    · -- the source position is above `dst`, which the write did not touch
      rw [if_pos hin, if_pos ⟨by omega, by omega⟩, List.getD_eq_getElem?_getD,
        List.getElem?_set_ne (by omega), ← List.getD_eq_getElem?_getD,
        show p - (dst + 1) + (src + 1) = p - dst + src by omega]
    · rw [if_neg hin, List.getElem_set]
      by_cases hp'' : p = dst
      · rw [if_pos hp''.symm, if_pos ⟨by omega, by omega⟩, hp'', Nat.sub_self, Nat.zero_add]
      · rw [if_neg (Ne.symm hp''), if_neg (by omega)]

end Inhabited

/-! ## Records of one width -/

lemma length_flatten_of_width {L : List (List α)} {w : Nat} (hL : ∀ r ∈ L, r.length = w) :
    L.flatten.length = L.length * w := by
  induction L with
  | nil => simp
  | cons r L ih =>
    rw [List.flatten_cons, List.length_append, hL r List.mem_cons_self,
      ih fun r' h => hL r' (List.mem_cons_of_mem _ h), List.length_cons, Nat.succ_mul,
      Nat.add_comm]

/-- Position `k` of record `i`, for records of width `w` laid end to end. -/
lemma getElem?_flatten_of_width {L : List (List α)} {w : Nat} (hL : ∀ r ∈ L, r.length = w)
    {k : Nat} (hk : k < w) : ∀ (i : Nat), L.flatten[i * w + k]? = L[i]?.bind (·[k]?) := by
  induction L with
  | nil => simp
  | cons r L ih =>
    have hr : r.length = w := hL r List.mem_cons_self
    intro i
    cases i with
    | zero =>
      rw [List.flatten_cons, Nat.zero_mul, Nat.zero_add, List.getElem?_append_left (by omega)]
      rfl
    | succ i =>
      rw [List.flatten_cons, List.getElem?_append_right (by rw [hr, Nat.succ_mul]; omega), hr,
        show (i + 1) * w + k - w = i * w + k by rw [Nat.succ_mul]; omega,
        ih (fun r' h => hL r' (List.mem_cons_of_mem _ h)) i]
      rfl

end ByteCopy
