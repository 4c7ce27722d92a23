import Mathlib

/-!
# Trees of arrays in an append-only heap

A storage engine that keeps nested arrays writes a tree bottom-up through references: it
creates the array of a node, then for each child stores the child (recursively) and appends
the child's reference to the node's array.  `Heap.store` is that procedure over a heap of
arrays whose slots hold values or references; reference `r > 0` names the `r`-th array created
and `0` is the null reference.

`Heap.Holds h r t` says that in `h` the array at `r` holds the tree `t`: a leaf's values, or
references to arrays that hold the children.  Every reference below a node is larger than the
node's own, since a child is created after its parent, so `Holds h r t` reads only the arrays
from `r` on.  `store_spec` is the correctness of storing: the stored tree holds at the new
reference, and the arrays that existed before are left as they were; `Holds.mono` lets later
writes below `r` or to new arrays leave it in force.
-/

namespace RefTree

/-- A slot of an array: a plain value or a reference to another array. -/
inductive Slot (α : Type*)
  | val (a : α)
  | ref (r : Nat)
  deriving DecidableEq, Repr

/-- What is to be stored: a leaf array of values, or an array of references to the stored
children. -/
inductive Tree (α : Type*)
  | leaf (vals : List α)
  | node (children : List (Tree α))

/-- The arrays created so far, reference `r` naming the one at index `r - 1`. -/
structure Heap (α : Type*) where
  arrays : List (List (Slot α))

namespace Heap

variable {α : Type*}

/-- The number of arrays created. -/
def size (h : Heap α) : Nat := h.arrays.length

/-- The slots of the array at `r`; the null reference reads as an empty array. -/
def fetch (h : Heap α) (r : Nat) : List (Slot α) :=
  if r = 0 then [] else h.arrays.getD (r - 1) []

/-- Create an empty array; its reference is the new size. -/
def create (h : Heap α) : Heap α × Nat := (⟨h.arrays ++ [[]]⟩, h.arrays.length + 1)

/-- Append a slot to the array at `r`. -/
def add (h : Heap α) (r : Nat) (x : Slot α) : Heap α :=
  if r = 0 then h else ⟨h.arrays.modify (r - 1) (· ++ [x])⟩

mutual
/-- Store a tree: create its array, then fill it with the values of a leaf, or store the
children one after another and append each child's reference. -/
def store : Heap α → Tree α → Heap α × Nat
  | h, .leaf vals =>
    let (h, r) := h.create
    (vals.foldl (fun h a => h.add r (.val a)) h, r)
  | h, .node cs =>
    let (h, r) := h.create
    (storeChildren h r cs, r)

/-- Store the children `cs` of the array at `p`, appending their references to it. -/
def storeChildren : Heap α → Nat → List (Tree α) → Heap α
  | h, _, [] => h
  | h, p, c :: cs =>
    let (h, r) := store h c
    storeChildren (h.add p (.ref r)) p cs
end

mutual
/-- The array at `r` holds the tree `t`, every reference below it being larger than `r`. -/
def Holds (h : Heap α) : Nat → Tree α → Prop
  | r, .leaf vals => 0 < r ∧ r ≤ h.size ∧ h.fetch r = vals.map .val
  | r, .node cs => 0 < r ∧ r ≤ h.size ∧ ∃ rs, h.fetch r = rs.map .ref ∧ HoldsAll h r rs cs

/-- The references `rs`, all above `p`, hold the trees `cs` one for one. -/
def HoldsAll (h : Heap α) (p : Nat) : List Nat → List (Tree α) → Prop
  | [], [] => True
  | r :: rs, c :: cs => p < r ∧ Holds h r c ∧ HoldsAll h p rs cs
  | _, _ => False
end

/-! ## The primitive operations -/

@[simp] lemma size_create (h : Heap α) : h.create.1.size = h.size + 1 := by
  simp [create, size]

@[simp] lemma create_ref (h : Heap α) : h.create.2 = h.size + 1 := rfl

lemma fetch_create_of_le {h : Heap α} {r : Nat} (hr : r ≤ h.size) :
    h.create.1.fetch r = h.fetch r := by
  unfold fetch create
  split
  · rfl
  · simp only [List.getD_eq_getElem?_getD]
    rw [List.getElem?_append_left (by unfold size at hr; omega)]

@[simp] lemma fetch_create_self (h : Heap α) : h.create.1.fetch (h.size + 1) = [] := by
  simp [fetch, create, size]

@[simp] lemma size_add (h : Heap α) (r : Nat) (x : Slot α) : (h.add r x).size = h.size := by
  unfold add size
  split <;> simp

lemma fetch_add_self {h : Heap α} {r : Nat} (x : Slot α) (h0 : 0 < r) (hr : r ≤ h.size) :
    (h.add r x).fetch r = h.fetch r ++ [x] := by
  unfold add fetch size at *
  simp only [Nat.pos_iff_ne_zero.mp h0, if_false, List.getD_eq_getElem?_getD,
    List.getElem?_modify]
  rw [List.getElem?_eq_getElem (by omega)]
  simp

lemma fetch_add_of_ne {h : Heap α} {r r' : Nat} (x : Slot α) (hne : r' ≠ r) :
    (h.add r x).fetch r' = h.fetch r' := by
  unfold add fetch
  split
  · rfl
  · split
    · rfl
    · have hne' : r - 1 ≠ r' - 1 := by omega
      simp [List.getD_eq_getElem?_getD, hne']

@[simp] lemma size_foldl_add (r : Nat) (vals : List α) (h : Heap α) :
    (vals.foldl (fun h a => h.add r (.val a)) h).size = h.size := by
  induction vals generalizing h with
  | nil => rfl
  | cons a vals ih => simp [ih]

lemma fetch_foldl_add_self {r : Nat} (h0 : 0 < r) (vals : List α) (h : Heap α)
    (hr : r ≤ h.size) :
    (vals.foldl (fun h a => h.add r (.val a)) h).fetch r = h.fetch r ++ vals.map .val := by
  induction vals generalizing h with
  | nil => simp
  | cons a vals ih =>
    rw [List.foldl_cons, ih _ (by simpa using hr), fetch_add_self _ h0 hr]
    simp

lemma fetch_foldl_add_of_ne {r r' : Nat} (hne : r' ≠ r) (vals : List α) (h : Heap α) :
    (vals.foldl (fun h a => h.add r (.val a)) h).fetch r' = h.fetch r' := by
  induction vals generalizing h with
  | nil => rfl
  | cons a vals ih => rw [List.foldl_cons, ih, fetch_add_of_ne _ hne]

/-! ## Frames -/

/-- `h'` is at least as large as `h` and agrees with it on the references from `lo` on. -/
def AgreeFrom (h h' : Heap α) (lo : Nat) : Prop :=
  h.size ≤ h'.size ∧ ∀ r, lo ≤ r → r ≤ h.size → h'.fetch r = h.fetch r

lemma AgreeFrom.trans {h₁ h₂ h₃ : Heap α} {lo : Nat} (h₁₂ : AgreeFrom h₁ h₂ lo)
    (h₂₃ : AgreeFrom h₂ h₃ lo) : AgreeFrom h₁ h₃ lo :=
  ⟨Nat.le_trans h₁₂.1 h₂₃.1, fun r hlo hr =>
    (h₂₃.2 r hlo (Nat.le_trans hr h₁₂.1)).trans (h₁₂.2 r hlo hr)⟩

/-- Appending to an array below `lo` leaves everything from `lo` on. -/
lemma agreeFrom_add {h : Heap α} {p lo : Nat} (x : Slot α) (hp : p < lo) :
    AgreeFrom h (h.add p x) lo :=
  ⟨by simp, fun _ hlo _ => fetch_add_of_ne x (by omega)⟩

mutual
/-- What holds at `r` keeps holding while the arrays from `r` on are left alone. -/
theorem Holds.mono {h h' : Heap α} : ∀ {r : Nat} (t : Tree α), AgreeFrom h h' r →
    Holds h r t → Holds h' r t
  | r, .leaf vals, ⟨hsize, hagree⟩, ⟨h0, hr, hf⟩ =>
    ⟨h0, Nat.le_trans hr hsize, (hagree r (Nat.le_refl r) hr).trans hf⟩
  | r, .node cs, ⟨hsize, hagree⟩, ⟨h0, hr, rs, hf, hall⟩ =>
    ⟨h0, Nat.le_trans hr hsize, rs, (hagree r (Nat.le_refl r) hr).trans hf,
      HoldsAll.mono cs rs ⟨hsize, fun r' h1 h2 => hagree r' (by omega) h2⟩ hall⟩

theorem HoldsAll.mono {h h' : Heap α} {p : Nat} : ∀ (cs : List (Tree α)) (rs : List Nat),
    AgreeFrom h h' (p + 1) → HoldsAll h p rs cs → HoldsAll h' p rs cs
  | [], [], _, _ => trivial
  | c :: cs, r :: rs, ⟨hsize, hagree⟩, ⟨hlt, hc, hrest⟩ =>
    ⟨hlt, Holds.mono c ⟨hsize, fun r' h1 h2 => hagree r' (by omega) h2⟩ hc,
      HoldsAll.mono cs rs ⟨hsize, hagree⟩ hrest⟩
  | [], _ :: _, _, hall => hall.elim
  | _ :: _, [], _, hall => hall.elim
end

lemma HoldsAll.length_eq {h : Heap α} {p : Nat} :
    ∀ {rs : List Nat} {cs : List (Tree α)}, HoldsAll h p rs cs → rs.length = cs.length
  | [], [], _ => rfl
  | _ :: _, _ :: _, ⟨_, _, hrest⟩ => congrArg (· + 1) (HoldsAll.length_eq hrest)
  | [], _ :: _, hall => hall.elim
  | _ :: _, [], hall => hall.elim

/-- The `i`-th reference holds the `i`-th tree. -/
lemma HoldsAll.getElem {h : Heap α} {p : Nat} :
    ∀ {rs : List Nat} {cs : List (Tree α)} (hall : HoldsAll h p rs cs) {i : Nat}
      (hi : i < rs.length), Holds h rs[i] (cs.get ⟨i, hall.length_eq ▸ hi⟩)
  | _ :: _, _ :: _, ⟨_, hc, _⟩, 0, _ => hc
  | _ :: _, _ :: _, ⟨_, _, hrest⟩, i + 1, hi => HoldsAll.getElem hrest (i := i) (by simpa using hi)
  | [], _ :: _, hall, _, _ => hall.elim
  | _ :: _, [], hall, _, _ => hall.elim

lemma Holds.pos {h : Heap α} {r : Nat} {t : Tree α} (ht : Holds h r t) : 0 < r := by
  cases t with
  | leaf vals => exact ht.1
  | node cs => exact ht.1

/-! ## Storing -/

lemma store_leaf (h : Heap α) (vals : List α) :
    store h (.leaf vals) =
      (vals.foldl (fun h' a => h'.add (h.size + 1) (.val a)) h.create.1, h.size + 1) := rfl

lemma store_node (h : Heap α) (cs : List (Tree α)) :
    store h (.node cs) = (storeChildren h.create.1 (h.size + 1) cs, h.size + 1) := rfl

@[simp] lemma store_ref (h : Heap α) (t : Tree α) : (store h t).2 = h.size + 1 := by
  cases t <;> rfl

lemma storeChildren_cons (h : Heap α) (p : Nat) (c : Tree α) (cs : List (Tree α)) :
    storeChildren h p (c :: cs) =
      storeChildren ((store h c).1.add p (.ref (h.size + 1))) p cs := by
  cases c <;> rfl

mutual
/-- Storing a tree leaves the old arrays alone and makes its new reference hold it. -/
theorem store_spec : ∀ (h : Heap α) (t : Tree α),
    AgreeFrom h (store h t).1 0 ∧ Holds (store h t).1 (h.size + 1) t
  | h, .leaf vals => by
    have hr : h.size + 1 ≤ h.create.1.size := by simp
    rw [store_leaf]
    refine ⟨⟨by simp, fun r _ hr' => ?_⟩, ?_⟩
    · rw [fetch_foldl_add_of_ne (by omega) vals _, fetch_create_of_le hr']
    · simp only [Holds, size_foldl_add]
      refine ⟨by omega, hr, ?_⟩
      rw [fetch_foldl_add_self (by omega) vals _ hr, fetch_create_self, List.nil_append]
  | h, .node cs => by
    have hr : h.size + 1 ≤ h.create.1.size := by simp
    obtain ⟨hsize, hframe, rs, hfetch, hall⟩ :=
      storeChildren_spec h.create.1 (h.size + 1) cs (by omega) hr
    rw [store_node]
    refine ⟨⟨Nat.le_trans (by simp) hsize, fun r _ hr' => ?_⟩, ?_⟩
    · rw [hframe r (by simp; omega) (by omega), fetch_create_of_le hr']
    · simp only [Holds]
      refine ⟨by omega, Nat.le_trans hr hsize, rs, ?_, hall⟩
      rw [hfetch, fetch_create_self, List.nil_append]

/-- Storing the children of `p` one after another appends their references to `p`, each
holding its child, and changes no other old array. -/
theorem storeChildren_spec : ∀ (h : Heap α) (p : Nat) (cs : List (Tree α)), 0 < p →
    p ≤ h.size →
    h.size ≤ (storeChildren h p cs).size ∧
    (∀ r ≤ h.size, r ≠ p → (storeChildren h p cs).fetch r = h.fetch r) ∧
    ∃ rs, (storeChildren h p cs).fetch p = h.fetch p ++ rs.map .ref ∧
      HoldsAll (storeChildren h p cs) p rs cs
  | h, p, [], _, _ => ⟨Nat.le_refl _, fun _ _ _ => rfl, [], by simp [storeChildren], trivial⟩
  | h, p, c :: cs, h0, hp => by
    obtain ⟨hag₁, hc⟩ := store_spec h c
    set h₂ := (store h c).1.add p (.ref (h.size + 1))
    have hp₂ : p ≤ h₂.size := by simp only [h₂, size_add]; exact Nat.le_trans hp hag₁.1
    obtain ⟨hsize, hframe, rs, hfetch, hall⟩ := storeChildren_spec h₂ p cs h0 hp₂
    -- the child's arrays lie above `p`, so neither the appended reference nor the later
    -- children touch them
    have hag₂ : AgreeFrom (store h c).1 h₂ (h.size + 1) := agreeFrom_add _ (by omega)
    have hag₃ : AgreeFrom h₂ (storeChildren h₂ p cs) (h.size + 1) :=
      ⟨hsize, fun r hlo hr => hframe r hr (by omega)⟩
    rw [storeChildren_cons]
    refine ⟨Nat.le_trans hag₁.1 (by simpa [h₂] using hsize), fun r hr hne => ?_,
      (h.size + 1) :: rs, ?_, by omega, Holds.mono c (hag₂.trans hag₃) hc, hall⟩
    · rw [hframe r (by simp only [h₂, size_add]; exact Nat.le_trans hr hag₁.1) hne,
        fetch_add_of_ne _ hne]
      exact hag₁.2 r (Nat.zero_le _) hr
    · rw [hfetch, fetch_add_self _ h0 (Nat.le_trans hp hag₁.1), hag₁.2 p (Nat.zero_le _) hp]
      simp
end

/-- The reference `store` returns holds the stored tree. -/
theorem holds_store (h : Heap α) (t : Tree α) : Holds (store h t).1 (store h t).2 t := by
  rw [store_ref]
  exact (store_spec h t).2

end Heap

end RefTree
