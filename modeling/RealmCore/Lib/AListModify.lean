import Mathlib

/-!
# In-place update of an association list

`std::unordered_map::find` followed by a write through the returned reference changes the
value stored under a key and nothing else.  On an `AList` with values independent of the key
this is `AList.modify`, built on `AList.replace`, which keeps the position of the entry.
Mathlib has no lookup lemmas for `replace`; they are proved here, from `List.kreplace`.
-/

namespace AList

variable {α β : Type*} [DecidableEq α]

section Replace

variable {k k' : α} {b : β}

/-- `List.kreplace` is a `lookmap`; the lemmas below rewrite with this. -/
lemma kreplace_eq_lookmap (l : List (Sigma fun _ : α => β)) :
    List.kreplace k b l = l.lookmap fun s => if k = s.1 then some ⟨k, b⟩ else none :=
  rfl

lemma dlookup_kreplace_self (l : List (Sigma fun _ : α => β)) (h : k ∈ l.keys) :
    List.dlookup k (List.kreplace k b l) = some b := by
  induction l with
  | nil => simp at h
  | cons s l ih =>
    obtain ⟨k₁, b₁⟩ := s
    by_cases hk : k = k₁
    · subst hk
      simp [kreplace_eq_lookmap, List.dlookup_cons_eq]
    · have hl : k ∈ l.keys := by simpa [hk] using h
      have ih := ih hl
      simp only [kreplace_eq_lookmap] at ih ⊢
      simp [List.lookmap_cons_none, hk, List.dlookup_cons_ne, ih]

lemma dlookup_kreplace_ne (h : k' ≠ k) (l : List (Sigma fun _ : α => β)) :
    List.dlookup k' (List.kreplace k b l) = List.dlookup k' l := by
  induction l with
  | nil => rfl
  | cons s l ih =>
    obtain ⟨k₁, b₁⟩ := s
    simp only [kreplace_eq_lookmap] at ih ⊢
    by_cases hk : k = k₁
    · subst hk
      simp [List.dlookup_cons_ne, h]
    · by_cases hk' : k' = k₁
      · subst hk'
        simp [hk, List.dlookup_cons_eq]
      · simp [hk, hk', List.dlookup_cons_ne, ih]

lemma lookup_replace_self {m : AList fun _ : α => β} (h : k ∈ m) :
    (m.replace k b).lookup k = some b :=
  dlookup_kreplace_self _ (mem_keys.mp h)

lemma lookup_replace_ne {m : AList fun _ : α => β} (h : k' ≠ k) :
    (m.replace k b).lookup k' = m.lookup k' :=
  dlookup_kreplace_ne h _

end Replace

/-- Apply `f` in place to the value stored under `k`; nothing changes when `k` is absent. -/
def modify (m : AList fun _ : α => β) (k : α) (f : β → β) : AList fun _ : α => β :=
  match m.lookup k with
  | some b => m.replace k (f b)
  | none => m

variable {m : AList fun _ : α => β} {k k' : α} {f : β → β}

@[simp] lemma keys_modify : (m.modify k f).keys = m.keys := by
  unfold modify
  cases m.lookup k <;> simp

@[simp] lemma mem_modify : k' ∈ m.modify k f ↔ k' ∈ m := by
  simp [mem_keys]

@[simp] lemma lookup_modify_self : (m.modify k f).lookup k = (m.lookup k).map f := by
  unfold modify
  cases hb : m.lookup k with
  | none => simp [hb]
  | some b =>
    dsimp only
    rw [lookup_replace_self (lookup_isSome.mp (by simp [hb])), Option.map_some]

@[simp] lemma lookup_modify_ne (h : k' ≠ k) : (m.modify k f).lookup k' = m.lookup k' := by
  unfold modify
  cases m.lookup k
  · rfl
  · exact lookup_replace_ne h

lemma lookup_modify :
    (m.modify k f).lookup k' = if k' = k then (m.lookup k').map f else m.lookup k' := by
  split
  · subst k'
    exact lookup_modify_self
  · exact lookup_modify_ne ‹_›

end AList

namespace AList

variable {α β γ : Type*} [DecidableEq α]

/-- Inserting the entries of a list with distinct keys one by one, each value mapped by `f`,
gives the list's lookup mapped by `f`, and the starting map's lookup off the list's keys. -/
lemma lookup_foldl_insert (f : β → γ) :
    ∀ (l : List (Sigma fun _ : α => β)), l.NodupKeys → ∀ (m : AList fun _ : α => γ) (k : α),
      (l.foldl (fun m e => m.insert e.1 (f e.2)) m).lookup k =
        ((l.dlookup k).map f).or (m.lookup k)
  | [], _, m, k => by simp
  | e :: l, hl, m, k => by
    obtain ⟨hnotin, hl⟩ := List.nodupKeys_cons.mp hl
    rw [List.foldl_cons, lookup_foldl_insert f l hl]
    by_cases hk : k = e.1
    · -- the key of the head is not among the later keys
      subst hk
      rw [List.dlookup_eq_none.mpr hnotin, List.dlookup_cons_eq, lookup_insert]
      rfl
    · rw [List.dlookup_cons_ne _ _ hk, lookup_insert_ne hk]

end AList
