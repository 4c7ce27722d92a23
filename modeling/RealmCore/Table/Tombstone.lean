import Mathlib
import RealmCore.Lib.Run
import RealmCore.Table.Collision

/-!
# Tombstones of a table with a primary key

A table with a primary key keeps, besides its objects, tombstones: objects that links point to
but that do not exist (yet), under unresolved keys.  `get_objkey_from_primary_key(pk)` answers
the key of the object of primary key `pk`, or else the key of its tombstone, which it creates
under the unresolved form of `global_to_local_object_id_hashed(GlobalKey(pk))`
(src/realm/table.cpp).  When the tombstone of another primary key stands there, the two object
IDs collided on their optimistic key: `allocate_local_id_after_hash_collision` records both in
the collision table, the new one under a fresh tagged key, and the tombstone goes under that
one.  Creating the object of `pk` resurrects its tombstone, and erasing an object or a
tombstone releases its local key in the collision table.

`PkTable` is the part of a table that these functions read and write, for primary keys of any
type `κ` with any object-ID function `gk`.  Every run keeps `PkTable.Inv` as long as fewer than
`2^62` sequence numbers have been taken: the tombstone of a primary key is found through its
object ID, so no two tombstones share a primary key and asking for the key again answers the
same tombstone, and the collision table stays sorted in the order the insertion keeps.
-/

namespace Realm

/-- The part of a `Table` with a primary key column of values of type `κ` that the primary key
and tombstone code reads and writes: the objects and the tombstones (`m_clusters` and
`m_tombstones`), each with its primary key, the collision table and the sequence number. -/
structure PkTable (κ : Type) where
  objects : AList fun _ : ObjKey => κ
  tombstones : AList fun _ : ObjKey => κ
  collisionMap : Option CollisionMap
  sequenceNumber : Nat

namespace PkTable

variable {κ : Type} [DecidableEq κ]

/-- A new table: no objects, no tombstones, no collision table, and sequence number `0`. -/
def empty : PkTable κ := ⟨∅, ∅, none, 0⟩

/-- `Table::get_next_valid_key`: take sequence numbers until one is not the key of an object,
on fuel.  The keys it tries are distinct, so more tries than objects always find one. -/
def getNextValidKey (objects : AList fun _ : ObjKey => κ) : Nat → Nat → Option (ObjKey × Nat)
  | 0, _ => none
  | fuel + 1, sequenceNumber =>
    let key : ObjKey := ⟨sequenceNumber.toUInt64.toInt64⟩
    if key ∈ objects then getNextValidKey objects fuel (sequenceNumber + 1)
    else some (key, sequenceNumber + 1)

/-- `Table::find_primary_key` through the search index of the primary key column: the key of
an object of primary key `pk`. -/
def findPrimaryKey (t : PkTable κ) (pk : κ) : Option ObjKey :=
  (t.objects.entries.find? fun e => e.2 = pk).map Sigma.fst

/-- `m_tombstones->erase(key)`: `ClusterTree::erase` releases the local key of the tombstone in
the collision table, and the tombstone goes. -/
def eraseTombstone (t : PkTable κ) (key : ObjKey) : PkTable κ :=
  { t with
    tombstones := t.tombstones.erase key
    collisionMap := freeLocalIdAfterHashCollision t.collisionMap key }

/-- `Table::remove_object` of an object with no links to nullify or cascade:
`ClusterTree::erase` releases its local key in the collision table and the object goes; there
is no object to erase under a key that has none. -/
def removeObject (t : PkTable κ) (key : ObjKey) : Except String (PkTable κ) :=
  if key ∈ t.objects then
    .ok { t with
      objects := t.objects.erase key
      collisionMap := freeLocalIdAfterHashCollision t.collisionMap key }
  else .error "KeyNotFound"

variable (gk : κ → GlobalKey)

/-- `Table::get_or_create_tombstone` for a table with a primary key, on fuel: the tombstone
under the unresolved form of `key` when it is the one of `pkVal`, a new one there when there is
none, and after a collision with the tombstone of another primary key there, the same under the
new local key of `pkVal`.  It answers the table and the key of the tombstone. -/
def getOrCreateTombstone : Nat → PkTable κ → ObjKey → κ → Except String (PkTable κ × ObjKey)
  | 0, _, _, _ => .error "get_or_create_tombstone: out of fuel"
  | fuel + 1, t, key, pkVal =>
    let unresKey := key.getUnresolved
    match t.tombstones.lookup unresKey with
    | some existingPkValue =>
      if existingPkValue ≠ pkVal then do
        -- a collision: the object ID of `pkVal` gets a new local key
        let (cm, sequenceNumber, key) ← allocateLocalIdAfterHashCollision t.collisionMap
          t.sequenceNumber (gk pkVal) (gk existingPkValue) key
        getOrCreateTombstone fuel { t with collisionMap := some cm, sequenceNumber } key pkVal
      else .ok (t, unresKey)
    | none => .ok ({ t with tombstones := t.tombstones.insert unresKey pkVal }, unresKey)

/-- `Table::get_objkey_from_primary_key`: the key of the object of primary key `pk`, or of its
tombstone, created if need be.  The tombstone code recurses once at most, as the key it
allocates after a collision is fresh (`Inv.getOrCreateTombstone`), which two levels of fuel
allow. -/
def getObjkeyFromPrimaryKey (t : PkTable κ) (pk : κ) : Except String (PkTable κ × ObjKey) :=
  match t.findPrimaryKey pk with
  | some key => .ok (t, key)
  | none => getOrCreateTombstone gk 2 t (globalToLocalObjectIdHashed t.collisionMap (gk pk)) pk

/-- The key of the tombstone of `pk`, looked for by `create_object_with_primary_key` under the
unresolved form of the local key of its object ID. -/
def tombstoneOf (t : PkTable κ) (pk : κ) : Option ObjKey :=
  let key := (globalToLocalObjectIdHashed t.collisionMap (gk pk)).getUnresolved
  match t.tombstones.lookup key with
  | some existingPkValue => if existingPkValue = pk then some key else none
  | none => none

/-- `Table::create_object_with_primary_key` with no other values: the object of primary key
`pk` if there is one; otherwise a new object under the next valid key, which takes over the
tombstone of `pk`, if there is one, and erases it. -/
def createObjectWithPrimaryKey (t : PkTable κ) (pk : κ) : Except String (PkTable κ × ObjKey) :=
  match t.findPrimaryKey pk with
  | some key => .ok (t, key)
  | none =>
    match getNextValidKey t.objects (t.objects.entries.length + 1) t.sequenceNumber with
    | none => .error "get_next_valid_key: out of fuel"
    | some (key, sequenceNumber) =>
      let t' := { t with objects := t.objects.insert key pk, sequenceNumber }
      match t.tombstoneOf gk pk with
      | some unresKey => .ok (t'.eraseTombstone unresKey, key)
      | none => .ok (t', key)

/-- `Table::invalidate_object` of an object that links point to: the tombstone of its primary
key takes over the links, and the object is removed. -/
def invalidateObject (t : PkTable κ) (key : ObjKey) : Except String (PkTable κ × ObjKey) := do
  let some pk := t.objects.lookup key | .error "KeyNotFound"
  let (t, tombstone) ← getOrCreateTombstone gk 2 t
    (globalToLocalObjectIdHashed t.collisionMap (gk pk)) pk
  let t ← t.removeObject key
  return (t, tombstone)

end PkTable

/-- The operations on the primary keys of a table. -/
inductive PkOp (κ : Type) where
  | getObjkeyFromPrimaryKey (pk : κ)
  | createObjectWithPrimaryKey (pk : κ)
  | removeObject (key : ObjKey)
  | invalidateObject (key : ObjKey)
  | eraseTombstone (key : ObjKey)

namespace PkTable

variable {κ : Type} [DecidableEq κ] (gk : κ → GlobalKey)

/-- One operation; erasing a tombstone under a key that has none fails like erasing an object. -/
def step (t : PkTable κ) : PkOp κ → Except String (PkTable κ)
  | .getObjkeyFromPrimaryKey pk => Prod.fst <$> t.getObjkeyFromPrimaryKey gk pk
  | .createObjectWithPrimaryKey pk => Prod.fst <$> t.createObjectWithPrimaryKey gk pk
  | .removeObject key => t.removeObject key
  | .invalidateObject key => Prod.fst <$> t.invalidateObject gk key
  | .eraseTombstone key =>
    if key ∈ t.tombstones then .ok (t.eraseTombstone key) else .error "KeyNotFound"

end PkTable

/-! ## The invariant -/

namespace PkTable

variable {κ : Type} (gk : κ → GlobalKey)

/-- What the tombstone code keeps of the tombstones and the collision table of a table. -/
structure TombstoneInv (t : PkTable κ) : Prop where
  /-- The collision table is well formed. -/
  wf : CollisionWF t.collisionMap
  /-- Each tombstone is found through the object ID of its primary key. -/
  tombstone : ∀ u pk, t.tombstones.lookup u = some pk →
    globalToLocalObjectIdHashed t.collisionMap (gk pk) = u.getUnresolved
  /-- Each entry of the collision table is for the tombstone under its local key. -/
  entry : ∀ e ∈ collisionEntries t.collisionMap,
    ∃ pk, t.tombstones.lookup e.2.getUnresolved = some pk ∧ gk pk = e.1
  /-- No two entries share a local key. -/
  entry_nodup : ((collisionEntries t.collisionMap).map Sigma.snd).Nodup
  /-- An entry is under the optimistic key of its object ID or under the tagged key of a
  sequence number taken already. -/
  entry_key : ∀ e ∈ collisionEntries t.collisionMap, e.2 = getOptimisticLocalIdHashed e.1 ∨
    (2 ^ 62 ≤ e.2.value.toInt ∧ e.2.value.toInt < 2 ^ 62 + t.sequenceNumber)

/-- What every run keeps of a table with a primary key. -/
structure Inv (t : PkTable κ) : Prop extends TombstoneInv gk t where
  /-- Objects are under sequence numbers taken already. -/
  object_key : ∀ k ∈ t.objects, 0 ≤ k.value.toInt ∧ k.value.toInt < t.sequenceNumber
  /-- No two objects share a primary key. -/
  object_pk : ∀ k₁ k₂ pk, t.objects.lookup k₁ = some pk → t.objects.lookup k₂ = some pk →
    k₁ = k₂
  /-- No object shares its primary key with a tombstone. -/
  object_tombstone : ∀ k u pk, t.objects.lookup k = some pk → t.tombstones.lookup u ≠ some pk

namespace TombstoneInv

variable {gk} {t : PkTable κ}

/-- The lookup answers the optimistic key or the key of an entry. -/
lemma globalToLocal_cases (h : TombstoneInv gk t) (g : GlobalKey) :
    globalToLocalObjectIdHashed t.collisionMap g = getOptimisticLocalIdHashed g ∨
      ⟨g, globalToLocalObjectIdHashed t.collisionMap g⟩ ∈ collisionEntries t.collisionMap := by
  rw [globalToLocal_eq h.wf]
  cases hd : (collisionEntries t.collisionMap).dlookup g with
  | none => exact Or.inl rfl
  | some v => exact Or.inr (List.of_mem_dlookup hd)

/-- Every answer of the lookup lies at or above `0` and below the tagged key of the sequence
number. -/
lemma globalToLocal_range (h : TombstoneInv gk t) (g : GlobalKey) :
    0 ≤ (globalToLocalObjectIdHashed t.collisionMap g).value.toInt ∧
      (globalToLocalObjectIdHashed t.collisionMap g).value.toInt < 2 ^ 62 + t.sequenceNumber := by
  have hopt := getOptimisticLocalIdHashed_toInt g
  rcases h.globalToLocal_cases g with hg | hg
  · rw [hg]
    omega
  · rcases h.entry_key _ hg with he | he
    · simp only at he
      rw [he]
      omega
    · simp only at he
      omega

/-- No entry is under the tagged key of the sequence number. -/
lemma entry_ne_tagged (h : TombstoneInv gk t) {key : ObjKey}
    (hkey : key.value.toInt = 2 ^ 62 + t.sequenceNumber) :
    ∀ e ∈ collisionEntries t.collisionMap, e.2 ≠ key := by
  intro e he hek
  have hopt := getOptimisticLocalIdHashed_toInt e.1
  rcases h.entry_key e he with he' | he'
  · rw [← he', hek] at hopt
    omega
  · rw [hek] at he'
    omega

/-- Nor is it the lookup's answer for any object ID. -/
lemma globalToLocal_ne_tagged (h : TombstoneInv gk t) {key : ObjKey}
    (hkey : key.value.toInt = 2 ^ 62 + t.sequenceNumber) (g : GlobalKey) :
    globalToLocalObjectIdHashed t.collisionMap g ≠ key := by
  intro hg
  have hrange := h.globalToLocal_range g
  rw [hg, hkey] at hrange
  omega

/-- So no tombstone stands under its unresolved form. -/
lemma lookup_tagged (h : TombstoneInv gk t) {key : ObjKey}
    (hkey : key.value.toInt = 2 ^ 62 + t.sequenceNumber) :
    t.tombstones.lookup key.getUnresolved = none := by
  cases hu : t.tombstones.lookup key.getUnresolved with
  | none => rfl
  | some pk =>
    have hlook := h.tombstone _ _ hu
    rw [ObjKey.getUnresolved_getUnresolved] at hlook
    exact absurd hlook (h.globalToLocal_ne_tagged hkey (gk pk))

/-- No two tombstones share a primary key. -/
lemma tombstone_unique (h : TombstoneInv gk t) {u₁ u₂ : ObjKey} {pk : κ}
    (h₁ : t.tombstones.lookup u₁ = some pk) (h₂ : t.tombstones.lookup u₂ = some pk) :
    u₁ = u₂ :=
  ObjKey.getUnresolved_injective ((h.tombstone _ _ h₁).symm.trans (h.tombstone _ _ h₂))

/-- The key of a tombstone is the unresolved form of the lookup's answer for its primary key. -/
lemma eq_getUnresolved (h : TombstoneInv gk t) {u : ObjKey} {pk : κ}
    (hu : t.tombstones.lookup u = some pk) :
    u = (globalToLocalObjectIdHashed t.collisionMap (gk pk)).getUnresolved := by
  rw [h.tombstone _ _ hu, ObjKey.getUnresolved_getUnresolved]

/-- Releasing a tombstone's key releases the local key it was found through. -/
lemma resolve_tombstone (h : TombstoneInv gk t) {u : ObjKey} {pk : κ}
    (hu : t.tombstones.lookup u = some pk) :
    (if u.isUnresolved then u.getUnresolved else u) =
      globalToLocalObjectIdHashed t.collisionMap (gk pk) := by
  rw [h.eq_getUnresolved hu]
  exact ObjKey.resolve_getUnresolved (h.globalToLocal_range (gk pk)).1

/-- A new tombstone of `pk` under the unresolved form of the lookup's answer `L` for it, where
none stands, keeps the invariant. -/
lemma insert_tombstone (h : TombstoneInv gk t) {pk : κ} {L : ObjKey}
    (hL : globalToLocalObjectIdHashed t.collisionMap (gk pk) = L)
    (hnone : t.tombstones.lookup L.getUnresolved = none) :
    TombstoneInv gk { t with tombstones := t.tombstones.insert L.getUnresolved pk } where
  wf := h.wf
  tombstone u q hu := by
    by_cases huk : u = L.getUnresolved
    · subst huk
      rw [AList.lookup_insert] at hu
      injection hu with hq
      subst hq
      rw [ObjKey.getUnresolved_getUnresolved]
      exact hL
    · rw [AList.lookup_insert_ne huk] at hu
      exact h.tombstone u q hu
  entry e he := by
    obtain ⟨q, hq, hgk⟩ := h.entry e he
    have hne : e.2.getUnresolved ≠ L.getUnresolved := fun heq => by
      rw [heq, hnone] at hq
      cases hq
    exact ⟨q, by rw [AList.lookup_insert_ne hne]; exact hq, hgk⟩
  entry_nodup := h.entry_nodup
  entry_key := h.entry_key

/-- After a collision of `pk` with the tombstone of `pk'` under the unresolved form of the
lookup's answer `L` for `pk`, `allocate_local_id_after_hash_collision` records the object ID of
`pk` under the tagged key of the sequence number, which is fresh, and then that of `pk'` under
`L` unless it has that entry already. -/
lemma allocate_eq_ok (h : TombstoneInv gk t) {pk pk' : κ} {L : ObjKey}
    (hL : globalToLocalObjectIdHashed t.collisionMap (gk pk) = L)
    {cm : CollisionMap} {next : Nat} {key : ObjKey}
    (ha : allocateLocalIdAfterHashCollision t.collisionMap t.sequenceNumber (gk pk) (gk pk') L =
      .ok (cm, next, key)) :
    next = t.sequenceNumber + 1 ∧ key.value.toInt = 2 ^ 62 + t.sequenceNumber ∧
      gk pk ≠ gk pk' ∧ ∃ c : CollisionMap, c.WF ∧
        c.rows.Perm (⟨gk pk, key⟩ :: collisionEntries t.collisionMap) ∧ cm.WF ∧
        (cm = c ∨ ((collisionEntries t.collisionMap).dlookup (gk pk') = none ∧
          cm.rows.Perm (⟨gk pk', L⟩ :: c.rows))) := by
  obtain ⟨hnext, htag, c, h₁, h₂⟩ := allocateLocalIdAfterHashCollision_eq_ok ha
  obtain ⟨-, hkey⟩ := makeTaggedLocalIdAfterHashCollision_eq_ok htag
  have hLkey : L ≠ key := hL ▸ h.globalToLocal_ne_tagged hkey (gk pk)
  obtain ⟨hc, hc₁⟩ := (wf_getD_empty h.wf).insertCollision_ok h₁
  rw [rows_getD_empty] at hc₁
  -- the object ID of `pk` has no entry, as an entry under the fresh key would be its answer
  have hperm : c.rows.Perm (⟨gk pk, key⟩ :: collisionEntries t.collisionMap) := by
    rcases hc₁ with ⟨hd, -⟩ | ⟨-, hp⟩
    · exact absurd rfl (h.entry_ne_tagged hkey _ (List.of_mem_dlookup hd))
    · exact hp
  obtain ⟨hcm, hc₂⟩ := hc.insertCollision_ok h₂
  have hd : c.rows.dlookup (gk pk) = some key := by
    rw [List.perm_dlookup _ hc.nodupKeys hperm, List.dlookup_cons_eq]
  -- the colliding object ID is another one: recording it under `L` would fail over `key`
  have hgk : gk pk ≠ gk pk' := by
    intro heq
    rw [← heq, hd] at hc₂
    rcases hc₂ with ⟨hd', -⟩ | ⟨hd', -⟩
    · injection hd' with hd'
      exact hLkey hd'.symm
    · cases hd'
  have hd' : c.rows.dlookup (gk pk') = (collisionEntries t.collisionMap).dlookup (gk pk') := by
    rw [List.perm_dlookup _ hc.nodupKeys hperm, List.dlookup_cons_ne _ _ (Ne.symm hgk)]
  refine ⟨hnext, hkey, hgk, c, hc, hperm, hcm, ?_⟩
  rcases hc₂ with ⟨-, rfl⟩ | ⟨hnone, hp⟩
  · exact Or.inl rfl
  · exact Or.inr ⟨hd' ▸ hnone, hp⟩

/-- After a collision of `pk` with the tombstone of `pk'` under the unresolved form of the
lookup's answer `L` for `pk`, the table with the new collision table and sequence number and the
tombstone of `pk` under the fresh key keeps the invariant. -/
lemma collide (h : TombstoneInv gk t) {pk pk' : κ} {L : ObjKey}
    (hL : globalToLocalObjectIdHashed t.collisionMap (gk pk) = L)
    (hu : t.tombstones.lookup L.getUnresolved = some pk')
    {cm : CollisionMap} {next : Nat} {key : ObjKey}
    (ha : allocateLocalIdAfterHashCollision t.collisionMap t.sequenceNumber (gk pk) (gk pk') L =
      .ok (cm, next, key)) :
    TombstoneInv gk { t with
      collisionMap := some cm
      sequenceNumber := next
      tombstones := t.tombstones.insert key.getUnresolved pk } := by
  obtain ⟨rfl, hkey, hgk, c, hc, hperm, hcm, hcases⟩ := h.allocate_eq_ok hL ha
  set E := collisionEntries t.collisionMap
  have hLkey : L ≠ key := hL ▸ h.globalToLocal_ne_tagged hkey (gk pk)
  have hL' : globalToLocalObjectIdHashed t.collisionMap (gk pk') = L := by
    rw [h.tombstone _ _ hu, ObjKey.getUnresolved_getUnresolved]
  have hkeyE : ∀ e ∈ E, e.2 ≠ key := h.entry_ne_tagged hkey
  -- the lookup answers the fresh key for `pk` and is unchanged elsewhere
  have hlook : ∀ g, globalToLocalObjectIdHashed (some cm) g =
      if g = gk pk then key else globalToLocalObjectIdHashed t.collisionMap g := by
    have hwf_c : CollisionWF (some c) := hc
    have hlook_c := globalToLocal_of_perm_cons h.wf hwf_c hperm
    intro g
    rcases hcases with rfl | ⟨-, hp⟩
    · exact hlook_c g
    · rw [globalToLocal_of_perm_cons hwf_c (show CollisionWF (some cm) from hcm) hp g, hlook_c g]
      simp only
      by_cases hg : g = gk pk'
      · subst hg
        rw [if_pos rfl, if_neg (Ne.symm hgk), hL']
      · rw [if_neg hg]
  -- `L` is under no old entry where `pk'` has none: such an entry would be the one of `pk'`
  have hLfresh : E.dlookup (gk pk') = none → ∀ e ∈ E, e.2 ≠ L := by
    intro hnone e he heL
    obtain ⟨q, hq, hgq⟩ := h.entry e he
    rw [heL, hu] at hq
    injection hq with hq
    subst hq
    have hd : e.2 ∈ E.dlookup e.1 := List.mem_dlookup h.wf.nodupKeys he
    rw [← hgq, hnone] at hd
    cases hd
  -- the entries are the one of `pk`, the old ones, and the one of `pk'` where it had none
  have hmem : ∀ e ∈ cm.rows,
      e = ⟨gk pk, key⟩ ∨ e ∈ E ∨ (e = ⟨gk pk', L⟩ ∧ E.dlookup (gk pk') = none) := by
    intro e he
    have hmem_c : ∀ e ∈ c.rows, e = ⟨gk pk, key⟩ ∨ e ∈ E := fun e he =>
      List.mem_cons.mp (hperm.subset he)
    rcases hcases with rfl | ⟨hnone, hp⟩
    · exact (hmem_c e he).imp_right Or.inl
    · rcases List.mem_cons.mp (hp.subset he) with rfl | he'
      · exact Or.inr (Or.inr ⟨rfl, hnone⟩)
      · exact (hmem_c e he').imp_right Or.inl
  refine ⟨hcm, ?_, ?_, ?_, ?_⟩
  · -- each tombstone is found: the new one through the fresh key, the others as before
    intro v q hv
    show globalToLocalObjectIdHashed (some cm) (gk q) = v.getUnresolved
    rw [hlook]
    by_cases hvk : v = key.getUnresolved
    · subst hvk
      rw [AList.lookup_insert] at hv
      injection hv with hq
      subst hq
      rw [if_pos rfl, ObjKey.getUnresolved_getUnresolved]
    · rw [AList.lookup_insert_ne hvk] at hv
      have hq := h.tombstone _ _ hv
      rw [if_neg, hq]
      -- another tombstone with the object ID of `pk` would stand where the one of `pk'` does
      intro hgq
      rw [hgq, hL] at hq
      rw [← ObjKey.getUnresolved_getUnresolved v, ← hq, hu] at hv
      injection hv with hv
      exact hgk (hv ▸ hgq).symm
  · intro e he
    rcases hmem e he with rfl | he | ⟨rfl, -⟩
    · exact ⟨pk, AList.lookup_insert _, rfl⟩
    · obtain ⟨q, hq, hgq⟩ := h.entry e he
      have hne : e.2.getUnresolved ≠ key.getUnresolved :=
        fun heq => hkeyE e he (ObjKey.getUnresolved_injective heq)
      exact ⟨q, by rw [AList.lookup_insert_ne hne]; exact hq, hgq⟩
    · have hne : L.getUnresolved ≠ key.getUnresolved :=
        fun heq => hLkey (ObjKey.getUnresolved_injective heq)
      exact ⟨pk', by rw [AList.lookup_insert_ne hne]; exact hu, rfl⟩
  · -- the fresh key and `L` join the distinct keys of the old entries
    have hnd_c : (c.rows.map Sigma.snd).Nodup :=
      (hperm.map Sigma.snd).nodup_iff.mpr
        (List.nodup_cons.mpr ⟨fun hk => by
          obtain ⟨e, he, hek⟩ := List.mem_map.mp hk
          exact hkeyE e he hek, h.entry_nodup⟩)
    rcases hcases with rfl | ⟨hnone, hp⟩
    · exact hnd_c
    · refine (hp.map Sigma.snd).nodup_iff.mpr (List.nodup_cons.mpr ⟨fun hL₁ => ?_, hnd_c⟩)
      obtain ⟨e, he, heL⟩ := List.mem_map.mp hL₁
      rcases List.mem_cons.mp (hperm.subset he) with rfl | he'
      · exact hLkey heL.symm
      · exact hLfresh hnone e he' heL
  · intro e he
    rcases hmem e he with rfl | he | ⟨rfl, hnone⟩
    · exact Or.inr ⟨by simp only; omega, by simp only; omega⟩
    · rcases h.entry_key e he with hopt | hrange
      · exact Or.inl hopt
      · exact Or.inr ⟨hrange.1, by simp only; omega⟩
    · -- `pk'` had no entry, so `L` was its optimistic key
      left
      rw [← hL', globalToLocal_eq h.wf, hnone, Option.getD_none]

/-- The invariant of the tombstones reads the tombstones, the collision table, and how far the
sequence number went. -/
lemma of_le (h : TombstoneInv gk t) {t' : PkTable κ}
    (htomb : t'.tombstones = t.tombstones) (hmap : t'.collisionMap = t.collisionMap)
    (hsn : t.sequenceNumber ≤ t'.sequenceNumber) : TombstoneInv gk t' where
  wf := hmap ▸ h.wf
  tombstone := by
    rw [htomb, hmap]
    exact h.tombstone
  entry := by
    rw [htomb, hmap]
    exact h.entry
  entry_nodup := hmap ▸ h.entry_nodup
  entry_key e he := by
    rw [hmap] at he
    exact (h.entry_key e he).imp_right fun hr => ⟨hr.1, by omega⟩

/-- Erasing a tombstone releases the local key it was found through, and keeps the
invariant. -/
lemma eraseTombstone (h : TombstoneInv gk t) {u : ObjKey} {pk : κ}
    (hu : t.tombstones.lookup u = some pk) : TombstoneInv gk (t.eraseTombstone u) := by
  obtain ⟨hwf', hnd', hsub, hlook⟩ := free_spec h.wf h.entry_nodup u
  rw [h.resolve_tombstone hu] at hsub hlook
  refine ⟨hwf', fun v q hv => ?_, fun e he => ?_, hnd', fun e he => h.entry_key e (hsub e he).1⟩
  · have hvu : v ≠ u := by
      rintro rfl
      rw [PkTable.eraseTombstone, AList.lookup_erase] at hv
      cases hv
    rw [PkTable.eraseTombstone, AList.lookup_erase_ne hvu] at hv
    show globalToLocalObjectIdHashed (freeLocalIdAfterHashCollision t.collisionMap u) (gk q) =
      v.getUnresolved
    rcases hlook (gk q) with hg | ⟨-, hq, -⟩
    · rw [hg, h.tombstone _ _ hv]
    · -- the answer for `q` would be the one for `pk`, and the two tombstones one
      exact absurd (by rw [h.eq_getUnresolved hv, h.eq_getUnresolved hu, hq]) hvu
  · obtain ⟨he', heL⟩ := hsub e he
    obtain ⟨q, hq, hgq⟩ := h.entry e he'
    have hne : e.2.getUnresolved ≠ u := fun heq => heL (by
      rw [← ObjKey.getUnresolved_getUnresolved e.2, heq, h.tombstone _ _ hu])
    exact ⟨q, by rw [PkTable.eraseTombstone, AList.lookup_erase_ne hne]; exact hq, hgq⟩

/-- Removing an object releases its key, under which only an entry with its optimistic key can
stand, so the lookup does not change and the invariant holds. -/
lemma removeObject (h : TombstoneInv gk t) {k : ObjKey}
    (hk : 0 ≤ k.value.toInt ∧ k.value.toInt < 2 ^ 62) {t' : PkTable κ}
    (hok : t.removeObject k = .ok t') :
    TombstoneInv gk t' ∧ t'.objects = t.objects.erase k ∧ t'.tombstones = t.tombstones ∧
      t'.sequenceNumber = t.sequenceNumber := by
  unfold PkTable.removeObject at hok
  split_ifs at hok
  injection hok with hok
  subst hok
  refine ⟨?_, rfl, rfl, rfl⟩
  obtain ⟨hwf', hnd', hsub, hlook⟩ := free_spec h.wf h.entry_nodup k
  simp only [ObjKey.isUnresolved_eq_false hk.1, Bool.false_eq_true, if_false] at hsub hlook
  have hlook' : ∀ g, globalToLocalObjectIdHashed (freeLocalIdAfterHashCollision t.collisionMap k) g =
      globalToLocalObjectIdHashed t.collisionMap g := by
    intro g
    rcases hlook g with hg | ⟨hmem, hgk, hopt⟩
    · exact hg
    · -- the entry under `k` is no tagged one, as `k` lies below `2^62`
      rcases h.entry_key _ hmem with he | he
      · rw [hopt]
        exact he.symm
      · simp only at he
        rw [hgk] at he
        omega
  exact ⟨hwf', fun v q hv => by rw [hlook']; exact h.tombstone v q hv,
    fun e he => h.entry e (hsub e he).1, hnd', fun e he => h.entry_key e (hsub e he).1⟩

end TombstoneInv

end PkTable

/-! ## The operations keep the invariant -/

namespace PkTable

variable {κ : Type} [DecidableEq κ] {gk : κ → GlobalKey} {t : PkTable κ}

/-- `get_or_create_tombstone` from the lookup's answer for `pk` answers a tombstone of `pk`,
keeps the invariant of the tombstones and the objects, does not decrease the sequence number,
and adds no tombstone of another primary key. -/
lemma TombstoneInv.getOrCreateTombstone_eq_ok (h : TombstoneInv gk t) {pk : κ}
    {t' : PkTable κ} {u : ObjKey}
    (hok : getOrCreateTombstone gk 2 t (globalToLocalObjectIdHashed t.collisionMap (gk pk)) pk =
      .ok (t', u)) :
    TombstoneInv gk t' ∧ t'.objects = t.objects ∧ t.sequenceNumber ≤ t'.sequenceNumber ∧
      t'.tombstones.lookup u = some pk ∧
      ∀ v q, t'.tombstones.lookup v = some q → t.tombstones.lookup v = some q ∨ q = pk := by
  set L := globalToLocalObjectIdHashed t.collisionMap (gk pk) with hL
  -- tombstones added under `v`: the one of `pk`, or none
  have hnew : ∀ v w q, (t.tombstones.insert w pk).lookup v = some q →
      t.tombstones.lookup v = some q ∨ q = pk := by
    intro v w q hv
    by_cases hvw : v = w
    · subst hvw
      rw [AList.lookup_insert] at hv
      injection hv with hv
      exact Or.inr hv.symm
    · rw [AList.lookup_insert_ne hvw] at hv
      exact Or.inl hv
  simp only [getOrCreateTombstone] at hok
  cases hu : t.tombstones.lookup L.getUnresolved with
  | none =>
    -- no tombstone under the key: a new one of `pk`
    simp only [hu, Except.ok.injEq, Prod.mk.injEq] at hok
    obtain ⟨rfl, rfl⟩ := hok
    exact ⟨h.insert_tombstone hL.symm hu, rfl, le_rfl, AList.lookup_insert _, fun v q => hnew v _ q⟩
  | some pk' =>
    by_cases hne : pk' = pk
    · -- the tombstone of `pk` itself
      subst hne
      simp only [hu, ne_eq, not_true_eq_false, if_false, Except.ok.injEq, Prod.mk.injEq] at hok
      obtain ⟨rfl, rfl⟩ := hok
      exact ⟨h, rfl, le_rfl, hu, fun v q hv => Or.inl hv⟩
    · -- a collision: the tombstone of `pk` goes under the fresh tagged key
      simp only [hu, ne_eq, hne, not_false_eq_true, if_true] at hok
      cases ha : allocateLocalIdAfterHashCollision t.collisionMap t.sequenceNumber (gk pk)
          (gk pk') L with
      | error e => simp [ha, bind, Except.bind] at hok
      | ok r =>
        obtain ⟨cm, next, key⟩ := r
        obtain ⟨rfl, hkey, -⟩ := h.allocate_eq_ok hL.symm ha
        simp only [ha, bind, Except.bind, h.lookup_tagged hkey, Except.ok.injEq,
          Prod.mk.injEq] at hok
        obtain ⟨rfl, rfl⟩ := hok
        exact ⟨h.collide hL.symm hu ha, rfl, Nat.le_succ _, AList.lookup_insert _,
          fun v q => hnew v _ q⟩

/-! ### What the operations read -/

omit [DecidableEq κ] in
lemma lookup_of_lookup_erase {s : AList fun _ : ObjKey => κ} {u v : ObjKey} {q : κ}
    (h : (s.erase u).lookup v = some q) : v ≠ u ∧ s.lookup v = some q := by
  by_cases hvu : v = u
  · subst hvu
    rw [AList.lookup_erase] at h
    cases h
  · rw [AList.lookup_erase_ne hvu] at h
    exact ⟨hvu, h⟩

omit [DecidableEq κ] in
lemma lookup_of_lookup_insert {s : AList fun _ : ObjKey => κ} {u v : ObjKey} {p q : κ}
    (h : (s.insert u p).lookup v = some q) : (v = u ∧ q = p) ∨ s.lookup v = some q := by
  by_cases hvu : v = u
  · subst hvu
    rw [AList.lookup_insert] at h
    injection h with h
    exact Or.inl ⟨rfl, h.symm⟩
  · rw [AList.lookup_insert_ne hvu] at h
    exact Or.inr h

lemma findPrimaryKey_eq_none_iff {pk : κ} :
    t.findPrimaryKey pk = none ↔ ∀ k, t.objects.lookup k ≠ some pk := by
  rw [findPrimaryKey, Option.map_eq_none_iff, List.find?_eq_none]
  constructor
  · intro h k hk
    simpa using h _ (AList.mem_lookup_iff.mp hk)
  · intro h e he hpk
    rw [decide_eq_true_iff] at hpk
    exact h e.1 (AList.mem_lookup_iff.mpr (hpk ▸ he))

lemma lookup_of_findPrimaryKey {pk : κ} {k : ObjKey} (h : t.findPrimaryKey pk = some k) :
    t.objects.lookup k = some pk := by
  obtain ⟨e, he, rfl⟩ := Option.map_eq_some_iff.mp h
  have hpk := List.find?_some he
  rw [decide_eq_true_iff] at hpk
  exact AList.mem_lookup_iff.mpr (hpk ▸ List.mem_of_find?_eq_some he)

lemma lookup_of_tombstoneOf {pk : κ} {u : ObjKey} (h : t.tombstoneOf gk pk = some u) :
    t.tombstones.lookup u = some pk := by
  simp only [tombstoneOf] at h
  cases hq : t.tombstones.lookup (globalToLocalObjectIdHashed t.collisionMap (gk pk)).getUnresolved
    with
  | none => simp [hq] at h
  | some q =>
    simp only [hq] at h
    by_cases hqp : q = pk
    · simp only [hqp, ↓reduceIte, Option.some.injEq] at h
      rw [← h, hq, hqp]
    · simp only [hqp, ↓reduceIte, reduceCtorEq] at h

/-- Where `create_object_with_primary_key` finds no tombstone of `pk`, there is none. -/
lemma TombstoneInv.tombstoneOf_eq_none (h : TombstoneInv gk t) {pk : κ}
    (hn : t.tombstoneOf gk pk = none) : ∀ v, t.tombstones.lookup v ≠ some pk := by
  intro v hv
  simp only [tombstoneOf] at hn
  rw [← h.eq_getUnresolved hv, hv] at hn
  simp at hn

omit [DecidableEq κ] in
/-- The key `ObjKey(sequence_number)`, for a sequence number below `2^63`. -/
lemma sequenceKey_toInt {sequenceNumber : Nat} (h : sequenceNumber < 2 ^ 63) :
    (⟨sequenceNumber.toUInt64.toInt64⟩ : ObjKey).value.toInt = sequenceNumber := by
  have hsize : sequenceNumber < UInt64.size := by
    unfold UInt64.size
    omega
  have hnat : sequenceNumber.toUInt64.toNat = sequenceNumber := UInt64.toNat_ofNat_of_lt' hsize
  show sequenceNumber.toUInt64.toInt64.toInt = _
  rw [toInt_toInt64_of_lt (by omega), hnat]

omit [DecidableEq κ] in
/-- The first sequence number is free where the objects are under smaller ones. -/
lemma getNextValidKey_eq {objects : AList fun _ : ObjKey => κ} {sequenceNumber : Nat}
    (hfree : ∀ k ∈ objects, k.value.toInt < sequenceNumber) (h : sequenceNumber < 2 ^ 63)
    (fuel : Nat) :
    getNextValidKey objects (fuel + 1) sequenceNumber =
      some (⟨sequenceNumber.toUInt64.toInt64⟩, sequenceNumber + 1) := by
  simp only [getNextValidKey]
  rw [if_neg fun hmem => by have := hfree _ hmem; rw [sequenceKey_toInt h] at this; omega]

omit [DecidableEq κ] in
lemma lt_of_getNextValidKey {objects : AList fun _ : ObjKey => κ} :
    ∀ {fuel sequenceNumber : Nat} {key : ObjKey} {next : Nat},
      getNextValidKey objects fuel sequenceNumber = some (key, next) → sequenceNumber < next
  | 0, _, _, _, h => by cases h
  | fuel + 1, sequenceNumber, key, next, h => by
    simp only [getNextValidKey] at h
    split_ifs at h
    · exact Nat.lt_trans (Nat.lt_succ_self _) (lt_of_getNextValidKey h)
    · injection h with h
      injection h with _ h
      omega

/-! ### The sequence number only grows -/

lemma sequenceNumber_le_getOrCreateTombstone :
    ∀ {fuel : Nat} {t t' : PkTable κ} {key u : ObjKey} {pk : κ},
      getOrCreateTombstone gk fuel t key pk = .ok (t', u) →
        t.sequenceNumber ≤ t'.sequenceNumber
  | 0, _, _, _, _, _, h => by cases h
  | fuel + 1, t, t', key, u, pk, h => by
    simp only [getOrCreateTombstone] at h
    split at h
    · rename_i q _
      split_ifs at h
      · cases ha : allocateLocalIdAfterHashCollision t.collisionMap t.sequenceNumber (gk pk)
            (gk q) key with
        | error e => simp [ha, bind, Except.bind] at h
        | ok r =>
          obtain ⟨cm, next, key'⟩ := r
          simp only [ha, bind, Except.bind] at h
          have hnext := (allocateLocalIdAfterHashCollision_eq_ok ha).1
          have := sequenceNumber_le_getOrCreateTombstone h
          simp only at this
          omega
      · injection h with h
        injection h with h
        subst h
        exact le_rfl
    · injection h with h
      injection h with h
      subst h
      exact le_rfl

omit [DecidableEq κ] in
lemma eq_ok_of_map_fst {β : Type} {x : Except String (PkTable κ × β)} {t' : PkTable κ}
    (h : Prod.fst <$> x = .ok t') : ∃ b, x = .ok (t', b) := by
  cases x with
  | error e => cases h
  | ok r =>
    injection h with h
    exact ⟨r.2, by rw [← h]⟩

omit [DecidableEq κ] in
lemma removeObject_eq_ok {k : ObjKey} {t' : PkTable κ} (h : t.removeObject k = .ok t') :
    k ∈ t.objects ∧ t' = { t with
      objects := t.objects.erase k
      collisionMap := freeLocalIdAfterHashCollision t.collisionMap k } := by
  unfold PkTable.removeObject at h
  split_ifs at h with hk
  injection h with h
  exact ⟨hk, h.symm⟩

/-- `create_object_with_primary_key` of a primary key with no object: the object goes under
the first sequence number, and the tombstone of `pk`, if any, is erased. -/
lemma createObjectWithPrimaryKey_of_findPrimaryKey_eq_none {pk : κ} {t' : PkTable κ}
    {k : ObjKey} (hf : t.findPrimaryKey pk = none)
    (h : t.createObjectWithPrimaryKey gk pk = .ok (t', k)) :
    ∃ next, getNextValidKey t.objects (t.objects.entries.length + 1) t.sequenceNumber =
      some (k, next) ∧
      ((t.tombstoneOf gk pk = none ∧
          t' = { t with objects := t.objects.insert k pk, sequenceNumber := next }) ∨
        ∃ u, t.tombstoneOf gk pk = some u ∧
          t' = ({ t with objects := t.objects.insert k pk, sequenceNumber := next } :
            PkTable κ).eraseTombstone u) := by
  unfold PkTable.createObjectWithPrimaryKey at h
  rw [hf] at h
  cases hn : getNextValidKey t.objects (t.objects.entries.length + 1) t.sequenceNumber with
  | none => simp [hn] at h
  | some r =>
    obtain ⟨key, next⟩ := r
    simp only [hn] at h
    cases ht : t.tombstoneOf gk pk with
    | none =>
      simp only [ht, Except.ok.injEq, Prod.mk.injEq] at h
      obtain ⟨rfl, rfl⟩ := h
      exact ⟨next, rfl, Or.inl ⟨rfl, rfl⟩⟩
    | some u =>
      simp only [ht, Except.ok.injEq, Prod.mk.injEq] at h
      obtain ⟨rfl, rfl⟩ := h
      exact ⟨next, rfl, Or.inr ⟨u, rfl, rfl⟩⟩

/-- `invalidate_object` of an object of primary key `pk`: the tombstone of `pk`, then the
removal of the object. -/
lemma invalidateObject_eq_ok {k : ObjKey} {t' : PkTable κ} {u : ObjKey}
    (h : t.invalidateObject gk k = .ok (t', u)) :
    ∃ pk t₁, t.objects.lookup k = some pk ∧
      getOrCreateTombstone gk 2 t (globalToLocalObjectIdHashed t.collisionMap (gk pk)) pk =
        .ok (t₁, u) ∧ t₁.removeObject k = .ok t' := by
  unfold PkTable.invalidateObject at h
  cases hk : t.objects.lookup k with
  | none => simp [hk] at h
  | some pk =>
    simp only [hk] at h
    cases hg : getOrCreateTombstone gk 2 t (globalToLocalObjectIdHashed t.collisionMap (gk pk))
        pk with
    | error e => simp [hg, bind, Except.bind] at h
    | ok r =>
      obtain ⟨t₁, u₁⟩ := r
      simp only [hg, bind, Except.bind] at h
      cases hr : t₁.removeObject k with
      | error e => simp [hr] at h
      | ok t₂ =>
        simp only [hr, pure, Except.pure, Except.ok.injEq, Prod.mk.injEq] at h
        obtain ⟨rfl, rfl⟩ := h
        exact ⟨pk, t₁, rfl, hg, hr⟩

lemma sequenceNumber_le_step {o : PkOp κ} {t' : PkTable κ} (h : t.step gk o = .ok t') :
    t.sequenceNumber ≤ t'.sequenceNumber := by
  cases o with
  | getObjkeyFromPrimaryKey pk =>
    obtain ⟨u, hu⟩ := eq_ok_of_map_fst h
    unfold PkTable.getObjkeyFromPrimaryKey at hu
    cases hf : t.findPrimaryKey pk with
    | some k =>
      simp only [hf, Except.ok.injEq, Prod.mk.injEq] at hu
      rw [hu.1]
    | none =>
      simp only [hf] at hu
      exact sequenceNumber_le_getOrCreateTombstone hu
  | createObjectWithPrimaryKey pk =>
    obtain ⟨k, hk⟩ := eq_ok_of_map_fst h
    cases hf : t.findPrimaryKey pk with
    | some k' =>
      simp only [PkTable.createObjectWithPrimaryKey, hf, Except.ok.injEq, Prod.mk.injEq] at hk
      rw [hk.1]
    | none =>
      obtain ⟨next, hn, hcases⟩ := createObjectWithPrimaryKey_of_findPrimaryKey_eq_none hf hk
      have := lt_of_getNextValidKey hn
      rcases hcases with ⟨-, rfl⟩ | ⟨u, -, rfl⟩
      · exact Nat.le_of_lt this
      · exact Nat.le_of_lt this
  | removeObject key =>
    obtain ⟨-, rfl⟩ := removeObject_eq_ok h
    exact le_rfl
  | invalidateObject key =>
    obtain ⟨u, hu⟩ := eq_ok_of_map_fst h
    obtain ⟨pk, t₁, -, hg, hr⟩ := invalidateObject_eq_ok hu
    obtain ⟨-, rfl⟩ := removeObject_eq_ok hr
    exact (sequenceNumber_le_getOrCreateTombstone hg : t.sequenceNumber ≤ t₁.sequenceNumber)
  | eraseTombstone key =>
    simp only [step] at h
    split_ifs at h
    injection h with h
    rw [← h]
    exact le_rfl

/-! ### Each operation keeps the invariant -/

namespace Inv

variable {t' : PkTable κ}

omit [DecidableEq κ] in
lemma empty : Inv gk (PkTable.empty : PkTable κ) where
  wf := trivial
  tombstone _ _ h := by cases h
  entry _ h := by cases h
  entry_nodup := List.nodup_nil
  entry_key _ h := by cases h
  object_key _ h := by cases h
  object_pk _ _ _ h := by cases h
  object_tombstone _ _ _ h := by cases h

lemma getObjkeyFromPrimaryKey (h : Inv gk t) {pk : κ} {u : ObjKey}
    (hok : t.getObjkeyFromPrimaryKey gk pk = .ok (t', u)) : Inv gk t' := by
  unfold PkTable.getObjkeyFromPrimaryKey at hok
  cases hf : t.findPrimaryKey pk with
  | some k =>
    simp only [hf, Except.ok.injEq, Prod.mk.injEq] at hok
    rw [← hok.1]
    exact h
  | none =>
    simp only [hf] at hok
    obtain ⟨ht, hobj, hsn, -, hnew⟩ := h.toTombstoneInv.getOrCreateTombstone_eq_ok hok
    have hno := findPrimaryKey_eq_none_iff.1 hf
    refine ⟨ht, fun k hk => ?_, ?_, fun k v q hk hv => ?_⟩
    · rw [hobj] at hk
      have := h.object_key k hk
      omega
    · rw [hobj]
      exact h.object_pk
    · -- the only new tombstone is of `pk`, which no object has
      rw [hobj] at hk
      rcases hnew v q hv with hv' | rfl
      · exact h.object_tombstone k v q hk hv'
      · exact hno k hk

omit [DecidableEq κ] in
lemma eraseTombstone (h : Inv gk t) {u : ObjKey} {pk : κ}
    (hu : t.tombstones.lookup u = some pk) : Inv gk (t.eraseTombstone u) :=
  ⟨h.toTombstoneInv.eraseTombstone hu, h.object_key, h.object_pk,
    fun k v q hk hv => h.object_tombstone k v q hk (lookup_of_lookup_erase hv).2⟩

omit [DecidableEq κ] in
lemma removeObject (h : Inv gk t) (hsn : t.sequenceNumber ≤ 2 ^ 62) {k : ObjKey}
    (hok : t.removeObject k = .ok t') : Inv gk t' := by
  obtain ⟨hk, -⟩ := removeObject_eq_ok hok
  have hkey := h.object_key k hk
  obtain ⟨ht, hobj, htomb, hsn'⟩ := h.toTombstoneInv.removeObject ⟨hkey.1, by omega⟩ hok
  refine ⟨ht, fun k' hk' => ?_, fun k₁ k₂ q h₁ h₂ => ?_, fun k' v q hk' hv => ?_⟩
  · rw [hobj, AList.mem_erase] at hk'
    rw [hsn']
    exact h.object_key k' hk'.2
  · rw [hobj] at h₁ h₂
    exact h.object_pk k₁ k₂ q (lookup_of_lookup_erase h₁).2 (lookup_of_lookup_erase h₂).2
  · rw [hobj] at hk'
    rw [htomb] at hv
    exact h.object_tombstone k' v q (lookup_of_lookup_erase hk').2 hv

lemma invalidateObject (h : Inv gk t) {k u : ObjKey}
    (hok : t.invalidateObject gk k = .ok (t', u)) (hsn : t'.sequenceNumber ≤ 2 ^ 62) :
    Inv gk t' := by
  obtain ⟨pk, t₁, hk, hg, hr⟩ := invalidateObject_eq_ok hok
  obtain ⟨ht₁, hobj₁, hsn₁, -, hnew⟩ := h.toTombstoneInv.getOrCreateTombstone_eq_ok hg
  have hkey := h.object_key k (AList.lookup_isSome.mp (by rw [hk]; rfl))
  have hsn₂ : t'.sequenceNumber = t₁.sequenceNumber := by
    obtain ⟨-, rfl⟩ := removeObject_eq_ok hr
    rfl
  obtain ⟨ht, hobj, htomb, -⟩ := ht₁.removeObject ⟨hkey.1, by omega⟩ hr
  refine ⟨ht, fun k' hk' => ?_, fun k₁ k₂ q h₁ h₂ => ?_, fun k' v q hk' hv => ?_⟩
  · rw [hobj, hobj₁, AList.mem_erase] at hk'
    have := h.object_key k' hk'.2
    omega
  · rw [hobj, hobj₁] at h₁ h₂
    exact h.object_pk k₁ k₂ q (lookup_of_lookup_erase h₁).2 (lookup_of_lookup_erase h₂).2
  · -- the new tombstone is of `pk`, whose only object is the one removed
    rw [hobj, hobj₁] at hk'
    obtain ⟨hk'k, hk''⟩ := lookup_of_lookup_erase hk'
    rw [htomb] at hv
    rcases hnew v q hv with hv' | rfl
    · exact h.object_tombstone k' v q hk'' hv'
    · exact hk'k (h.object_pk k' k q hk'' hk)

omit [DecidableEq κ] in
/-- The objects with a new one, of a primary key that no object has, under the first sequence
number. -/
lemma objects_insert (h : Inv gk t) {pk : κ} (hno : ∀ k, t.objects.lookup k ≠ some pk)
    (hsn : t.sequenceNumber < 2 ^ 63) :
    (∀ k ∈ t.objects.insert ⟨t.sequenceNumber.toUInt64.toInt64⟩ pk,
      0 ≤ k.value.toInt ∧ k.value.toInt < t.sequenceNumber + 1) ∧
    ∀ k₁ k₂ q, (t.objects.insert ⟨t.sequenceNumber.toUInt64.toInt64⟩ pk).lookup k₁ = some q →
      (t.objects.insert ⟨t.sequenceNumber.toUInt64.toInt64⟩ pk).lookup k₂ = some q → k₁ = k₂ := by
  refine ⟨fun k hk => ?_, fun k₁ k₂ q h₁ h₂ => ?_⟩
  · rcases (AList.mem_insert _).mp hk with rfl | hk
    · rw [sequenceKey_toInt hsn]
      omega
    · have := h.object_key k hk
      omega
  · rcases lookup_of_lookup_insert h₁ with ⟨rfl, rfl⟩ | h₁ <;>
      rcases lookup_of_lookup_insert h₂ with ⟨rfl, hq⟩ | h₂
    · rfl
    · exact absurd h₂ (hno k₂)
    · exact absurd (hq ▸ h₁) (hno k₁)
    · exact h.object_pk k₁ k₂ q h₁ h₂

lemma createObjectWithPrimaryKey (h : Inv gk t) {pk : κ} {k : ObjKey}
    (hok : t.createObjectWithPrimaryKey gk pk = .ok (t', k)) (hsn : t'.sequenceNumber ≤ 2 ^ 62) :
    Inv gk t' := by
  cases hf : t.findPrimaryKey pk with
  | some k' =>
    simp only [PkTable.createObjectWithPrimaryKey, hf, Except.ok.injEq, Prod.mk.injEq] at hok
    rw [← hok.1]
    exact h
  | none =>
    obtain ⟨next, hn, hcases⟩ := createObjectWithPrimaryKey_of_findPrimaryKey_eq_none hf hok
    have hno := findPrimaryKey_eq_none_iff.1 hf
    have hlt := lt_of_getNextValidKey hn
    have hnext : t'.sequenceNumber = next := by
      rcases hcases with ⟨-, rfl⟩ | ⟨u, -, rfl⟩ <;> rfl
    -- the first sequence number is free, as the objects are under smaller ones
    have hsn₀ : t.sequenceNumber < 2 ^ 63 := by omega
    rw [getNextValidKey_eq (fun k hk => (h.object_key k hk).2) hsn₀] at hn
    injection hn with hn
    injection hn with hk hnext'
    subst hk hnext'
    obtain ⟨hkey, hpk⟩ := h.objects_insert hno hsn₀
    have ht₁ : TombstoneInv gk { t with
        objects := t.objects.insert ⟨t.sequenceNumber.toUInt64.toInt64⟩ pk
        sequenceNumber := t.sequenceNumber + 1 } :=
      h.toTombstoneInv.of_le rfl rfl (Nat.le_succ _)
    rcases hcases with ⟨htn, rfl⟩ | ⟨u, htu, rfl⟩
    · -- no tombstone of `pk`
      refine ⟨ht₁, hkey, hpk, fun k' v q hk' hv => ?_⟩
      rcases lookup_of_lookup_insert hk' with ⟨-, rfl⟩ | hk'
      · exact h.toTombstoneInv.tombstoneOf_eq_none htn v hv
      · exact h.object_tombstone k' v q hk' hv
    · -- the tombstone of `pk` is erased, and no other tombstone is of `pk`
      have hu := lookup_of_tombstoneOf htu
      refine ⟨ht₁.eraseTombstone hu, hkey, hpk, fun k' v q hk' hv => ?_⟩
      obtain ⟨hvu, hv⟩ := lookup_of_lookup_erase hv
      rcases lookup_of_lookup_insert hk' with ⟨-, rfl⟩ | hk'
      · exact hvu (h.toTombstoneInv.tombstone_unique hv hu)
      · exact h.object_tombstone k' v q hk' hv

/-- Every operation that succeeds keeps the invariant, while the sequence number stays at or
below `2^62`. -/
theorem step (h : Inv gk t) {o : PkOp κ} (hok : t.step gk o = .ok t')
    (hsn : t'.sequenceNumber ≤ 2 ^ 62) : Inv gk t' := by
  cases o with
  | getObjkeyFromPrimaryKey pk =>
    obtain ⟨u, hu⟩ := eq_ok_of_map_fst hok
    exact h.getObjkeyFromPrimaryKey hu
  | createObjectWithPrimaryKey pk =>
    obtain ⟨k, hk⟩ := eq_ok_of_map_fst hok
    exact h.createObjectWithPrimaryKey hk hsn
  | removeObject key =>
    exact h.removeObject (le_trans (sequenceNumber_le_step hok) hsn) hok
  | invalidateObject key =>
    obtain ⟨u, hu⟩ := eq_ok_of_map_fst hok
    exact h.invalidateObject hu hsn
  | eraseTombstone key =>
    simp only [PkTable.step] at hok
    split_ifs at hok with hmem
    injection hok with hok
    subst hok
    obtain ⟨pk, hpk⟩ := Option.isSome_iff_exists.mp (AList.lookup_isSome.mpr hmem)
    exact h.eraseTombstone hpk

/-- In a table that keeps the invariant, the key of the primary key of a tombstone is that
tombstone, and asking for it changes nothing. -/
lemma getObjkeyFromPrimaryKey_of_tombstone (h : Inv gk t) {u : ObjKey} {pk : κ}
    (hu : t.tombstones.lookup u = some pk) : t.getObjkeyFromPrimaryKey gk pk = .ok (t, u) := by
  have hf : t.findPrimaryKey pk = none :=
    findPrimaryKey_eq_none_iff.2 fun k hk => h.object_tombstone k u pk hk hu
  -- the tombstone stands under the unresolved form of the lookup's answer
  have hL := h.toTombstoneInv.eq_getUnresolved hu
  subst hL
  simp only [PkTable.getObjkeyFromPrimaryKey, hf, getOrCreateTombstone, hu, ne_eq,
    not_true_eq_false, ↓reduceIte]

end Inv

/-- Every run from a new table that succeeds keeps the invariant, as long as no more than
`2^62` sequence numbers have been taken. -/
theorem inv_run (ops : List (PkOp κ)) {t : PkTable κ}
    (hrun : Run.runExcept (step gk) empty ops = .ok t) (hsn : t.sequenceNumber ≤ 2 ^ 62) :
    Inv gk t := by
  -- the bound at the end holds all along, as the sequence number never goes down
  have hstep : ∀ (s : PkTable κ) o s', (s.sequenceNumber ≤ 2 ^ 62 → Inv gk s) →
      s.step gk o = .ok s' → s'.sequenceNumber ≤ 2 ^ 62 → Inv gk s' :=
    fun _ _ _ hs hok hsn' => (hs (le_trans (sequenceNumber_le_step hok) hsn')).step hok hsn'
  exact Run.runExcept_invariant hstep ops empty t (fun _ => Inv.empty) hrun hsn

end PkTable

/-! ## Tombstones stay unique and findable -/

namespace PkTable

variable {κ : Type} [DecidableEq κ]

/-- After every run of the primary key operations from a new table that takes no more than
`2^62` sequence numbers, for primary keys of any type and any object-ID function: no two
tombstones share a primary key; the tombstone of a primary key stands under the unresolved form
of the local key of its object ID, and asking for the key of that primary key again answers the
same tombstone and changes nothing; and the collision table is well formed: its three arrays
have one length, and its rows are sorted by `hi` as a signed integer and then by `lo` as an
unsigned one. -/
theorem tombstones_unique_findable (gk : κ → GlobalKey) (ops : List (PkOp κ)) (t : PkTable κ)
    (hrun : Run.runExcept (step gk) empty ops = .ok t) (hsn : t.sequenceNumber ≤ 2 ^ 62) :
    (∀ u₁ u₂ pk, t.tombstones.lookup u₁ = some pk → t.tombstones.lookup u₂ = some pk →
      u₁ = u₂) ∧
    (∀ u pk, t.tombstones.lookup u = some pk →
      globalToLocalObjectIdHashed t.collisionMap (gk pk) = u.getUnresolved ∧
        t.getObjkeyFromPrimaryKey gk pk = .ok (t, u)) ∧
    ∀ cm, t.collisionMap = some cm → cm.WF := by
  have h := inv_run ops hrun hsn
  refine ⟨fun u₁ u₂ pk h₁ h₂ => h.tombstone_unique h₁ h₂,
    fun u pk hu => ⟨h.tombstone u pk hu, h.getObjkeyFromPrimaryKey_of_tombstone hu⟩,
    fun cm hcm => ?_⟩
  have hwf := h.wf
  rw [hcm] at hwf
  exact hwf

/-- Two integer primary keys whose object IDs share the optimistic key `5`: the second tombstone
goes under the first tagged key. -/
def intCollisionOps : List (PkOp Int64) :=
  [.getObjkeyFromPrimaryKey 5, .getObjkeyFromPrimaryKey 0x4000000000000005]

/-- The table after the integer collision run. -/
def intCollisionTable : PkTable Int64 :=
  (Run.runExcept (step GlobalKey.ofInt) empty intCollisionOps).toOption.getD empty

theorem tombstones_unique_findable_int :
    Run.runExcept (step GlobalKey.ofInt) empty intCollisionOps = .ok intCollisionTable ∧
    intCollisionTable.sequenceNumber ≤ 2 ^ 62 ∧
    ((∀ u₁ u₂ pk, intCollisionTable.tombstones.lookup u₁ = some pk →
      intCollisionTable.tombstones.lookup u₂ = some pk → u₁ = u₂) ∧
    (∀ u pk, intCollisionTable.tombstones.lookup u = some pk →
      globalToLocalObjectIdHashed intCollisionTable.collisionMap (GlobalKey.ofInt pk) =
          u.getUnresolved ∧
        intCollisionTable.getObjkeyFromPrimaryKey GlobalKey.ofInt pk =
          .ok (intCollisionTable, u)) ∧
    ∀ cm, intCollisionTable.collisionMap = some cm → cm.WF) := by
  have hrun : Run.runExcept (step GlobalKey.ofInt) empty intCollisionOps = .ok intCollisionTable :=
    Run.runExcept_eq_ok_of_isOk empty (by with_unfolding_all decide)
  have hsn : intCollisionTable.sequenceNumber ≤ 2 ^ 62 := by with_unfolding_all decide
  exact ⟨hrun, hsn, tombstones_unique_findable GlobalKey.ofInt intCollisionOps _ hrun hsn⟩

/-- Four `UUID` primary keys whose object IDs collide in pairs on their optimistic keys: `hi`
`1` and `2^63` over `lo` `5`, and `hi` `0` over `lo` `7` and `2^63 + 7`. -/
def uuidCollisionOps : List (PkOp UUID) :=
  [.getObjkeyFromPrimaryKey ⟨[1, 0, 0, 0, 0, 0, 0, 0, 5, 0, 0, 0, 0, 0, 0, 0], rfl⟩,
    .getObjkeyFromPrimaryKey ⟨[0, 0, 0, 0, 0, 0, 0, 0x80, 5, 0, 0, 0, 0, 0, 0, 0], rfl⟩,
    .getObjkeyFromPrimaryKey ⟨[0, 0, 0, 0, 0, 0, 0, 0, 7, 0, 0, 0, 0, 0, 0, 0], rfl⟩,
    .getObjkeyFromPrimaryKey ⟨[0, 0, 0, 0, 0, 0, 0, 0, 7, 0, 0, 0, 0, 0, 0, 0x80], rfl⟩]

/-- The table after the `UUID` collision run. -/
def uuidCollisionTable : PkTable UUID :=
  (Run.runExcept (step GlobalKey.ofUUID) empty uuidCollisionOps).toOption.getD empty

/-- The collision table is not sorted by the order of its object IDs (`GlobalKey::operator<`,
unsigned), nor by its stored arrays as signed integers: `hi` is compared as a signed integer
and `lo` as an unsigned one. -/
theorem collisionMap_sorted_neither_way :
    Run.runExcept (step GlobalKey.ofUUID) empty uuidCollisionOps = .ok uuidCollisionTable ∧
    ∃ cm, uuidCollisionTable.collisionMap = some cm ∧
      ¬ cm.rows.Pairwise (fun a b => GlobalKey.lt a.1 b.1) ∧
      ¬ (cm.hi.zip cm.lo).Pairwise (fun a b => a.1 < b.1 ∨ (a.1 = b.1 ∧ a.2 < b.2)) :=
  ⟨Run.runExcept_eq_ok_of_isOk empty (by with_unfolding_all decide),
    uuidCollisionTable.collisionMap.getD ⟨[], [], []⟩, by with_unfolding_all decide, by with_unfolding_all decide,
    by with_unfolding_all decide⟩

end PkTable

end Realm
