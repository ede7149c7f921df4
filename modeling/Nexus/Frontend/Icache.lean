import Nexus.Lib.Keyed
import Nexus.Basic
import Nexus.Lib.Runs

/-!
# The inode table of the frontend

The frontend serves an object of the backend by an inode, which holds the cached chunks and
the size of the file.  The inodes are kept in a table under their number, which is the hash of
the uuid.  `_vfs_cache_dentry` takes the inode that it finds under the number, whatever uuid it
was allocated for.

`inode_identity_iff` says along which runs an inode is served for one uuid only: those in
which no uuid is looked up while the inode of another one, or the root, has its number.
-/

namespace Nexus.Frontend

open List

/-! ## Inode numbers -/

/-- One round of `fnv_32_buf`. -/
def fnvRound (hval : BitVec 32) (byte : Nat) : BitVec 32 :=
  (hval + (hval <<< 1) + (hval <<< 4) + (hval <<< 7) + (hval <<< 8) + (hval <<< 24)) ^^^
    BitVec.ofNat 32 byte

/-- `nexus_uuid_hash`. -/
def nexusUuidHash (uuid : Uuid) : BitVec 32 := (uuidBytes uuid).foldl fnvRound 0

/-- The number of the inode of a uuid, a `fuse_ino_t`. -/
def inoOfUuid (uuid : Uuid) : BitVec 64 := (nexusUuidHash uuid).setWidth 64

/-- `FUSE_ROOT_ID`. -/
def fuseRootId : BitVec 64 := 1

theorem inoOfUuid_zero : inoOfUuid 0 ≠ fuseRootId := by decide +kernel

/-! ## The table -/

/-- `struct my_inode`, with the address at which it was allocated. -/
structure MyInode where
  address : Nat
  ino : BitVec 64
  uuid : Uuid
  lookupCount : Nat
  deriving DecidableEq, Repr

/-- The table, the addresses that were not used yet, and the inodes that
`_vfs_cache_dentry` served for a uuid. -/
structure Icache where
  running : Bool
  table : List MyInode
  next : Nat
  served : List (Uuid × Nat)
  deriving DecidableEq, Repr

/-- The inode of the root; its uuid is never set. -/
def rootInode : MyInode := ⟨0, fuseRootId, 0, 1⟩

/-- `vfs_init`. -/
def vfsInit : Icache := ⟨true, [rootInode], 1, []⟩

/-- `__icache_find`. -/
def icacheFind (s : Icache) (ino : BitVec 64) : Option MyInode :=
  s.table.find? (·.ino = ino)

/-- `__icache_alloc`. -/
def icacheAlloc (s : Icache) (ino : BitVec 64) (uuid : Uuid) : Icache × MyInode :=
  let inode : MyInode := ⟨s.next, ino, uuid, 0⟩
  ({ s with table := inode :: s.table, next := s.next + 1 }, inode)

/-- `__icache_del`. -/
def icacheDel (s : Icache) (ino : BitVec 64) : Icache :=
  { s with table := s.table.eraseP (·.ino = ino) }

/-- The part of `_vfs_cache_dentry` that finds or allocates the inode. -/
def vfsCacheInode (s : Icache) (uuid : Uuid) : Icache × MyInode :=
  match icacheFind s (inoOfUuid uuid) with
  | some inode => (s, inode)
  | none => icacheAlloc s (inoOfUuid uuid) uuid

/-- `inode_incr_lookup` on the inode with a number. -/
def inodeIncrLookup (s : Icache) (ino : BitVec 64) (count : Nat) : Icache :=
  { s with table := s.table.map fun inode =>
      if inode.ino = ino then { inode with lookupCount := inode.lookupCount + count } else inode }

/-- `inode_decr_lookup` on the inode with a number.  A count that is too large ends the
process; an inode without lookups is removed. -/
def inodeDecrLookup (s : Icache) (ino : BitVec 64) (count : Nat) : Icache :=
  match icacheFind s ino with
  | none => s
  | some inode =>
    if inode.lookupCount < count then { s with running := false }
    else if inode.lookupCount = count then icacheDel s ino
    else { s with table := s.table.map fun inode =>
        if inode.ino = ino then { inode with lookupCount := inode.lookupCount - count }
        else inode }

/-- What happens to the table. -/
inductive IcacheEvent where
  | cacheDentry (uuid : Uuid)
  | incrLookup (ino : BitVec 64) (count : Nat)
  | forget (ino : BitVec 64) (count : Nat)
  deriving DecidableEq, Repr

/-- One event; after the end of the process nothing happens. -/
def Icache.step (s : Icache) (e : IcacheEvent) : Icache :=
  if s.running then
    match e with
    | .cacheDentry uuid =>
      let (s', inode) := vfsCacheInode s uuid
      { s' with served := (uuid, inode.address) :: s'.served }
    | .incrLookup ino count => inodeIncrLookup s ino count
    | .forget ino count => inodeDecrLookup s ino count
  else s

/-! ## Identity -/

/-- Different uuids are served by different inodes, none of which is the root, and while the
inode that was served for a uuid is in the table it is the one that is found for it. -/
structure Icache.Identity (s : Icache) : Prop where
  distinct : ∀ u v i, (u, i) ∈ s.served → (v, i) ∈ s.served → u = v
  not_root : ∀ u i, (u, i) ∈ s.served → i ≠ rootInode.address
  same : ∀ u, ∀ inode ∈ s.table, (u, inode.address) ∈ s.served →
    icacheFind s (inoOfUuid u) = some inode

/-- If an inode has the number of the uuid, it was allocated for the uuid. -/
def IcacheEvent.Unshared (s : Icache) : IcacheEvent → Prop
  | .cacheDentry uuid => s.running = true →
      ∀ inode, icacheFind s (inoOfUuid uuid) = some inode → inode.uuid = uuid
  | _ => True

/-- The inode is the root. -/
def MyInode.IsRoot (inode : MyInode) : Prop :=
  inode.address = rootInode.address ∧ inode.ino = rootInode.ino ∧ inode.uuid = rootInode.uuid

/-- What every run keeps. -/
structure Icache.Inv (s : Icache) : Prop where
  keys : (s.table.map MyInode.ino).Nodup
  addresses : (s.table.map MyInode.address).Nodup
  allocated : ∀ inode ∈ s.table, inode.address < s.next
  used : ∀ u i, (u, i) ∈ s.served → i < s.next
  known : ∀ inode ∈ s.table, inode.IsRoot ∨
    (inode.address ≠ rootInode.address ∧ (inode.uuid, inode.address) ∈ s.served)
  number : ∀ u, ∀ inode ∈ s.table, (u, inode.address) ∈ s.served → inode.ino = inoOfUuid u
  positive : 0 < s.next

variable {inode : MyInode}

variable {s : Icache}

theorem Icache.Inv.same (h : s.Inv) {u : Uuid} (hmem : inode ∈ s.table)
    (hserved : (u, inode.address) ∈ s.served) :
    icacheFind s (inoOfUuid u) = some inode := by
  rw [← h.number u inode hmem hserved]
  exact Keyed.get_of_mem h.keys hmem

theorem Icache.Inv.of_sublist (h : s.Inv) {table : List MyInode} (hsub : table.Sublist s.table) :
    Icache.Inv { s with table } where
  keys := h.keys.sublist (hsub.map _)
  addresses := h.addresses.sublist (hsub.map _)
  allocated := fun inode hmem => h.allocated inode (hsub.subset hmem)
  used := h.used
  known := fun inode hmem => h.known inode (hsub.subset hmem)
  number := fun u inode hmem => h.number u inode (hsub.subset hmem)
  positive := h.positive

theorem Icache.Inv.of_map (h : s.Inv) {f : MyInode → MyInode}
    (hf : ∀ inode, (f inode).address = inode.address ∧ (f inode).ino = inode.ino ∧
      (f inode).uuid = inode.uuid) : Icache.Inv { s with table := s.table.map f } where
  keys := by
    rw [map_map, show MyInode.ino ∘ f = MyInode.ino from funext fun inode => (hf inode).2.1]
    exact h.keys
  addresses := by
    rw [map_map, show MyInode.address ∘ f = MyInode.address from
      funext fun inode => (hf inode).1]
    exact h.addresses
  allocated := by
    intro inode' hmem
    obtain ⟨inode, hinode, rfl⟩ := mem_map.mp hmem
    rw [(hf inode).1]
    exact h.allocated inode hinode
  used := h.used
  known := by
    intro inode' hmem
    obtain ⟨inode, hinode, rfl⟩ := mem_map.mp hmem
    obtain ⟨haddress, hino, huuid⟩ := hf inode
    rw [MyInode.IsRoot, haddress, hino, huuid]
    exact h.known inode hinode
  number := by
    intro u inode' hmem hserved
    obtain ⟨inode, hinode, rfl⟩ := mem_map.mp hmem
    obtain ⟨haddress, hino, -⟩ := hf inode
    rw [haddress] at hserved
    rw [hino]
    exact h.number u inode hinode hserved
  positive := h.positive

theorem Icache.Inv.serve (h : s.Inv) {uuid : Uuid} (hmem : inode ∈ s.table)
    (hino : inode.ino = inoOfUuid uuid) :
    Icache.Inv { s with served := (uuid, inode.address) :: s.served } where
  keys := h.keys
  addresses := h.addresses
  allocated := h.allocated
  used := by
    intro u i hserved
    obtain heq | hserved := mem_cons.mp hserved
    · obtain ⟨-, rfl⟩ := Prod.mk.inj heq
      exact h.allocated inode hmem
    · exact h.used u i hserved
  known := fun inode' hmem' => (h.known inode' hmem').imp_right fun ⟨hne, hserved⟩ =>
    ⟨hne, mem_cons_of_mem _ hserved⟩
  number := by
    intro u inode' hmem' hserved
    obtain heq | hserved := mem_cons.mp hserved
    · obtain ⟨rfl, haddress⟩ := Prod.mk.inj heq
      obtain rfl := inj_on_of_nodup_map h.addresses hmem' hmem haddress
      exact hino
    · exact h.number u inode' hmem' hserved
  positive := h.positive

theorem Icache.Inv.alloc (h : s.Inv) {uuid : Uuid} (hnone : icacheFind s (inoOfUuid uuid) = none) :
    Icache.Inv { s with
      table := ⟨s.next, inoOfUuid uuid, uuid, 0⟩ :: s.table
      next := s.next + 1
      served := (uuid, s.next) :: s.served } where
  keys := by
    refine nodup_cons.mpr ⟨fun hmem => ?_, h.keys⟩
    obtain ⟨inode, hinode, hino⟩ := mem_map.mp hmem
    exact absurd (find?_eq_none.mp hnone inode hinode) (by simpa using hino)
  addresses := by
    refine nodup_cons.mpr ⟨fun hmem => ?_, h.addresses⟩
    obtain ⟨inode, hinode, haddress⟩ := mem_map.mp hmem
    exact absurd (h.allocated inode hinode) (by rw [haddress]; exact lt_irrefl _)
  allocated := by
    intro inode hmem
    obtain rfl | hmem := mem_cons.mp hmem
    · exact Nat.lt_succ_self _
    · exact Nat.lt_succ_of_lt (h.allocated inode hmem)
  used := by
    intro u i hserved
    obtain heq | hserved := mem_cons.mp hserved
    · obtain ⟨-, rfl⟩ := Prod.mk.inj heq
      exact Nat.lt_succ_self _
    · exact Nat.lt_succ_of_lt (h.used u i hserved)
  known := by
    intro inode hmem
    obtain rfl | hmem := mem_cons.mp hmem
    · exact .inr ⟨h.positive.ne', mem_cons_self⟩
    · exact (h.known inode hmem).imp_right fun ⟨hne, hserved⟩ =>
        ⟨hne, mem_cons_of_mem _ hserved⟩
  number := by
    intro u inode hmem hserved
    obtain rfl | hmem := mem_cons.mp hmem
    · obtain heq | hserved := mem_cons.mp hserved
      · obtain ⟨rfl, -⟩ := Prod.mk.inj heq
        rfl
      · exact absurd (h.used u _ hserved) (lt_irrefl _)
    · obtain heq | hserved := mem_cons.mp hserved
      · obtain ⟨-, haddress⟩ := Prod.mk.inj heq
        exact absurd (h.allocated inode hmem) (by rw [haddress]; exact lt_irrefl _)
      · exact h.number u inode hmem hserved
  positive := Nat.succ_pos _

theorem icacheFind_eq_some {ino : BitVec 64} (h : icacheFind s ino = some inode) :
    inode ∈ s.table ∧ inode.ino = ino :=
  ⟨mem_of_find?_eq_some h, by simpa using find?_some h⟩

theorem inv_step (e : IcacheEvent) (h : s.Inv) : (s.step e).Inv := by
  unfold Icache.step
  split
  · cases e with
    | cacheDentry uuid =>
      dsimp only [vfsCacheInode]
      cases hfind : icacheFind s (inoOfUuid uuid) with
      | none => exact h.alloc hfind
      | some inode =>
        obtain ⟨hmem, hino⟩ := icacheFind_eq_some hfind
        exact h.serve hmem hino
    | incrLookup ino count =>
      refine h.of_map fun inode => ?_
      split <;> exact ⟨rfl, rfl, rfl⟩
    | forget ino count =>
      dsimp only [inodeDecrLookup]
      split
      · exact h
      · split
        · exact ⟨h.keys, h.addresses, h.allocated, h.used, h.known, h.number, h.positive⟩
        split
        · exact h.of_sublist eraseP_sublist
        · refine h.of_map fun inode => ?_
          split <;> exact ⟨rfl, rfl, rfl⟩
  · exact h

theorem inv_vfsInit : vfsInit.Inv where
  keys := by decide
  addresses := by decide
  allocated := by decide
  used := fun u i hserved => absurd hserved not_mem_nil
  known := fun inode hmem => .inl (by rw [mem_singleton.mp hmem]; exact ⟨rfl, rfl, rfl⟩)
  number := fun u inode _ hserved => absurd hserved not_mem_nil
  positive := Nat.one_pos

theorem served_step {e : IcacheEvent} (h : ∀ uuid, e = .cacheDentry uuid → s.running = false) :
    (s.step e).served = s.served := by
  unfold Icache.step
  split
  · next hrunning =>
    cases e with
    | cacheDentry uuid =>
      rw [h uuid rfl] at hrunning
      cases hrunning
    | incrLookup ino count => rfl
    | forget ino count =>
      dsimp only [inodeDecrLookup]
      split
      · rfl
      · split
        · rfl
        split <;> rfl
  · rfl

theorem identity_of_served {s' : Icache} (h : s.Identity) (hinv : s'.Inv)
    (hserved : s'.served = s.served) : s'.Identity where
  distinct := by
    rw [hserved]
    exact h.distinct
  not_root := by
    rw [hserved]
    exact h.not_root
  same := fun _ _ hmem hmem' => hinv.same hmem hmem'

theorem identity_cons {s' : Icache} (h : s.Identity) (hinv : s'.Inv) {uuid : Uuid} {i : Nat}
    (hserved : s'.served = (uuid, i) :: s.served) (hroot : i ≠ rootInode.address)
    (hother : ∀ v, (v, i) ∈ s.served → v = uuid) : s'.Identity where
  distinct := by
    intro u v j hu hv
    rw [hserved, mem_cons] at hu hv
    obtain hu | hu := hu <;> obtain hv | hv := hv
    · exact (Prod.mk.inj hu).1.trans (Prod.mk.inj hv).1.symm
    · cases hu
      exact (hother v hv).symm
    · cases hv
      exact hother u hu
    · exact h.distinct u v j hu hv
  not_root := by
    intro u j hu
    rw [hserved, mem_cons] at hu
    obtain hu | hu := hu
    · rw [(Prod.mk.inj hu).2]
      exact hroot
    · exact h.not_root u j hu
  same := fun _ _ hmem hmem' => hinv.same hmem hmem'

theorem identity_step_iff {e : IcacheEvent} (hinv : s.Inv) (h : s.Identity) :
    (s.step e).Identity ↔ e.Unshared s := by
  have hinv' := inv_step e hinv
  cases e with
  | incrLookup ino count =>
    exact iff_of_true (identity_of_served h hinv' (served_step fun _ heq => by cases heq)) trivial
  | forget ino count =>
    exact iff_of_true (identity_of_served h hinv' (served_step fun _ heq => by cases heq)) trivial
  | cacheDentry uuid =>
    cases hrunning : s.running with
    | false =>
      refine iff_of_true (identity_of_served h hinv' (served_step fun _ _ => hrunning)) ?_
      intro hrun
      rw [hrunning] at hrun
      cases hrun
    | true =>
      cases hfind : icacheFind s (inoOfUuid uuid) with
      | none =>
        have hserved : (s.step (.cacheDentry uuid)).served = (uuid, s.next) :: s.served := by
          simp [Icache.step, hrunning, vfsCacheInode, hfind, icacheAlloc]
        refine iff_of_true (identity_cons h hinv' hserved hinv.positive.ne' fun v hv => ?_) ?_
        · exact absurd (hinv.used v _ hv) (lt_irrefl _)
        · intro _ inode hinode
          rw [hfind] at hinode
          cases hinode
      | some inode =>
        obtain ⟨hmem, hino⟩ := icacheFind_eq_some hfind
        have hserved : (s.step (.cacheDentry uuid)).served =
            (uuid, inode.address) :: s.served := by
          simp [Icache.step, hrunning, vfsCacheInode, hfind]
        have hunshared : (IcacheEvent.cacheDentry uuid).Unshared s ↔ inode.uuid = uuid := by
          simp [IcacheEvent.Unshared, hrunning, hfind]
        rw [hunshared]
        constructor
        · -- whom the inode was allocated for was served by it
          intro h'
          have hnew : (uuid, inode.address) ∈ (s.step (.cacheDentry uuid)).served := by
            rw [hserved]
            exact mem_cons_self
          obtain hroot | ⟨-, hold⟩ := hinv.known inode hmem
          · exact absurd hroot.1 (h'.not_root uuid _ hnew)
          · refine h'.distinct _ _ inode.address ?_ hnew
            rw [hserved]
            exact mem_cons_of_mem _ hold
        · rintro rfl
          obtain hroot | ⟨hne, hold⟩ := hinv.known inode hmem
          · -- the root has no uuid with its number
            rw [hroot.2.1, hroot.2.2] at hino
            exact absurd hino.symm inoOfUuid_zero
          · exact identity_cons h hinv' hserved hne fun v hv => h.distinct v _ _ hv hold

/-- Along exactly these runs each inode is served for one uuid. -/
theorem inode_identity_iff (events : List IcacheEvent) :
    Runs.Always Icache.step Icache.Identity vfsInit events ↔
      Runs.Meets Icache.step (fun s e => e.Unshared s) vfsInit events := by
  have hinit : vfsInit.Identity := by
    refine ⟨?_, ?_, ?_⟩
    · exact fun u v i hserved => absurd hserved not_mem_nil
    · exact fun u i hserved => absurd hserved not_mem_nil
    · exact fun u inode _ hserved => absurd hserved not_mem_nil
  exact Runs.always_iff_meets_of_invariant (I := Icache.Inv) (P := Icache.Identity)
    (fun _ e => inv_step e) (fun _ _ hinv h => identity_step_iff hinv h) inv_vfsInit hinit events

/-- Two uuids with the same hash. -/
def collidingUuids : Uuid × Uuid :=
  (0x704a4d3b21e74ba369b4e21d383c2faf, 0x45c51fcadbc0b4a67028bd8033298695)

/-- The two are served by the same inode. -/
theorem colliding_uuids_share_inode :
    collidingUuids.1 ≠ collidingUuids.2 ∧
      ([IcacheEvent.cacheDentry collidingUuids.1, .cacheDentry collidingUuids.2].foldl
        Icache.step vfsInit).served = [(collidingUuids.2, 1), (collidingUuids.1, 1)] := by
  decide +kernel

end Nexus.Frontend
