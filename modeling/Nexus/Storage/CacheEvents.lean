import Nexus.Storage.MetadataCache

/-!
# Runs of the metadata cache

Nothing in the cache looks at `ref_count`: an eviction takes the least recently used
metadata, and a revalidation replaces every object that has a newer version.  So the filenode
of an open transfer can be freed under it; `CacheEvent.Careful` says when it is not.

`Vfs.Inv` is the invariant.  Its core is that `ref_count` counts the references of the running
ecalls and of the open transfers, and that a metadata without a reference is neither locked nor
dirty.  `Moves` is what loading does to it: metadata with a reference stay where they are, with
their objects.  Audit logs are used without a reference, so for them the flags have to be
looked at.
-/

namespace Nexus.Cache

open List

/-! ## Runs -/

/-- The steps of ecalls on the cache, with what the system answers. -/
inductive CacheEvent where
  /-- A lookup passes through the object. -/
  | walk (type : MetadataType) (uuid : Uuid) (o : DentryOutcome)
  /-- `nexus_vfs_get`. -/
  | vfsGet (flags : IoFlags) (type : MetadataType) (uuid : Uuid) (o : DentryOutcome)
  /-- `nexus_metadata_get` of a metadata that the ecall holds. -/
  | metadataGet (address : Nat)
  /-- `nexus_vfs_put` of a reference that the ecall holds. -/
  | vfsPut (address : Nat) (r : OcallResult)
  /-- `nexus_vfs_put` of a reference that was put before, as in `ecall_fs_truncate` after
  access was denied. -/
  | vfsPutAgain (address : Nat) (r : OcallResult)
  /-- An object that the ecall holds is changed, stored or synced. -/
  | edit (address : Nat)
  | store (address : Nat) (o : PutOutcome)
  | sync (address : Nat) (o : SyncOutcome)
  /-- `nexus_vfs_delete`. -/
  | delete (uuid : Uuid)
  /-- The audit log of an object is loaded, changed and stored. -/
  | auditLoad (uuid : Uuid) (o : LoadOutcome)
  | auditEdit (uuid : Uuid)
  | auditStore (uuid : Uuid) (o : PutOutcome)
  /-- The transfers: `file_crypto_new`, a change of the filenode, `file_crypto_finish`. -/
  | cryptoNew (address : Nat)
  | cryptoUpdate (id : Nat)
  | cryptoFinish (id : Nat) (o : PutOutcome) (r : OcallResult)

/-- The metadata of an audit log. -/
def Vfs.auditLog (s : Vfs) (uuid : Uuid) : Option CachedMetadata :=
  (s.find uuid).filter (·.type = .auditLog)

/-- One step.  An ecall only uses what it holds. -/
def Vfs.step (s : Vfs) : CacheEvent → Vfs
  | .walk type uuid o => (dentryRevalidate nexusFread type o s uuid).1
  | .vfsGet flags type uuid o => nexusVfsGet flags type o s uuid
  | .metadataGet address => if address ∈ s.held then nexusMetadataGet s address else s
  | .vfsPut address r =>
    if address ∈ s.held then { nexusVfsPut r s address with held := s.held.erase address } else s
  | .vfsPutAgain address r => nexusVfsPut r s address
  | .edit address => if address ∈ s.held then metadataSetDirty s address else s
  | .store address o => if address ∈ s.held then nexusMetadataStore o s address else s
  | .sync address o => if address ∈ s.held then nexusMetadataSync o s address else s
  | .delete uuid => nexusVfsDelete s uuid
  | .auditLoad uuid o => (nexusVfsLoad nexusFrdwr .auditLog o s uuid).1
  | .auditEdit uuid =>
    match s.auditLog uuid with
    | some m => metadataSetDirty s m.address
    | none => s
  | .auditStore uuid o =>
    match s.auditLog uuid with
    | some m => nexusMetadataStore o s m.address
    | none => s
  | .cryptoNew address => if address ∈ s.held then fileCryptoNew s address else s
  | .cryptoUpdate id => transferSetDirty s id
  | .cryptoFinish id o r => fileCryptoFinish o r s id

/-- The enclave after `nexus_vfs_init`. -/
def vfsInit (buffers : Uuid → BufferState) : Vfs := ⟨[], buffers, 0, [], [], 0, [], []⟩

/-- `ref_count` is zero, and the metadata is neither locked nor dirty. -/
def CachedMetadata.Unpinned (m : CachedMetadata) : Prop :=
  m.refCount = 0 ∧ m.lock.isLocked = false ∧ m.lock.isDirty = false

/-- Objects were only freed while they were not pinned, and the open transfers and those that
were finished have the filenode of their metadata. -/
structure Vfs.PinsKept (s : Vfs) : Prop where
  dropped : ∀ m ∈ s.dropped, m.Unpinned
  transfers : ∀ x ∈ s.xfers, ∃ m ∈ s.lru, m.address = x.metadata ∧ m.object = x.filenode
  finished : ∀ p ∈ s.finished, p.2 = some p.1

/-! ## When it holds -/

/-- The references to a metadata: those of ecalls, and those of transfers. -/
def Vfs.holders (s : Vfs) (address : Nat) : Nat :=
  s.held.count address + s.xfers.countP (·.metadata = address)

/-- Nobody has a reference; an audit log is not in the middle of a change either. -/
def Vfs.Unused (s : Vfs) (m : CachedMetadata) : Prop :=
  s.holders m.address = 0 ∧
    (m.type = .auditLog → m.lock.isLocked = false ∧ m.lock.isDirty = false)

/-- The copy is the current one, and it can be locked if that is asked for. -/
def Vfs.Current (s : Vfs) (flags : IoFlags) (instantiated : Bool) (o : RevalidateOutcome)
    (m : CachedMetadata) : Prop :=
  m.lock.isInvalid = false ∧
    (∃ b ∈ (s.buffers m.uuid).metaBuf, ∀ t ∈ o.stattime, t ≤ b.timestamp) ∧
    (nexusIoInLockMode flags = true →
      instantiated = true ∨ (s.buffers m.uuid).inWriteMode = true ∨ o.lock = .ok)

/-- A lookup of the object frees nothing that is in use: the object is cached and nobody uses
it or it is current; or it is not cached, and there is room, or nobody uses what is evicted. -/
def Vfs.SafeLookup (s : Vfs) (flags : IoFlags) (instantiated : Bool) (o : RevalidateOutcome)
    (uuid : Uuid) : Prop :=
  match s.find uuid with
  | some m => s.Unused m ∨ s.Current flags instantiated o m
  | none => s.lru.length < lruCapacity ∨ ∀ m ∈ s.lru.getLast?, s.Unused m

/-- The object is stored by this put, if there is something to store. -/
def Vfs.Stores (s : Vfs) (o : PutOutcome) (m : CachedMetadata) : Prop :=
  m.lock.isDirty = true → o.reached = true ∧ o.heap = true ∧
    (s.buffers m.uuid).inWriteMode = true ∧ (1 < (s.buffers m.uuid).writers ∨ o.put = .ok)

/-- The step frees nothing that is in use, and the last one to use an object leaves it stored. -/
def CacheEvent.Careful (s : Vfs) : CacheEvent → Prop
  | .walk _ uuid o => s.SafeLookup nexusFread o.instantiated o.load.revalidate uuid
  | .vfsGet flags _ uuid o =>
    s.SafeLookup flags o.instantiated o.load.revalidate uuid ∧
      (nexusIoInLockMode flags = true → o.verified = true) ∧
      ∀ m ∈ s.find uuid, s.holders m.address + 1 < 2 ^ 64
  | .metadataGet address => s.holders address + 1 < 2 ^ 64
  | .vfsPut address _ => s.holders address = 1 → ∀ m ∈ s.deref address, m.lock.isDirty = false
  | .vfsPutAgain _ _ => False
  | .delete uuid => ∀ m ∈ s.find uuid, s.Unused m
  | .auditLoad uuid o =>
    s.SafeLookup nexusFrdwr false o.revalidate uuid ∧ ∀ m ∈ s.find uuid, m.type = .auditLog
  | .cryptoFinish id o _ => ∀ x ∈ getContext s id, s.holders x.metadata = 1 →
    ∀ m ∈ s.deref x.metadata, s.Stores o m
  | .edit _ | .store _ _ | .sync _ _ | .auditEdit _ | .auditStore _ _ | .cryptoNew _
  | .cryptoUpdate _ => True

instance (s : Vfs) (m : CachedMetadata) : Decidable (s.Unused m) :=
  inferInstanceAs (Decidable (_ ∧ (_ → _ ∧ _)))

instance (s : Vfs) (flags : IoFlags) (instantiated : Bool) (o : RevalidateOutcome)
    (m : CachedMetadata) : Decidable (s.Current flags instantiated o m) :=
  inferInstanceAs (Decidable (_ ∧ (∃ b ∈ (s.buffers m.uuid).metaBuf, ∀ t ∈ o.stattime,
    t ≤ b.timestamp) ∧ (_ → _ ∨ _ ∨ _)))

instance (s : Vfs) (flags : IoFlags) (instantiated : Bool) (o : RevalidateOutcome) (uuid : Uuid) :
    Decidable (s.SafeLookup flags instantiated o uuid) := by
  unfold Vfs.SafeLookup
  split <;> infer_instance

instance (s : Vfs) (o : PutOutcome) (m : CachedMetadata) : Decidable (s.Stores o m) :=
  inferInstanceAs (Decidable (_ → _ ∧ _ ∧ _ ∧ (_ ∨ _)))

instance (s : Vfs) (e : CacheEvent) : Decidable (e.Careful s) :=
  match e with
  | .walk _ _ _ | .vfsGet _ _ _ _ | .metadataGet _ | .vfsPut _ _ | .vfsPutAgain _ _ | .edit _
  | .store _ _ | .sync _ _ | .delete _ | .auditLoad _ _ | .auditEdit _ | .auditStore _ _
  | .cryptoNew _ | .cryptoUpdate _ | .cryptoFinish _ _ _ => by
    dsimp only [CacheEvent.Careful]
    infer_instance

/-! ## The invariant -/

/-- Neither locked nor dirty; audit logs are left out. -/
def CachedMetadata.Idle (m : CachedMetadata) : Prop :=
  m.type ≠ .auditLog → m.lock.isLocked = false ∧ m.lock.isDirty = false

/-- A uuid and an address have one metadata, and new addresses are not in use. -/
structure Vfs.Indexed (s : Vfs) : Prop where
  uuids : (s.lru.map (·.uuid)).Nodup
  addresses : (s.lru.map (·.address)).Nodup
  fresh : ∀ m ∈ s.lru, m.address < s.next

/-- The references are counted, and what has none is idle, but for the uuids that are just
being looked up. -/
structure Vfs.Inv (busy : Uuid → Prop) (s : Vfs) : Prop extends s.PinsKept, s.Indexed where
  counted : ∀ m ∈ s.lru, m.refCount = BitVec.ofNat 64 (s.holders m.address)
  bounded : ∀ a, s.holders a < 2 ^ 64
  live : ∀ a, s.holders a ≠ 0 → ∃ m ∈ s.lru, m.address = a
  idle : ∀ m ∈ s.lru, ¬ busy m.uuid → s.holders m.address = 0 → m.Idle

/-- Nothing is being looked up. -/
abbrev Vfs.Settled (s : Vfs) : Prop := s.Inv fun _ => False

/-- The references stay, and no transfer is finished. -/
structure SameRefs (s s' : Vfs) : Prop where
  held : s'.held = s.held
  xfers : s'.xfers = s.xfers
  finished : s'.finished = s.finished

/-- What loading does. -/
structure Moves (busy : Uuid → Prop) (s s' : Vfs) : Prop extends SameRefs s s', s'.Indexed where
  next : s.next ≤ s'.next
  entries : ∀ m' ∈ s'.lru,
    (s.next ≤ m'.address ∧ m'.refCount = 0 ∧ (¬ busy m'.uuid → m'.Idle)) ∨
      ∃ m ∈ s.lru, m'.address = m.address ∧ m'.uuid = m.uuid ∧ m'.refCount = m.refCount ∧
        (m'.object = m.object ∨ s.holders m.address = 0) ∧ (¬ busy m.uuid → m.Idle → m'.Idle)
  kept : ∀ m ∈ s.lru, s.holders m.address ≠ 0 → ∃ m' ∈ s'.lru, m'.address = m.address
  dropped : ∀ m ∈ s'.dropped, m ∈ s.dropped ∨ m.Unpinned

variable {s s' s'' : Vfs} {busy busy' : Uuid → Prop} {m m' : CachedMetadata} {uuid : Uuid}

theorem SameRefs.holders (h : SameRefs s s') (a : Nat) : s'.holders a = s.holders a := by
  unfold Vfs.holders
  rw [h.held, h.xfers]

theorem Vfs.Inv.eq_of_address (h : s.Inv busy) (hm : m ∈ s.lru) (hm' : m' ∈ s.lru)
    (heq : m.address = m'.address) : m = m' :=
  inj_on_of_nodup_map h.addresses hm hm' heq

theorem Vfs.Inv.eq_of_uuid (h : s.Inv busy) (hm : m ∈ s.lru) (hm' : m' ∈ s.lru)
    (heq : m.uuid = m'.uuid) : m = m' :=
  inj_on_of_nodup_map h.uuids hm hm' heq

theorem holders_of_transfer {x : Transfer} (hx : x ∈ s.xfers) : s.holders x.metadata ≠ 0 := by
  have hpos : 0 < s.xfers.countP (·.metadata = x.metadata) :=
    countP_pos_iff.mpr ⟨x, hx, decide_eq_true rfl⟩
  unfold Vfs.holders
  omega

variable {a : Nat}

theorem holders_of_held (ha : a ∈ s.held) : s.holders a ≠ 0 := by
  have hpos : 0 < s.held.count a := count_pos_iff.mpr ha
  unfold Vfs.holders
  omega

theorem Vfs.Inv.holders_of_fresh (h : s.Inv busy) (ha : s.next ≤ a) : s.holders a = 0 := by
  by_contra hne
  obtain ⟨m, hm, rfl⟩ := h.live a hne
  have := h.fresh m hm
  omega

theorem Vfs.Inv.unpinned (h : s.Inv busy) (hm : m ∈ s.lru) (hbusy : ¬ busy m.uuid)
    (hunused : s.Unused m) : m.Unpinned := by
  have hcount : m.refCount = 0 := by
    rw [h.counted m hm, hunused.1]
    rfl
  refine ⟨hcount, ?_⟩
  by_cases haudit : m.type = .auditLog
  · exact hunused.2 haudit
  · exact h.idle m hm hbusy hunused.1 haudit

theorem Vfs.Inv.moves (h : s.Settled) (hmoves : Moves busy s s') : s'.Inv busy where
  toIndexed := hmoves.toIndexed
  dropped := by
    intro m hm
    obtain hold | hunpinned := hmoves.dropped m hm
    · exact h.dropped m hold
    · exact hunpinned
  finished := by
    rw [hmoves.finished]
    exact h.finished
  transfers := by
    rw [hmoves.xfers]
    intro x hx
    have hholds := holders_of_transfer hx
    obtain ⟨m, hm, haddress, hobject⟩ := h.transfers x hx
    rw [← haddress] at hholds
    obtain ⟨m', hm', hsame⟩ := hmoves.kept m hm hholds
    refine ⟨m', hm', hsame.trans haddress, ?_⟩
    obtain ⟨hnew, -⟩ | ⟨m₀, hm₀, haddress₀, -, -, hobject₀, -⟩ := hmoves.entries m' hm'
    · have := h.fresh m hm
      omega
    · have heq : m₀ = m := h.eq_of_address hm₀ hm (haddress₀.symm.trans hsame)
      rw [heq] at hobject₀
      obtain hkept | hnone := hobject₀
      · exact hkept.trans hobject
      · exact absurd hnone hholds
  counted := by
    intro m' hm'
    rw [hmoves.holders]
    obtain ⟨hnew, hzero, -⟩ | ⟨m, hm, haddress, -, hcount, -⟩ := hmoves.entries m' hm'
    · rw [hzero, h.holders_of_fresh hnew]
      rfl
    · rw [hcount, haddress]
      exact h.counted m hm
  bounded := by
    intro a
    rw [hmoves.holders]
    exact h.bounded a
  live := by
    intro a ha
    rw [hmoves.holders] at ha
    obtain ⟨m, hm, rfl⟩ := h.live a ha
    exact hmoves.kept m hm ha
  idle := by
    intro m' hm' hbusy hzero
    rw [hmoves.holders] at hzero
    obtain ⟨-, -, hidle⟩ | ⟨m, hm, haddress, huuid, -, -, hidle⟩ := hmoves.entries m' hm'
    · exact hidle hbusy
    · rw [huuid] at hbusy
      rw [haddress] at hzero
      exact hidle hbusy (h.idle m hm (fun hf => hf) hzero)

theorem Moves.mono (h : Moves busy s s') (himp : ∀ u, busy u → busy' u) : Moves busy' s s' :=
  { h with
    entries := by
      intro m' hm'
      obtain ⟨hnew, hcount, hidle⟩ | ⟨m, hm, ha, hu, hcount, hobject, hidle⟩ := h.entries m' hm'
      · exact .inl ⟨hnew, hcount, fun hbusy => hidle (mt (himp _) hbusy)⟩
      · exact .inr ⟨m, hm, ha, hu, hcount, hobject, fun hbusy => hidle (mt (himp _) hbusy)⟩ }

theorem Moves.quiet (h : Moves (fun _ => False) s s') : Moves busy s s' :=
  h.mono fun _ => False.elim

theorem Moves.trans (h : Moves busy s s') (h' : Moves busy s' s'') : Moves busy s s'' where
  held := h'.held.trans h.held
  xfers := h'.xfers.trans h.xfers
  finished := h'.finished.trans h.finished
  next := h.next.trans h'.next
  toIndexed := h'.toIndexed
  entries := by
    intro m₂ hm₂
    obtain ⟨hnew, hcount, hidle⟩ | ⟨m₁, hm₁, ha₁, hu₁, hc₁, ho₁, hi₁⟩ := h'.entries m₂ hm₂
    · exact .inl ⟨h.next.trans hnew, hcount, hidle⟩
    rw [h.holders] at ho₁
    obtain ⟨hnew, hcount, hidle⟩ | ⟨m, hm, ha, hu, hc, ho, hi⟩ := h.entries m₁ hm₁
    · refine .inl ⟨ha₁ ▸ hnew, hc₁.trans hcount, fun hbusy => ?_⟩
      rw [hu₁] at hbusy
      exact hi₁ hbusy (hidle hbusy)
    · refine .inr ⟨m, hm, ha₁.trans ha, hu₁.trans hu, hc₁.trans hc, ?_, fun hbusy hidle => ?_⟩
      · rw [ha] at ho₁
        obtain ho₁ | hnone := ho₁
        · exact ho.imp_left ho₁.trans
        · exact .inr hnone
      · refine hi₁ ?_ (hi hbusy hidle)
        rwa [hu]
  kept := by
    intro m hm hholds
    obtain ⟨m₁, hm₁, ha₁⟩ := h.kept m hm hholds
    obtain ⟨m₂, hm₂, ha₂⟩ := h'.kept m₁ hm₁ (by rwa [h.holders, ha₁])
    exact ⟨m₂, hm₂, ha₂.trans ha₁⟩
  dropped := by
    intro m hm
    obtain hm | hunpinned := h'.dropped m hm
    · exact h.dropped m hm
    · exact .inr hunpinned

end Nexus.Cache
