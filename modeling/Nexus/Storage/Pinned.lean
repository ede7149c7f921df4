import Nexus.Storage.CacheLoading

/-!
# Metadata that is in use

References are counted, so what ecalls and transfers hold stays in the cache along every run
whose steps free nothing that is in use.
-/

namespace Nexus.Cache

open List ObjectLocks

variable {s s' : Vfs} {busy : Uuid → Prop} {m : CachedMetadata} {uuid : Uuid} {a : Nat}
  {f : CachedMetadata → CachedMetadata}

/-! ## References -/

theorem Vfs.Inv.change (h : s.Inv busy) (hm : m ∈ s.lru)
    (hlru : s'.lru = (s.update m.address f).lru) (hnext : s'.next = s.next)
    (hdropped : s'.dropped = s.dropped) (huuid : (f m).uuid = m.uuid)
    (haddress : (f m).address = m.address) (hobject : (f m).object = m.object)
    (hother : ∀ a ≠ m.address, s'.holders a = s.holders a)
    (hcount : (f m).refCount = BitVec.ofNat 64 (s'.holders m.address))
    (hbound : s'.holders m.address < 2 ^ 64) (hidle : s'.holders m.address = 0 → (f m).Idle)
    (hbusy : ∀ u, busy u → u = m.uuid)
    (hxfers : ∀ x ∈ s'.xfers, x ∈ s.xfers ∨ x.metadata = m.address ∧ x.filenode = m.object)
    (hfinished : ∀ p ∈ s'.finished, p ∈ s.finished ∨ p.2 = some p.1) :
    s'.Settled where
  dropped := by
    rw [hdropped]
    exact h.dropped
  transfers := by
    intro x hx
    have hentry : ∃ w ∈ s.lru, w.address = x.metadata ∧ w.object = x.filenode := by
      obtain hx | ⟨hmetadata, hfilenode⟩ := hxfers x hx
      · exact h.transfers x hx
      · exact ⟨m, hm, hmetadata.symm, hfilenode.symm⟩
    obtain ⟨w, hw, hwmetadata, hwfilenode⟩ := hentry
    rw [hlru]
    by_cases heq : w.address = m.address
    · rw [h.eq_of_address hw hm heq] at hwmetadata hwfilenode
      exact ⟨f m, h.self_mem_update hm, haddress.trans hwmetadata, hobject.trans hwfilenode⟩
    · exact ⟨w, h.mem_update_of_ne hm hw heq, hwmetadata, hwfilenode⟩
  finished := by
    intro p hp
    obtain hp | hp := hfinished p hp
    · exact h.finished p hp
    · exact hp
  toIndexed := h.indexed_update hm hlru hnext.ge haddress huuid
  counted := by
    intro w hw
    rw [hlru, h.mem_update_iff hm] at hw
    obtain rfl | ⟨hw, hne⟩ := hw
    · rw [haddress]
      exact hcount
    · rw [hother _ hne]
      exact h.counted w hw
  bounded := by
    intro a
    by_cases heq : a = m.address
    · rw [heq]
      exact hbound
    · rw [hother a heq]
      exact h.bounded a
  live := by
    intro a ha
    rw [hlru]
    by_cases heq : a = m.address
    · exact ⟨f m, h.self_mem_update hm, haddress.trans heq.symm⟩
    · rw [hother a heq] at ha
      obtain ⟨w, hw, rfl⟩ := h.live a ha
      exact ⟨w, h.mem_update_of_ne hm hw heq, rfl⟩
  idle := by
    intro w hw _ hzero
    rw [hlru, h.mem_update_iff hm] at hw
    obtain rfl | ⟨hw, hne⟩ := hw
    · rw [haddress] at hzero
      exact hidle hzero
    · rw [hother _ hne] at hzero
      refine h.idle w hw (fun hb => hne ?_) hzero
      rw [h.eq_of_uuid hw hm (hbusy _ hb)]

theorem Vfs.Inv.deref_of_mem (h : s.Inv busy) (hm : m ∈ s.lru) : s.deref m.address = some m :=
  Keyed.get_of_mem h.addresses hm

theorem Vfs.Inv.deref_of_holders (h : s.Inv busy) (ha : s.holders a ≠ 0) :
    ∃ m ∈ s.lru, m.address = a ∧ s.deref a = some m := by
  obtain ⟨m, hm, rfl⟩ := h.live a ha
  exact ⟨m, hm, rfl, h.deref_of_mem hm⟩

theorem inv_nexusMetadataGet (h : s.Inv busy) (hm : m ∈ s.lru) (hbusy : ∀ u, busy u → u = m.uuid)
    (hbound : s.holders m.address + 1 < 2 ^ 64) :
    (nexusMetadataGet s m.address).Settled := by
  have hself : (nexusMetadataGet s m.address).holders m.address = s.holders m.address + 1 := by
    simp [nexusMetadataGet, Vfs.holders, Vfs.update]
    omega
  refine h.change hm rfl rfl rfl rfl rfl rfl ?_ ?_ ?_ ?_ hbusy (fun _ hx => .inl hx)
    (fun _ hp => .inl hp)
  · intro a ha
    simp [nexusMetadataGet, Vfs.holders, Vfs.update, ha.symm]
  · rw [hself]
    show m.refCount + 1 = _
    rw [h.counted m hm]
    exact (BitVec.ofNat_add _ 1).symm
  · rw [hself]
    exact hbound
  · intro hzero
    omega

theorem update_update (s : Vfs) (a : Nat) (f g : CachedMetadata → CachedMetadata)
    (hg : ∀ w, (g w).address = w.address) :
    ((s.update a g).update a f).lru = (s.update a fun w => f (g w)).lru := by
  simp only [Vfs.update, Lru.update, map_map]
  refine map_congr_left fun w _ => ?_
  by_cases heq : w.address = a
  · simp [heq, hg]
  · simp [heq]

/-- A reference less, and no lock. -/
def CachedMetadata.putBack (m w : CachedMetadata) : CachedMetadata :=
  { w with refCount := w.refCount - 1, lock := { m.lock with isLocked := false } }

theorem Vfs.Inv.nexusVfsPut_eq (h : s.Inv busy) (hm : m ∈ s.lru) (r : OcallResult) :
    ∃ b, nexusVfsPut r s m.address = (s.setBuffer m.uuid b).update m.address m.putBack := by
  generalize hm₁ : ({ m with refCount := m.refCount - 1 } : CachedMetadata) = m₁
  generalize hs₁ : (s.update m.address fun w => { w with refCount := w.refCount - 1 }) = s₁
  have hmem : m₁ ∈ s₁.lru := by
    rw [← hs₁, ← hm₁]
    exact h.self_mem_update hm
  have haddresses : (s₁.lru.map (·.address)).Nodup := by
    rw [← hs₁, h.map_update hm _ rfl]
    exact h.addresses
  have hderef : s₁.deref m.address = some m₁ := by
    rw [show m.address = m₁.address by rw [← hm₁]]
    exact Keyed.get_of_mem haddresses hmem
  have hmetadata : ((s₁.locks m₁).unlock r).metadata = some { m.lock with isLocked := false } := by
    rw [← hm₁]
    unfold unlock Vfs.locks
    dsimp only
    split
    · rfl
    · next hunlocked =>
      have : m.lock.isLocked = false := by simpa using hunlocked
      rw [← this]
  refine ⟨((s₁.locks m₁).unlock r).buffer, ?_⟩
  unfold nexusVfsPut
  rw [hs₁]
  dsimp only
  rw [hderef]
  dsimp only
  rw [Vfs.setLocks, hmetadata, ← hm₁, ← hs₁]
  have hlru := update_update s m.address (fun w => { w with lock := { m.lock with isLocked := false } })
    (fun w => { w with refCount := w.refCount - 1 }) fun _ => rfl
  generalize ((s.update m.address _).locks _).unlock r = locks
  exact congrArg (fun lru => { s.setBuffer m.uuid locks.buffer with lru }) hlru

section

variable (h : s.Settled) (hm : m ∈ s.lru)
include h hm

theorem Vfs.Inv.release (hlru : s'.lru = (s.update m.address m.putBack).lru)
    (hnext : s'.next = s.next) (hdropped : s'.dropped = s.dropped)
    (hself : s'.holders m.address + 1 = s.holders m.address)
    (hother : ∀ a ≠ m.address, s'.holders a = s.holders a)
    (hclean : s.holders m.address = 1 → m.lock.isDirty = false)
    (hxfers : ∀ x ∈ s'.xfers, x ∈ s.xfers)
    (hfinished : ∀ p ∈ s'.finished, p ∈ s.finished ∨ p.2 = some p.1) : s'.Settled := by
  refine h.change hm hlru hnext hdropped rfl rfl rfl hother ?_ ?_ ?_
    (fun _ hf => hf.elim) (fun x hx => .inl (hxfers x hx)) hfinished
  · show m.refCount - 1 = _
    rw [h.counted m hm, ← hself]
    have hadd : BitVec.ofNat 64 (s'.holders m.address + 1) =
        BitVec.ofNat 64 (s'.holders m.address) + 1 := BitVec.ofNat_add _ 1
    rw [hadd]
    exact BitVec.add_sub_cancel _ _
  · have := h.bounded m.address
    omega
  · intro hzero _
    exact ⟨rfl, hclean (by omega)⟩

variable (hused : s.holders m.address ≠ 0 ∨ m.type = .auditLog)
include hused

theorem Vfs.Inv.setFlags {f : MetadataLock → MetadataLock}
    (hlru : s'.lru = (s.update m.address fun w => { w with lock := f w.lock }).lru)
    (hrefs : SameRefs s s') (hnext : s'.next = s.next) (hdropped : s'.dropped = s.dropped) :
    s'.Settled := by
  have hholders := hrefs.holders
  refine h.change hm hlru hnext hdropped rfl rfl rfl (fun a _ => hholders a) ?_ ?_ ?_
    (fun _ hf => hf.elim) ?_ ?_
  · rw [hholders]
    exact h.counted m hm
  · rw [hholders]
    exact h.bounded m.address
  · intro hzero htype
    rw [hholders] at hzero
    obtain hused | haudit := hused
    · exact absurd hzero hused
    · exact absurd haudit htype
  · rw [hrefs.xfers]
    exact fun x hx => .inl hx
  · rw [hrefs.finished]
    exact fun p hp => .inl hp

theorem inv_metadataSetDirty : (metadataSetDirty s m.address).Settled :=
  h.setFlags (f := fun l => { l with isDirty := true }) hm hused rfl ⟨rfl, rfl, rfl⟩ rfl rfl

theorem inv_setLocks (c : ObjectLocks) : (s.setLocks m c).Settled :=
  h.setFlags (f := c.metadata.getD) hm hused rfl ⟨rfl, rfl, rfl⟩ rfl rfl

theorem inv_nexusMetadataStore (o : PutOutcome) :
    (nexusMetadataStore o s m.address).Settled := by
  unfold nexusMetadataStore
  rw [h.deref_of_mem hm]
  exact inv_setLocks h hm hused _

theorem inv_nexusMetadataSync (o : SyncOutcome) :
    (nexusMetadataSync o s m.address).Settled := by
  unfold nexusMetadataSync
  rw [h.deref_of_mem hm]
  exact inv_setLocks h hm hused _

end

theorem inv_nexusVfsPut (h : s.Settled) (ha : a ∈ s.held) (r : OcallResult)
    (hclean : s.holders a = 1 → ∀ m ∈ s.deref a, m.lock.isDirty = false) :
    ({ nexusVfsPut r s a with held := s.held.erase a } : Vfs).Settled := by
  obtain ⟨m, hm, rfl, hderef⟩ := h.deref_of_holders (holders_of_held ha)
  obtain ⟨b, hput⟩ := h.nexusVfsPut_eq hm r
  rw [hput]
  have hcount : 0 < s.held.count m.address := count_pos_iff.mpr ha
  refine h.release hm rfl rfl rfl ?_ ?_ (fun hone => hclean hone m hderef) (fun _ hx => hx)
    (fun _ hp => .inl hp)
  · simp only [Vfs.holders, Vfs.update, Vfs.setBuffer, count_erase_self]
    omega
  · intro b hb
    simp only [Vfs.holders, Vfs.update, Vfs.setBuffer, count_erase_of_ne hb]

theorem inv_nexusVfsDelete (h : s.Settled) (uuid : Uuid)
    (hunused : ∀ m ∈ s.find uuid, s.Unused m) : (nexusVfsDelete s uuid).Settled := by
  unfold nexusVfsDelete
  cases hfind : s.find uuid with
  | none => exact h.moves (h.setBuffer_moves uuid _)
  | some m =>
    obtain ⟨hm, huuid⟩ := find_mem hfind
    rw [← huuid]
    exact h.moves (h.filter_moves hm (hunused m hfind))

theorem inv_nexusVfsGet (h : s.Settled) (flags : IoFlags) (type : MetadataType)
    (o : DentryOutcome) (hsafe : s.SafeLookup flags o.instantiated o.load.revalidate uuid)
    (hverified : nexusIoInLockMode flags = true → o.verified = true)
    (hbound : ∀ m ∈ s.find uuid, s.holders m.address + 1 < 2 ^ 64) :
    (nexusVfsGet flags type o s uuid).Settled := by
  have hmoves := dentryRevalidate_moves h flags type o hsafe hverified
  unfold nexusVfsGet
  generalize dentryRevalidate flags type o s uuid = result at hmoves
  obtain ⟨s', ok⟩ := result
  cases ok with
  | false => exact h.moves (hmoves.mono fun u hlocking => by cases hlocking.2.2.1)
  | true =>
    have hinv := h.moves hmoves
    dsimp only
    cases hfind : s'.find uuid with
    | none =>
      -- no metadata is left busy
      exact { hinv with
        idle := fun w hw _ => hinv.idle w hw fun hbusy => find_none hfind w hw hbusy.1 }
    | some m =>
      obtain ⟨hm, rfl⟩ := find_mem hfind
      refine inv_nexusMetadataGet hinv hm (fun _ hbusy => hbusy.1) ?_
      rw [hmoves.holders]
      obtain ⟨hnew, -⟩ | ⟨m₀, hm₀, haddress, huuid, -⟩ := hmoves.entries m hm
      · rw [h.holders_of_fresh hnew]
        decide
      · rw [haddress]
        cases hfind₀ : s.find m.uuid with
        | none => exact absurd huuid.symm (find_none hfind₀ m₀ hm₀)
        | some w =>
          obtain ⟨hw, hwuuid⟩ := find_mem hfind₀
          rw [h.eq_of_uuid hm₀ hw (huuid.symm.trans hwuuid.symm)]
          exact hbound w hfind₀

/-! ## Transfers -/

theorem getContext_mem {id : Nat} {x : Transfer} (h : getContext s id = some x) : x ∈ s.xfers :=
  mem_of_find?_eq_some h

theorem inv_fileCryptoNew (h : s.Settled) (ha : a ∈ s.held) :
    (fileCryptoNew s a).Settled := by
  obtain ⟨m, hm, rfl, hderef⟩ := h.deref_of_holders (holders_of_held ha)
  unfold fileCryptoNew
  rw [hderef]
  dsimp only
  have hcount : 0 < s.held.count m.address := count_pos_iff.mpr ha
  generalize hs' : ({ s with
    held := s.held.erase m.address
    xfers := ⟨s.xferCounter + 1, m.address, m.object⟩ :: s.xfers
    xferCounter := s.xferCounter + 1 } : Vfs) = s'
  have hself : s'.holders m.address = s.holders m.address := by
    rw [← hs']
    simp [Vfs.holders, count_erase_self]
    omega
  have hlru : s'.lru = (s.update m.address fun w => w).lru := by
    rw [← hs']
    simp [Vfs.update, Lru.update]
  refine h.change hm hlru ?_ ?_ rfl rfl rfl ?_ ?_ ?_ ?_ (fun _ hf => hf.elim) ?_ ?_
  · rw [← hs']
  · rw [← hs']
  · intro b hb
    rw [← hs']
    simp [Vfs.holders, count_erase_of_ne hb, hb.symm]
  · rw [hself]
    exact h.counted m hm
  · rw [hself]
    exact h.bounded m.address
  · intro hzero
    rw [hself] at hzero
    exact absurd hzero (holders_of_held ha)
  · rw [← hs']
    intro x hx
    obtain rfl | hx := mem_cons.mp hx
    · exact .inr ⟨rfl, rfl⟩
    · exact .inl hx
  · rw [← hs']
    exact fun _ hp => .inl hp

theorem inv_transferSetDirty (h : s.Settled) (id : Nat) :
    (transferSetDirty s id).Settled := by
  unfold transferSetDirty
  cases hcontext : getContext s id with
  | none => exact h
  | some x =>
    have hholds := holders_of_transfer (getContext_mem hcontext)
    obtain ⟨m, hm, haddress, hderef⟩ := h.deref_of_holders hholds
    dsimp only
    rw [hderef]
    dsimp only
    split
    · rw [← haddress] at hholds
      exact inv_metadataSetDirty h hm (.inl hholds)
    · exact h

theorem store_clean {o : PutOutcome} (hstores : s.Stores o m) :
    (((s.locks m).store o).1.metadata.getD m.lock).isDirty = false := by
  unfold store Vfs.locks
  dsimp only
  split
  · next hmust =>
    have hclean : m.lock.isDirty = false ∧ m.lock.flags.fcreate = false := by
      simpa [MetadataLock.mustStore] using hmust
    exact hclean.1
  · cases hdirty : m.lock.isDirty with
    | true =>
      obtain ⟨hreached, hheap, hmode, hput⟩ := hstores hdirty
      have hok := (BufferState.allocPut_ok_iff (s := s.buffers m.uuid) o.bytes o.heap o.put o.now).mpr
        ⟨hmode, hheap, hput⟩
      rw [if_neg (by simp [hreached])]
      generalize bufferLayerAllocPut o.bytes o.heap o.put o.now (s.buffers m.uuid) = result at hok ⊢
      obtain ⟨buffer, ok⟩ := result
      cases hok
      rfl
    | false =>
      split
      · rfl
      · split <;> rfl

theorem inv_fileCryptoFinish (h : s.Settled) (id : Nat) (o : PutOutcome) (r : OcallResult)
    (hstores : ∀ x ∈ getContext s id, s.holders x.metadata = 1 →
      ∀ m ∈ s.deref x.metadata, s.Stores o m) :
    (fileCryptoFinish o r s id).Settled := by
  unfold fileCryptoFinish
  cases hcontext : getContext s id with
  | none => exact h
  | some x =>
    have hx := getContext_mem hcontext
    have hholds := holders_of_transfer hx
    obtain ⟨m, hm, haddress, hobject⟩ := h.transfers x hx
    have hderef : s.deref x.metadata = some m := by
      rw [← haddress]
      exact h.deref_of_mem hm
    have hstores := fun hone => hstores x hcontext hone m hderef
    dsimp only
    rw [hderef, ← haddress]
    rw [← haddress] at hholds hstores
    have hstored := inv_nexusMetadataStore h hm (.inl hholds) o
    generalize hs₁ : nexusMetadataStore o s m.address = s₁ at hstored
    have heq : s₁ = s.setLocks m ((s.locks m).store o).1 := by
      rw [← hs₁, nexusMetadataStore, h.deref_of_mem hm]
    generalize hm₁ : ({ m with lock := ((s.locks m).store o).1.metadata.getD m.lock } :
      CachedMetadata) = m₁
    have hm₁_mem : m₁ ∈ s₁.lru := by
      rw [heq]
      show m₁ ∈ (s.update m.address _).lru
      rw [h.mem_update_iff hm]
      exact .inl hm₁.symm
    have ha₁ : m₁.address = m.address := by rw [← hm₁]
    have hrefs : SameRefs s s₁ := by
      rw [heq]
      exact ⟨rfl, rfl, rfl⟩
    have hholders := hrefs.holders
    have hpos : 0 < s.xfers.countP (·.metadata = m.address) :=
      countP_pos_iff.mpr ⟨x, hx, decide_eq_true haddress.symm⟩
    obtain ⟨b, hput⟩ := hstored.nexusVfsPut_eq hm₁_mem r
    rw [← ha₁, hput]
    refine hstored.release hm₁_mem rfl rfl rfl ?_ ?_ ?_ ?_ ?_
    · rw [hholders, ha₁]
      have hmetadata : x.metadata = m.address := haddress.symm
      simp only [Vfs.holders, Vfs.update, Vfs.setBuffer, hrefs.held, countP_erase, hx, hmetadata,
        true_and, decide_true, if_true]
      omega
    · intro b hb
      rw [ha₁] at hb
      rw [hholders]
      have hne : x.metadata ≠ b := by
        rw [← haddress]
        exact hb.symm
      simp [Vfs.holders, Vfs.update, Vfs.setBuffer, hrefs.held, countP_erase, hne]
    · intro hone
      rw [hholders, ha₁] at hone
      rw [← hm₁]
      exact store_clean (hstores hone)
    · intro y hy
      rw [hrefs.xfers]
      exact mem_of_mem_erase hy
    · intro p hp
      obtain rfl | hp := mem_cons.mp hp
      · refine .inr ?_
        rw [← hobject]
        rfl
      · exact .inl (hrefs.finished ▸ hp)

/-! ## Runs -/

theorem holders_vfsInit (buffers : Uuid → BufferState) (a : Nat) : (vfsInit buffers).holders a = 0 :=
  rfl

theorem inv_vfsInit (buffers : Uuid → BufferState) : (vfsInit buffers).Settled where
  dropped := nofun
  transfers := nofun
  finished := nofun
  uuids := nodup_nil
  addresses := nodup_nil
  fresh := nofun
  counted := nofun
  bounded := by
    intro a
    rw [holders_vfsInit]
    omega
  live := fun a ha => absurd (holders_vfsInit buffers a) ha
  idle := nofun

theorem Vfs.Inv.of_held (h : s.Settled) {f : Vfs → Nat → Vfs}
    (hf : ∀ m ∈ s.lru, s.holders m.address ≠ 0 ∨ m.type = .auditLog →
      (f s m.address).Settled) :
    (if a ∈ s.held then f s a else s).Settled := by
  split
  · next ha =>
    have hholds := holders_of_held ha
    obtain ⟨m, hm, rfl⟩ := h.live a hholds
    exact hf m hm (.inl hholds)
  · exact h

theorem auditLog_mem (h : s.auditLog uuid = some m) : m ∈ s.lru ∧ m.type = .auditLog := by
  obtain ⟨hfind, htype⟩ := Option.filter_eq_some_iff.mp h
  exact ⟨(find_mem hfind).1, of_decide_eq_true htype⟩

theorem inv_step (s : Vfs) (e : CacheEvent) (h : s.Settled) (hcareful : e.Careful s) :
    (s.step e).Settled := by
  cases e with
  | walk type uuid o =>
    exact h.moves ((dentryRevalidate_moves h nexusFread type o hcareful nofun).mono
      fun u hlocking => by cases hlocking.2.1)
  | vfsGet flags type uuid o =>
    exact inv_nexusVfsGet h flags type o hcareful.1 hcareful.2.1 hcareful.2.2
  | metadataGet address =>
    dsimp only [Vfs.step]
    split
    · next ha =>
      obtain ⟨m, hm, rfl⟩ := h.live address (holders_of_held ha)
      exact inv_nexusMetadataGet h hm (fun _ hf => hf.elim) hcareful
    · exact h
  | vfsPut address r =>
    dsimp only [Vfs.step]
    split
    · next ha => exact inv_nexusVfsPut h ha r hcareful
    · exact h
  | vfsPutAgain address r => exact hcareful.elim
  | edit address => exact h.of_held (f := metadataSetDirty) fun m hm => inv_metadataSetDirty h hm
  | store address o =>
    exact h.of_held (f := nexusMetadataStore o) fun m hm hused =>
      inv_nexusMetadataStore h hm hused o
  | sync address o =>
    exact h.of_held (f := nexusMetadataSync o) fun m hm hused =>
      inv_nexusMetadataSync h hm hused o
  | delete uuid => exact inv_nexusVfsDelete h uuid hcareful
  | auditLoad uuid o =>
    exact h.moves ((nexusVfsLoad_moves h nexusFrdwr .auditLog o hcareful.1).mono
      fun u hlocking => hlocking.2.2.2 ⟨rfl, hcareful.2⟩)
  | auditEdit uuid =>
    dsimp only [Vfs.step]
    split
    · next m haudit =>
      obtain ⟨hm, htype⟩ := auditLog_mem haudit
      exact inv_metadataSetDirty h hm (.inr htype)
    · exact h
  | auditStore uuid o =>
    dsimp only [Vfs.step]
    split
    · next m haudit =>
      obtain ⟨hm, htype⟩ := auditLog_mem haudit
      exact inv_nexusMetadataStore h hm (.inr htype) o
    · exact h
  | cryptoNew address =>
    dsimp only [Vfs.step]
    split
    · next ha => exact inv_fileCryptoNew h ha
    · exact h
  | cryptoUpdate id => exact inv_transferSetDirty h id
  | cryptoFinish id o r => exact inv_fileCryptoFinish h id o r hcareful

/-- In every run whose steps free nothing that is in use, what is freed is not pinned, and each
transfer stores the filenode that it changes. -/
theorem pins_kept (buffers : Uuid → BufferState) (events : List CacheEvent)
    (hcareful : Runs.Meets Vfs.step (fun s e => e.Careful s) (vfsInit buffers) events) :
    Runs.Always Vfs.step Vfs.PinsKept (vfsInit buffers) events :=
  (Runs.always_of_meets (P := Vfs.Settled) inv_step (inv_vfsInit buffers)
    hcareful).mono fun _ h => h.toPinsKept

/-! ## Examples -/

/-- A lookup whose ocalls succeed; `stattime` is what the datastore says of the object. -/
def lookupOutcome (instantiated : Bool) (stattime : Nat) : DentryOutcome :=
  ⟨instantiated, ⟨⟨some stattime, false, ⟨.ok, true⟩, .ok⟩, ⟨.ok, true⟩⟩, true⟩

def fileFlags : IoFlags := ⟨true, true, false, true⟩

def storedOutcome : PutOutcome := ⟨true, true, .ok, [], 2⟩

def exampleBuffers (_ : Uuid) : BufferState := .closed [] 1

/-- A file is looked up, a transfer is opened, and the file is changed. -/
def openTransfer : List CacheEvent :=
  [.walk .dirnode 1 (lookupOutcome false 1), .vfsGet fileFlags .filenode 7 (lookupOutcome false 1),
    .cryptoNew 2, .cryptoUpdate 1]

theorem transfer_pins_kept :
    Runs.Always Vfs.step Vfs.PinsKept (vfsInit exampleBuffers)
      (openTransfer ++ [.walk .filenode 7 (lookupOutcome true 1),
        .walk .filenode 9 (lookupOutcome false 1), .cryptoFinish 1 storedOutcome .ok,
        .delete 7]) :=
  pins_kept exampleBuffers _ (by decide +kernel)

def stateAfter (events : List CacheEvent) : Vfs := events.foldl Vfs.step (vfsInit exampleBuffers)

/-- The file has a newer version when it is looked up during the transfer. -/
def lateTransfer : List CacheEvent :=
  openTransfer ++ [.walk .filenode 7 (lookupOutcome true 2), .cryptoFinish 1 storedOutcome .ok]

/-- The file of a transfer is changed by another client, and looked up: its filenode is freed,
and the transfer stores another one.  And when the file is removed during the transfer, its
metadata is freed. -/
theorem transfer_loses_filenode :
    (stateAfter lateTransfer).dropped.map (fun m => (m.refCount, m.lock.isLocked, m.lock.isDirty)) =
        [(1, true, true)] ∧
      (stateAfter lateTransfer).finished = [(3, some 4)] ∧
      (stateAfter (openTransfer ++ [.delete 7])).dropped.map (fun m => (m.uuid, m.refCount)) =
        [(7, 1)] := by
  decide +kernel

end Nexus.Cache
