import Nexus.Storage.CacheEvents

/-!
# Loading metadata into the cache

A lookup revalidates a cached object, or reads it and evicts another one.  One that frees
nothing that is in use only moves the metadata; it may leave the object locked, which the
caller then holds.
-/

namespace Nexus.Cache

open List ObjectLocks

variable {s s' : Vfs} {busy busy' : Uuid → Prop} {m : CachedMetadata} {uuid : Uuid}
  {f : CachedMetadata → CachedMetadata}

theorem Vfs.Inv.moves_of_perm (h : s.Inv busy') (hrefs : SameRefs s s')
    (hnext : s.next ≤ s'.next) (hdropped : s'.dropped = s.dropped) (hlru : s'.lru.Perm s.lru) :
    Moves busy s s' where
  toSameRefs := hrefs
  next := hnext
  uuids := (hlru.map _).nodup_iff.mpr h.uuids
  addresses := (hlru.map _).nodup_iff.mpr h.addresses
  fresh := fun m hm => (h.fresh m (hlru.mem_iff.mp hm)).trans_le hnext
  entries := fun m hm =>
    .inr ⟨m, hlru.mem_iff.mp hm, rfl, rfl, rfl, .inl rfl, fun _ hidle => hidle⟩
  kept := fun m hm _ => ⟨m, hlru.mem_iff.mpr hm, rfl⟩
  dropped := fun _ hm => .inl (hdropped ▸ hm)

theorem Vfs.Inv.touch_moves (h : s.Inv busy') (uuid : Uuid) : Moves busy s (s.touch uuid) :=
  h.moves_of_perm ⟨rfl, rfl, rfl⟩ le_rfl rfl (Lru.touch_perm _ _ _)

theorem Vfs.Inv.setBuffer_moves (h : s.Inv busy') (uuid : Uuid) (b : BufferState) :
    Moves busy s (s.setBuffer uuid b) :=
  h.moves_of_perm ⟨rfl, rfl, rfl⟩ le_rfl rfl (List.Perm.refl _)

section

variable (h : s.Inv busy) (hm : m ∈ s.lru)
include h hm

theorem Vfs.Inv.map_update {K : Type} (key : CachedMetadata → K) (hkey : key (f m) = key m) :
    (s.update m.address f).lru.map key = s.lru.map key := by
  show (Lru.update _ _ f s.lru).map key = _
  rw [Lru.update, map_map]
  refine map_congr_left fun w hw => ?_
  by_cases heq : w.address = m.address
  · simp [h.eq_of_address hw hm heq, hkey]
  · simp [heq]

theorem Vfs.Inv.mem_update_iff {w : CachedMetadata} :
    w ∈ (s.update m.address f).lru ↔ w = f m ∨ w ∈ s.lru ∧ w.address ≠ m.address := by
  show w ∈ Lru.update _ _ f s.lru ↔ _
  rw [Lru.mem_update_iff]
  constructor
  · intro hw
    obtain ⟨w₀, hw₀, rfl⟩ := hw
    by_cases heq : w₀.address = m.address
    · rw [if_pos heq, h.eq_of_address hw₀ hm heq]
      exact .inl rfl
    · rw [if_neg heq]
      exact .inr ⟨hw₀, heq⟩
  · intro hw
    obtain rfl | ⟨hw, hne⟩ := hw
    · exact ⟨m, hm, (if_pos rfl).symm⟩
    · exact ⟨w, hw, (if_neg hne).symm⟩

theorem Vfs.Inv.self_mem_update :
    f m ∈ (s.update m.address f).lru := (h.mem_update_iff hm).mpr (.inl rfl)

theorem Vfs.Inv.mem_update_of_ne {w : CachedMetadata} (hw : w ∈ s.lru)
    (hne : w.address ≠ m.address) :
    w ∈ (s.update m.address f).lru :=
  (h.mem_update_iff hm).mpr (.inr ⟨hw, hne⟩)

end

theorem Vfs.Inv.indexed_update (h : s.Inv busy) (hm : m ∈ s.lru)
    (hlru : s'.lru = (s.update m.address f).lru) (hnext : s.next ≤ s'.next)
    (haddress : (f m).address = m.address) (huuid : (f m).uuid = m.uuid) : s'.Indexed where
  uuids := by
    rw [hlru, h.map_update hm _ huuid]
    exact h.uuids
  addresses := by
    rw [hlru, h.map_update hm _ haddress]
    exact h.addresses
  fresh := by
    intro w hw
    rw [hlru, h.mem_update_iff hm] at hw
    obtain rfl | ⟨hw, -⟩ := hw
    · rw [haddress]
      exact (h.fresh m hm).trans_le hnext
    · exact (h.fresh w hw).trans_le hnext

theorem Vfs.Inv.update_moves (h : s.Inv busy') (hm : m ∈ s.lru)
    (hlru : s'.lru = (s.update m.address f).lru) (hrefs : SameRefs s s')
    (hnext : s.next ≤ s'.next) (hdropped : ∀ w ∈ s'.dropped, w ∈ s.dropped ∨ w.Unpinned)
    (haddress : (f m).address = m.address) (huuid : (f m).uuid = m.uuid)
    (hcount : (f m).refCount = m.refCount)
    (hobject : (f m).object = m.object ∨ s.holders m.address = 0)
    (hidle : ¬ busy m.uuid → m.Idle → (f m).Idle) : Moves busy s s' where
  toSameRefs := hrefs
  toIndexed := h.indexed_update hm hlru hnext haddress huuid
  next := hnext
  entries := by
    intro w hw
    rw [hlru, h.mem_update_iff hm] at hw
    obtain rfl | ⟨hw, -⟩ := hw
    · exact .inr ⟨m, hm, haddress, huuid, hcount, hobject, hidle⟩
    · exact .inr ⟨w, hw, rfl, rfl, rfl, .inl rfl, fun _ hidle => hidle⟩
  kept := by
    intro w hw _
    rw [hlru]
    by_cases heq : w.address = m.address
    · exact ⟨f m, h.self_mem_update hm, haddress.trans heq.symm⟩
    · exact ⟨w, h.mem_update_of_ne hm hw heq, rfl⟩
  dropped := hdropped

theorem revalidate_metadata (s : Vfs) (flags : IoFlags) (o : RevalidateOutcome) (m : CachedMetadata) :
    let result := (s.locks m).revalidate flags o m.lock
    if result.2 = false then result.1.metadata = some m.lock
    else if s.rereads o m then result.1.metadata = some (.fromObject flags)
    else result.1.metadata =
      some (if nexusIoInLockMode flags then { m.lock with isLocked := true } else m.lock) := by
  have hload : let result := (s.locks m).load flags o.read
      if result.2 = false then result.1.metadata = some m.lock
      else result.1.metadata = some (.fromObject flags) := by
    unfold load
    split
    · rfl
    · split <;> rfl
  unfold revalidate
  by_cases hinvalid : m.lock.isInvalid = true
  · have hreads : s.rereads o m = true := by simp [Vfs.rereads, hinvalid]
    simpa [hinvalid, hreads] using hload
  by_cases hchanged : (s.locks m).hasChanged o = true
  · have hreads : s.rereads o m = true := by simp [Vfs.rereads, hchanged]
    simpa [hchanged, hreads] using hload
  have hreads : s.rereads o m = false := by simp [Vfs.rereads, hinvalid, hchanged]
  rw [if_neg hinvalid, if_neg hchanged]
  by_cases hmode : nexusIoInLockMode flags = true
  · rw [if_pos hmode]
    unfold lock
    split
    · rfl
    · simp [hreads, hmode, Vfs.locks]
  · simp [hreads, hmode, Vfs.locks]

/-- The uuid is left locked by a lookup, and it is not that of an audit log. -/
def Locking (uuid : Uuid) (flags : IoFlags) (ok : Bool) (audit : Prop) (u : Uuid) : Prop :=
  u = uuid ∧ nexusIoInLockMode flags = true ∧ ok = true ∧ ¬ audit

variable {flags : IoFlags}

theorem Locking.imp {ok ok' : Bool} {audit audit' : Prop} {u : Uuid}
    (h : Locking uuid flags ok audit u)
    (hok : nexusIoInLockMode flags = true → ok = true → ok' = true) (haudit : audit' → audit) :
    Locking uuid flags ok' audit' u :=
  ⟨h.1, h.2.1, hok h.2.1 h.2.2.1, mt haudit h.2.2.2⟩

theorem not_lockMode {audit : Prop} (hbusy : ¬ Locking uuid flags true audit uuid)
    (haudit : ¬ audit) :
    nexusIoInLockMode flags = false := by
  rw [Bool.eq_false_iff]
  intro hmode
  exact hbusy ⟨rfl, hmode, rfl, haudit⟩

theorem setLocks_moves (h : s.Inv busy') (hm : m ∈ s.lru) (c : ObjectLocks)
    (hidle : ¬ busy m.uuid → m.Idle → ({ m with lock := c.metadata.getD m.lock } :
      CachedMetadata).Idle) : Moves busy s (s.setLocks m c) :=
  h.update_moves hm rfl ⟨rfl, rfl, rfl⟩ le_rfl (fun _ hm => .inl hm) rfl rfl rfl (.inl rfl) hidle

theorem nexusMetadataRevalidate_moves (h : s.Settled) (hm : m ∈ s.lru) (flags : IoFlags)
    (o : RevalidateOutcome) (hsafe : s.rereads o m = true → s.Unused m) :
    Moves (Locking m.uuid flags (nexusMetadataRevalidate flags o s m).2 (m.type = .auditLog)) s
      (nexusMetadataRevalidate flags o s m).1 := by
  have hmetadata := revalidate_metadata s flags o m
  unfold nexusMetadataRevalidate
  generalize (s.locks m).revalidate flags o m.lock = result at hmetadata
  obtain ⟨c, ok⟩ := result
  dsimp only at hmetadata ⊢
  split
  · next hreread =>
    rw [Bool.and_eq_true] at hreread
    have hunused := hsafe hreread.1
    rw [if_neg (by simp [hreread.2]), if_pos hreread.1] at hmetadata
    have hlru : ((s.setLocks m c).update m.address fun m => { m with object := s.next }).lru =
        (s.update m.address fun w => { w with lock := c.metadata.getD w.lock, object := s.next }).lru := by
      simp only [Vfs.setLocks, Vfs.update, Vfs.setBuffer, Lru.update, map_map]
      refine map_congr_left fun w _ => ?_
      by_cases heq : w.address = m.address <;> simp [heq]
    refine h.update_moves hm hlru ⟨rfl, rfl, rfl⟩ (Nat.le_succ _) ?_ rfl rfl rfl (.inr hunused.1) ?_
    · intro w hw
      obtain rfl | hw := mem_cons.mp hw
      · exact .inr (h.unpinned hm (fun hf => hf) hunused)
      · exact .inl hw
    · intro hbusy _ htype
      have hmode := not_lockMode hbusy htype
      show (c.metadata.getD m.lock).isLocked = false ∧ (c.metadata.getD m.lock).isDirty = false
      rw [hmetadata]
      exact ⟨hmode, rfl⟩
  · next hreread =>
    refine setLocks_moves h hm c fun hbusy hidle htype => ?_
    have hidle := hidle htype
    show (c.metadata.getD m.lock).isLocked = false ∧ (c.metadata.getD m.lock).isDirty = false
    cases ok with
    | false =>
      rw [if_pos rfl] at hmetadata
      rw [hmetadata]
      exact hidle
    | true =>
      have hreread : s.rereads o m = false := by simpa using hreread
      have hmode := not_lockMode hbusy htype
      rw [if_neg nofun, if_neg (by simp [hreread]), hmode] at hmetadata
      rw [hmetadata]
      exact hidle

theorem Vfs.Inv.lruShrinker_moves (h : s.Settled) (hm : m ∈ s.lru)
    (hunused : s.Unused m) {rest : List CachedMetadata} (hrest : rest.Sublist s.lru)
    (hgone : ∀ w ∈ s.lru, w ∈ rest ∨ w = m) :
    Moves busy s { lruShrinker s m with lru := rest } where
  toSameRefs := ⟨rfl, rfl, rfl⟩
  next := le_rfl
  uuids := h.uuids.sublist (hrest.map _)
  addresses := h.addresses.sublist (hrest.map _)
  fresh := fun w hw => h.fresh w (hrest.subset hw)
  entries := fun w hw =>
    .inr ⟨w, hrest.subset hw, rfl, rfl, rfl, .inl rfl, fun _ hidle => hidle⟩
  kept := by
    intro w hw hholds
    obtain hw | rfl := hgone w hw
    · exact ⟨w, hw, rfl⟩
    · exact absurd hunused.1 hholds
  dropped := by
    intro w hw
    obtain rfl | hw := mem_cons.mp hw
    · exact .inr (h.unpinned hm (fun hf => hf) hunused)
    · exact .inl hw

theorem Vfs.Inv.filter_moves (h : s.Settled) (hm : m ∈ s.lru)
    (hunused : s.Unused m) :
    Moves busy s { lruShrinker s m with lru := s.lru.filter (·.uuid ≠ m.uuid) } := by
  refine h.lruShrinker_moves hm hunused filter_sublist fun w hw => ?_
  by_cases heq : w.uuid = m.uuid
  · exact .inr (h.eq_of_uuid hw hm heq)
  · exact .inl (mem_filter.mpr ⟨hw, decide_eq_true heq⟩)

theorem Vfs.Inv.cons_moves (h : s.Inv busy') {e : CachedMetadata}
    (hlru : s'.lru = e :: s.lru) (hrefs : SameRefs s s') (hdropped : s'.dropped = s.dropped)
    (hnew : s.next ≤ e.address) (hnext : e.address < s'.next) (hcount : e.refCount = 0)
    (huuid : ∀ w ∈ s.lru, w.uuid ≠ e.uuid) (hidle : ¬ busy e.uuid → e.Idle) :
    Moves busy s s' where
  toSameRefs := hrefs
  next := hnew.trans hnext.le
  uuids := by
    rw [hlru, map_cons, nodup_cons]
    refine ⟨fun hmem => ?_, h.uuids⟩
    obtain ⟨w, hw, heq⟩ := mem_map.mp hmem
    exact huuid w hw heq
  addresses := by
    rw [hlru, map_cons, nodup_cons]
    refine ⟨fun hmem => ?_, h.addresses⟩
    obtain ⟨w, hw, heq⟩ := mem_map.mp hmem
    have := h.fresh w hw
    omega
  fresh := by
    rw [hlru]
    intro w hw
    obtain rfl | hw := mem_cons.mp hw
    · exact hnext
    · exact ((h.fresh w hw).trans_le hnew).trans hnext
  entries := by
    rw [hlru]
    intro w hw
    obtain rfl | hw := mem_cons.mp hw
    · exact .inl ⟨hnew, hcount, hidle⟩
    · exact .inr ⟨w, hw, rfl, rfl, rfl, .inl rfl, fun _ hidle => hidle⟩
  kept := by
    rw [hlru]
    exact fun w hw _ => ⟨w, mem_cons_of_mem e hw, rfl⟩
  dropped := fun w hw => .inl (hdropped ▸ hw)

theorem find_mem (h : s.find uuid = some m) : m ∈ s.lru ∧ m.uuid = uuid := Keyed.mem_of_get h

theorem find_none (h : s.find uuid = none) : ∀ w ∈ s.lru, w.uuid ≠ uuid := by
  simpa [Vfs.find] using h

/-- Nothing that is in use has to go for the object. -/
def Vfs.Replaceable (s : Vfs) (uuid : Uuid) : Prop :=
  match s.find uuid with
  | some m => s.Unused m
  | none => s.lru.length < lruCapacity ∨ ∀ m ∈ s.lru.getLast?, s.Unused m

/-- `nexus_lru_put` is an eviction, and then the new metadata comes to the front. -/
theorem nexusLruPut_moves (h : s.Settled) {e : CachedMetadata}
    (hsafe : s.Replaceable e.uuid) (hnew : s.next ≤ e.address) {next : Nat}
    (hnext : e.address < next) (hcount : e.refCount = 0) (hidle : ¬ busy e.uuid → e.Idle) :
    Moves busy s (nexusLruPut { s with next } e) := by
  unfold Vfs.Replaceable at hsafe
  unfold nexusLruPut
  rw [show Vfs.find { s with next } e.uuid = s.find e.uuid from rfl]
  cases hfind : s.find e.uuid with
  | some old =>
    rw [hfind] at hsafe
    obtain ⟨hmem, huuid⟩ := find_mem hfind
    have hremoved : Moves (fun _ => False) s
        { lruShrinker s old with lru := s.lru.filter (·.uuid ≠ e.uuid) } := by
      rw [← huuid]
      exact h.filter_moves hmem hsafe
    refine (hremoved.quiet).trans
      ((h.moves hremoved).cons_moves rfl ⟨rfl, rfl, rfl⟩ rfl hnew hnext hcount ?_ hidle)
    intro w hw
    exact of_decide_eq_true (mem_filter.mp hw).2
  | none =>
    rw [hfind] at hsafe
    have hother := find_none hfind
    obtain ⟨hroom, hput⟩ | ⟨init, victim, hlru, hput⟩ :=
      Lru.put_cases (show 0 < lruCapacity by decide) e s.lru
    · dsimp only
      rw [hput]
      exact h.cons_moves rfl ⟨rfl, rfl, rfl⟩ rfl hnew hnext hcount hother hidle
    · dsimp only
      rw [hput]
      by_cases hroom : s.lru.length < lruCapacity
      · -- with room there is no victim
        rw [Lru.put, if_pos hroom] at hput
        cases hput
      have hunused : s.Unused victim := by
        obtain hroom' | hlast := hsafe
        · exact absurd hroom' hroom
        · refine hlast victim ?_
          rw [hlru, getLast?_append, getLast?_singleton]
          rfl
      have hremoved : Moves (fun _ => False) s { lruShrinker s victim with lru := init } := by
        refine h.lruShrinker_moves ?_ hunused ?_ fun w hw => ?_
        · simp [hlru]
        · rw [hlru]
          exact sublist_append_left init [victim]
        · simpa [hlru] using hw
      refine (hremoved.quiet).trans
        ((h.moves hremoved).cons_moves rfl ⟨rfl, rfl, rfl⟩ rfl hnew hnext hcount ?_ hidle)
      intro w hw
      refine hother w ?_
      rw [hlru]
      exact mem_append_left [victim] hw

theorem loadFromDisk_moves (h : s.Settled) (flags : IoFlags) (type : MetadataType)
    (o : ReadOutcome) (hsafe : s.Replaceable uuid) :
    Moves (Locking uuid flags (loadFromDisk flags type o s uuid).2 (type = .auditLog)) s
      (loadFromDisk flags type o s uuid).1 := by
  unfold loadFromDisk
  generalize (ObjectLocks.mk none (s.buffers uuid)).load flags o = result
  obtain ⟨c, ok⟩ := result
  have hbuffer : Moves (fun _ => False) s (s.setBuffer uuid c.buffer) := h.setBuffer_moves uuid c.buffer
  cases ok with
  | false => exact hbuffer.quiet
  | true =>
    refine (hbuffer.quiet).trans (nexusLruPut_moves
      (e := ⟨uuid, type, s.next, s.next + 1, 0, .fromObject flags⟩) (h.moves hbuffer) hsafe
      (le_refl s.next) (show s.next < s.next + 2 by omega) rfl ?_)
    intro hbusy htype
    exact ⟨not_lockMode hbusy htype, rfl⟩

theorem nexusVfsRevalidate_moves (h : s.Settled) (hm : m ∈ s.lru) (flags : IoFlags)
    (o : RevalidateOutcome) (hsafe : s.rereads { o with uninit := false } m = true → s.Unused m) :
    Moves (Locking m.uuid flags (nexusVfsRevalidate flags o s m).2 (m.type = .auditLog)) s
      (nexusVfsRevalidate flags o s m).1 := by
  have hmoves := nexusMetadataRevalidate_moves h hm flags { o with uninit := false } hsafe
  unfold nexusVfsRevalidate
  generalize nexusMetadataRevalidate flags { o with uninit := false } s m = result at hmoves
  obtain ⟨s', ok⟩ := result
  cases ok with
  | false => exact hmoves
  | true => exact hmoves.trans ((h.moves hmoves).touch_moves m.uuid)

theorem Vfs.Current.rereads {instantiated : Bool} {o : RevalidateOutcome}
    (h : s.Current flags instantiated o m) : s.rereads { o with uninit := false } m = false := by
  obtain ⟨hvalid, ⟨b, hb, hstat⟩, -⟩ := h
  have hbuf : (s.locks m).buffer.metaBuf = some b := hb
  unfold Vfs.rereads hasChanged
  rw [hvalid, hbuf]
  cases htime : o.stattime with
  | none => rfl
  | some t =>
    have hle := hstat t htime
    simp [hle]

theorem unused_of_rereads {instantiated : Bool} {o : RevalidateOutcome}
    (hsafe : s.Unused m ∨ s.Current flags instantiated o m)
    (hreread : s.rereads { o with uninit := false } m = true) : s.Unused m := by
  obtain hunused | hcurrent := hsafe
  · exact hunused
  · rw [hcurrent.rereads] at hreread
    cases hreread

theorem nexusVfsRevalidate_current {o : RevalidateOutcome} (h : s.Current flags false o m) :
    (nexusVfsRevalidate flags o s m).2 = true := by
  have hreread := h.rereads
  obtain ⟨hvalid, -, hlock⟩ := h
  have hchanged : (s.locks m).hasChanged { o with uninit := false } = false := by
    rw [Vfs.rereads, hvalid, Bool.false_or] at hreread
    exact hreread
  have hok : ((s.locks m).revalidate flags { o with uninit := false } m.lock).2 = true := by
    unfold revalidate
    rw [if_neg (by simp [hvalid]), if_neg (by simp [hchanged])]
    split
    · next hmode =>
      have hlocked : (bufferLayerLock flags o.lock (s.buffers m.uuid)).2 = true := by
        rw [BufferState.lock_eq]
        obtain hinst | hwrite | hocall := hlock hmode
        · cases hinst
        · rw [if_pos hwrite]
        · rw [hocall]
          split <;> rfl
      rcases hresult : bufferLayerLock flags o.lock (s.buffers m.uuid) with ⟨buffer, ok⟩
      rw [hresult] at hlocked
      cases hlocked
      rw [lock, show bufferLayerLock flags o.lock (s.locks m).buffer = _ from hresult]
    · rfl
  unfold nexusVfsRevalidate nexusMetadataRevalidate
  generalize (s.locks m).revalidate flags { o with uninit := false } m.lock = result at hok
  obtain ⟨c, ok⟩ := result
  cases hok
  simp [hreread]

theorem nexusVfsRevalidate_failed (flags : IoFlags) (o : RevalidateOutcome)
    (hm : ∀ w ∈ s.lru, w.address = m.address → w = m)
    (hfailed : (nexusVfsRevalidate flags o s m).2 = false) :
    (nexusVfsRevalidate flags o s m).1.lru = s.lru := by
  have hmetadata := revalidate_metadata s flags { o with uninit := false } m
  unfold nexusVfsRevalidate nexusMetadataRevalidate at hfailed ⊢
  generalize (s.locks m).revalidate flags { o with uninit := false } m.lock = result at hmetadata hfailed
  obtain ⟨c, ok⟩ := result
  cases ok with
  | true => cases hreread : s.rereads { o with uninit := false } m <;> simp [hreread] at hfailed
  | false =>
    rw [if_pos rfl] at hmetadata
    simp only [Bool.and_false, Bool.false_eq_true, if_false]
    show Lru.update _ _ _ s.lru = s.lru
    unfold Lru.update
    conv_rhs => rw [← map_id s.lru]
    refine map_congr_left fun w hw => ?_
    by_cases heq : w.address = m.address
    · rw [hm w hw heq]
      simp [show c.metadata = some m.lock from hmetadata]
    · simp [heq]

theorem nexusVfsLoad_moves (h : s.Settled) (flags : IoFlags) (type : MetadataType)
    (o : LoadOutcome) (hsafe : s.SafeLookup flags false o.revalidate uuid) :
    Moves (Locking uuid flags (nexusVfsLoad flags type o s uuid).2
      (type = .auditLog ∧ ∀ m ∈ s.find uuid, m.type = .auditLog)) s
      (nexusVfsLoad flags type o s uuid).1 := by
  unfold Vfs.SafeLookup at hsafe
  unfold nexusVfsLoad
  cases hfind : s.find uuid with
  | none =>
    rw [hfind] at hsafe
    refine (loadFromDisk_moves h flags type o.load ?_).mono
      fun u hlocking => hlocking.imp (fun _ hok => hok) And.left
    unfold Vfs.Replaceable
    rw [hfind]
    exact hsafe
  | some m =>
    rw [hfind] at hsafe
    obtain ⟨hm, rfl⟩ := find_mem hfind
    have htouch : Moves (fun _ => False) s (s.touch m.uuid) := h.touch_moves m.uuid
    have hinv := h.moves htouch
    have hm' : m ∈ (s.touch m.uuid).lru := (Lru.touch_perm _ _ _).mem_iff.mpr hm
    have hsafe' : (s.touch m.uuid).Unused m ∨
        (s.touch m.uuid).Current flags false o.revalidate m := hsafe
    have hmoves := nexusVfsRevalidate_moves hinv hm' flags o.revalidate (unused_of_rereads hsafe')
    have hfailed := nexusVfsRevalidate_failed flags o.revalidate
      (fun w hw => hinv.eq_of_address hw hm')
    have hcurrent : (s.touch m.uuid).Current flags false o.revalidate m → _ :=
      nexusVfsRevalidate_current
    dsimp only
    generalize nexusVfsRevalidate flags o.revalidate (s.touch m.uuid) m = result
      at hmoves hfailed hcurrent ⊢
    obtain ⟨s₁, ok⟩ := result
    cases ok with
    | true =>
      exact (htouch.quiet).trans (hmoves.mono
        fun u hlocking => hlocking.imp (fun _ hok => hok) fun haudit => haudit.2 m rfl)
    | false =>
      -- only a copy that is not in use can fail to be revalidated
      have hunused : s.Unused m := by
        obtain hunused | hcur := hsafe'
        · exact hunused
        · cases hcurrent hcur
      have hmoves : Moves (fun _ => False) (s.touch m.uuid) s₁ :=
        hmoves.mono fun u hlocking => by cases hlocking.2.2.1
      have hinv₁ := hinv.moves hmoves
      have hlru : s₁.lru = (s.touch m.uuid).lru := hfailed rfl
      refine ((htouch.trans hmoves).quiet).trans
        ((loadFromDisk_moves hinv₁ flags type o.load ?_).mono
          fun u hlocking => hlocking.imp (fun _ hok => hok) And.left)
      unfold Vfs.Replaceable
      cases hfind₁ : s₁.find m.uuid with
      | none =>
        refine absurd rfl (find_none hfind₁ m ?_)
        rwa [hlru]
      | some m₁ =>
        obtain ⟨hm₁, huuid₁⟩ := find_mem hfind₁
        rw [hlru] at hm₁
        show s₁.Unused m₁
        rw [hinv.eq_of_uuid hm₁ hm' huuid₁]
        refine ⟨?_, hunused.2⟩
        rw [hmoves.holders]
        exact hunused.1

theorem dentryRevalidate_moves (h : s.Settled) (flags : IoFlags) (type : MetadataType)
    (o : DentryOutcome) (hsafe : s.SafeLookup flags o.instantiated o.load.revalidate uuid)
    (hverified : nexusIoInLockMode flags = true → o.verified = true) :
    Moves (Locking uuid flags (dentryRevalidate flags type o s uuid).2 False) s
      (dentryRevalidate flags type o s uuid).1 := by
  have hverify : ∀ s' ok (audit : Prop), Moves (Locking uuid flags ok audit) s s' →
      Moves (Locking uuid flags (ok && o.verified) False) s s' := by
    intro s' ok audit hmoves
    refine hmoves.mono fun u hlocking => hlocking.imp (fun hmode hok => ?_) False.elim
    rw [hok, hverified hmode]
    rfl
  unfold dentryRevalidate
  cases hfind : s.find uuid with
  | none =>
    refine hverify _ _ _ (nexusVfsLoad_moves h flags type o.load ?_)
    unfold Vfs.SafeLookup at hsafe ⊢
    rw [hfind] at hsafe ⊢
    exact hsafe
  | some m =>
    cases hinst : o.instantiated with
    | false =>
      rw [hinst] at hsafe
      exact hverify _ _ _ (nexusVfsLoad_moves h flags type o.load hsafe)
    | true =>
      unfold Vfs.SafeLookup at hsafe
      rw [hfind] at hsafe
      obtain ⟨hm, rfl⟩ := find_mem hfind
      exact hverify _ _ _
        (nexusVfsRevalidate_moves h hm flags o.load.revalidate (unused_of_rereads hsafe))

end Nexus.Cache
