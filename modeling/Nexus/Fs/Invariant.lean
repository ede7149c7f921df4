import Nexus.Dirnode.Authentic
import Nexus.Fs.View

/-!
# The invariant of a mounted volume

Every stored directory was written by `dirnode_store`, and every valid copy of
a directory in the enclave can be stored on top of what the datastore holds of
it.
-/

open Function

namespace Nexus

/-- A dirnode that can be stored over what is stored of it. -/
structure Dirnode.Tracks (d : Dirnode) (stored : StoredDirnode) : Prop where
  storable : d.Storable
  synced : BucketsSynced stored.buckets (d.bucketList.drop 1)

theorem Dirnode.Tracks.of_edits {d d' : Dirnode} {stored : StoredDirnode} {n : Nat}
    (h : d.Tracks stored) (hedits : Edits n d d') (hsound : d'.Sound)
    (hroom : d.bucketCount + n ≤ 65535) : d'.Tracks stored :=
  ⟨⟨hsound, hedits.bucketCount.trans hroom⟩, h.synced.of_bucketsFrom hedits.bucketsFrom⟩

theorem dirnodeCreate_tracks (rootUuid myUuid bucket0 : Uuid) (stored : StoredDirnode) :
    (dirnodeCreate rootUuid myUuid bucket0).Tracks stored where
  storable := ⟨dirnodeCreate_sound rootUuid myUuid bucket0, by simp [dirnodeCreate]⟩
  synced := by simp [BucketsSynced, dirnodeCreate]

section Operations

variable {d src dst : Dirnode} {stored stored' : StoredDirnode} {fresh : Uuid}

theorem Dirnode.Tracks.findByName (h : d.Tracks stored) (name : Name) :
    (findByName d name).1.Tracks stored :=
  h.of_edits ((Edit.look d name).edits 0)
    (h.storable.toSound.of_sameTables (findByName_wf h.storable.wf name)
      (findByName_sameTables d name)) h.storable.bucketCount

theorem Dirnode.Tracks.delDirentry (h : d.Tracks stored) {e : DirEntry} (he : e ∈ d.dirents) :
    (dirnodeDelDirentry d e).Tracks stored :=
  h.of_edits ((Edit.del he).edits 0)
    (h.storable.toSound.of_sameTables (dirnodeDelDirentry_wf h.storable.wf he)
      (dirnodeDelDirentry_sameTables d e)) h.storable.bucketCount

section

variable (h : d.Tracks stored) (hroom : d.bucketCount < 65535)
include h hroom

theorem Dirnode.Tracks.add (name : Name) (type : DirentType) (uuid : Uuid)
    (hfresh : fresh ∉ d.bucketList.map Bucket.uuid) :
    (dirnodeAdd d name type uuid fresh).1.Tracks stored :=
  h.of_edits (dirnodeAdd_edits h.storable.wf.coherent name type uuid fresh)
    (dirnodeAdd_sound h.storable.toSound name type uuid hfresh) hroom

theorem Dirnode.Tracks.addLink (name : Name) {target : Bytes} (uuid : Uuid)
    (hfresh : fresh ∉ d.bucketList.map Bucket.uuid) (hfits : SymlinkFits d target) :
    (dirnodeAddLink d name target uuid fresh).1.Tracks stored :=
  h.of_edits (dirnodeAddLink_edits h.storable.wf.coherent name target uuid fresh)
    (dirnodeAddLink_sound h.storable.toSound name uuid hfresh hfits) hroom

theorem Dirnode.Tracks.renameWithin (oldname newname : Name)
    (hfresh : fresh ∉ d.bucketList.map Bucket.uuid) :
    (dirnodeRenameWithin d oldname newname fresh).1.Tracks stored :=
  h.of_edits (dirnodeRenameWithin_edits h.storable.wf.coherent oldname newname fresh)
    (dirnodeRenameWithin_sound h.storable.toSound oldname newname hfresh) hroom

end

theorem Dirnode.Tracks.renameAcross (hsrc : src.Tracks stored) (hdst : dst.Tracks stored')
    (hroom : dst.bucketCount < 65535) {oldname : Name} (newname : Name)
    (hfresh : fresh ∉ dst.bucketList.map Bucket.uuid) (hfits : RenameFits src dst oldname) :
    (dirnodeRenameAcross src dst oldname newname fresh).1.Tracks stored ∧
      (dirnodeRenameAcross src dst oldname newname fresh).2.1.Tracks stored' := by
  have hsound := dirnodeRenameAcross_sound hsrc.storable.toSound hdst.storable.toSound newname
    hfresh hfits
  have hedits := dirnodeRenameAcross_edits hsrc.storable.wf.coherent hdst.storable.wf.coherent
    oldname newname fresh
  exact ⟨hsrc.of_edits hedits.1 hsound.1 hsrc.storable.bucketCount,
    hdst.of_edits hedits.2 hsound.2 hroom⟩

end Operations

theorem StoredDirnode.Authentic.tracks {stored : StoredDirnode} {d d' : Dirnode}
    (h : stored.Authentic d) (hload : dirnodeLoad stored = some d') : d'.Tracks stored := by
  obtain ⟨hintact, rfl⟩ := h.load_iff.mp hload
  exact ⟨h.storable.reloaded, hintact.synced⟩

namespace Fs

variable {s s' : Fs} {o : Outcome} {uuid dir : Uuid}

structure Sane (s : Fs) : Prop where
  stored : ∀ uuid stored, s.objects uuid = some (.dirnode stored) → ∃ d, stored.Authentic d
  cached : ∀ uuid n, s.dirnodes uuid = some n → n.isInvalid = false →
    n.object.Tracks (s.storedDirnode uuid)

theorem Sane.readDirnode (h : s.Sane) {bucket0 : Uuid → Uuid} {d : Dirnode}
    (hread : s.readDirnode bucket0 uuid = some d) : d.Tracks (s.storedDirnode uuid) := by
  unfold Fs.readDirnode at hread
  unfold storedDirnode
  split at hread
  · cases hread
    exact dirnodeCreate_tracks ..
  next stored hobject =>
    obtain ⟨d₀, hd₀⟩ := h.stored uuid stored hobject
    simp only [hobject]
    exact hd₀.tracks hread
  · contradiction

theorem dirNode_cases {bucket0 : Uuid → Uuid} {n : Node Dirnode}
    (hnode : s.dirNode bucket0 uuid = some n) :
    (∃ d, s.readDirnode bucket0 uuid = some d ∧ n = .clean d) ∨
      s.dirnodes uuid = some n ∧ n.isInvalid = false := by
  unfold Fs.dirNode readNode at hnode
  grind [Option.map_eq_some_iff]

theorem Sane.dirNode (h : s.Sane) {bucket0 : Uuid → Uuid} {n : Node Dirnode}
    (hnode : s.dirNode bucket0 uuid = some n) : n.object.Tracks (s.storedDirnode uuid) := by
  rcases dirNode_cases hnode with ⟨d, hread, rfl⟩ | ⟨hn, hvalid⟩
  · exact h.readDirnode hread
  · exact h.cached uuid n hn hvalid

/-! ## The steps of a call -/

/-- Only directories matter. -/
theorem Sane.of_eq (h : s.Sane) (hobjects : s'.objects = s.objects)
    (hdirnodes : s'.dirnodes = s.dirnodes) : s'.Sane where
  stored uuid stored hstored := h.stored uuid stored (hobjects ▸ hstored)
  cached uuid n hn hvalid := by
    rw [hdirnodes] at hn
    rw [storedDirnode, hobjects]
    exact h.cached uuid n hn hvalid

theorem Sane.cache (h : s.Sane) {n : Node Dirnode} (hn : n.object.Tracks (s.storedDirnode uuid)) :
    Sane { s with dirnodes := update s.dirnodes uuid (some n) } where
  stored := h.stored
  cached v m hm hvalid := by
    by_cases hv : v = uuid
    · subst hv
      simp only [update_self, Option.some.injEq] at hm
      exact hm ▸ hn
    · simp only [update_of_ne hv] at hm
      exact h.cached v m hm hvalid

theorem Sane.mapDirnode (h : s.Sane) {f : Node Dirnode → Node Dirnode}
    (hd : ∀ n, s.dirnodes uuid = some n → (f n).object.Tracks (s.storedDirnode uuid)) :
    Sane { s with dirnodes := update s.dirnodes uuid ((s.dirnodes uuid).map f) } := by
  cases hn : s.dirnodes uuid with
  | none =>
    refine h.of_eq rfl ?_
    rw [Option.map_none, ← hn]
    exact update_eq_self ..
  | some n => exact h.cache (hd n hn)

theorem Sane.modifyDirnode (h : s.Sane) {d : Dirnode}
    (hd : ∀ n, s.dirnodes uuid = some n → d.Tracks (s.storedDirnode uuid)) :
    (s.modifyDirnode uuid d).Sane :=
  h.mapDirnode hd

theorem Sane.setDirnode (h : s.Sane) {d : Dirnode}
    (hd : ∀ n, s.dirnodes uuid = some n → d.Tracks (s.storedDirnode uuid)) :
    (s.setDirnode uuid d).Sane :=
  h.mapDirnode hd

theorem storedDirnode_of_object {stored : StoredDirnode}
    (h : s.objects uuid = some (.dirnode stored)) : s.storedDirnode uuid = stored := by
  simp only [storedDirnode, h]

theorem storedDirnode_congr (h : s'.objects uuid = s.objects uuid) :
    s'.storedDirnode uuid = s.storedDirnode uuid := by
  simp only [storedDirnode, h]

/-- No mac that a stored directory records is generated again. -/
def FreshMacs (s : Fs) (o : Outcome) (uuid : Uuid) : Prop :=
  ∀ stored d, s.objects uuid = some (.dirnode stored) → stored.Authentic d →
    (o.store uuid).FreshMacs d

theorem Sane.of_frame (h : s.Sane)
    (hobjects : ∀ v, v ≠ uuid → s'.objects v = s.objects v)
    (hdirnodes : ∀ v, v ≠ uuid → s'.dirnodes v = s.dirnodes v)
    (hstored : ∀ stored, s'.objects uuid = some (.dirnode stored) → ∃ d, stored.Authentic d)
    (hcached : ∀ n, s'.dirnodes uuid = some n → n.isInvalid = false →
      n.object.Tracks (s'.storedDirnode uuid)) : s'.Sane where
  stored v stored hv := by
    by_cases hvu : v = uuid
    · subst hvu
      exact hstored stored hv
    · exact h.stored v stored (hobjects v hvu ▸ hv)
  cached v n hn hvalid := by
    by_cases hvu : v = uuid
    · subst hvu
      exact hcached n hn hvalid
    · rw [hdirnodes v hvu] at hn
      rw [storedDirnode_congr (hobjects v hvu)]
      exact h.cached v n hn hvalid

theorem Sane.storeDirnode (h : s.Sane) (hmacs : s.FreshMacs o uuid)
    (hvalid : ∀ n, s.dirnodes uuid = some n → n.isInvalid = false) :
    (s.storeDirnode o uuid).1.Sane := by
  cases hn : s.dirnodes uuid with
  | none =>
    simp only [Fs.storeDirnode, hn]
    exact h
  | some n =>
    have htracks := h.cached uuid n hn (hvalid n hn)
    by_cases hdirty : n.isDirty = true
    · have hframe (v : Uuid) (hv : v ≠ uuid) := storeDirnode_frame s o hv
      cases hok : (s.storeResult o uuid n.object).2.2 with
      | true =>
        have heq := storeDirnode_of_ok hn hdirty hok
        have hauth := dirnodeStore_authentic htracks.storable htracks.synced hok
        refine h.of_frame (fun v hv => (hframe v hv).1) (fun v hv => (hframe v hv).2) ?_ ?_
        · intro stored hstored
          simp only [heq, update_self, Option.some.injEq, Object.dirnode.injEq] at hstored
          rw [← hstored]
          exact ⟨_, hauth.1⟩
        · intro m hm _
          simp only [heq, update_self, Option.some.injEq] at hm
          rw [storedDirnode_of_object (by rw [heq]; exact update_self ..), ← hm]
          exact ⟨hauth.1.storable, fun b hb _ => hauth.2 b hb⟩
      | false =>
        have heq := storeDirnode_of_failed hn hdirty hok
        refine h.of_frame (fun v hv => (hframe v hv).1) (fun v hv => (hframe v hv).2) ?_ ?_
        · intro stored hstored
          rw [heq] at hstored
          dsimp only at hstored
          rcases objectsOfFailed_cases s uuid (s.storeResult o uuid n.object).2.1 with
            ⟨old, hold, hobjects⟩ | ⟨hnone, hobjects⟩
          · rw [hobjects, update_self, Option.some.injEq, Object.dirnode.injEq] at hstored
            obtain ⟨d₀, hd₀⟩ := h.stored uuid old hold
            rw [← hstored]
            refine ⟨d₀, ?_⟩
            rw [storeResult, storedDirnode_of_object hold] at hok ⊢
            exact hd₀.of_failed (hmacs old d₀ hold hd₀) htracks.storable.wf.hasBucket hok
          · rw [hobjects] at hstored
            exact absurd hstored (hnone stored)
        · intro m hm hmvalid
          simp only [heq, update_self, Option.some.injEq] at hm
          simp [← hm] at hmvalid
    · have heq : s.storeDirnode o uuid = (s, true) := by simp [Fs.storeDirnode, hn, hdirty]
      rw [heq]
      exact h

theorem delete_objects (s : Fs) (o : Outcome) {v : Uuid} (hv : v ≠ uuid) :
    (s.delete o uuid).objects v = s.objects v := by
  unfold delete
  dsimp only
  split
  · exact update_of_ne hv ..
  · rfl

theorem Sane.delete (h : s.Sane) (o : Outcome) (uuid : Uuid) : (s.delete o uuid).Sane := by
  refine h.of_frame (fun v (hv : v ≠ uuid) => delete_objects s o hv)
    (fun v hv => update_of_ne hv ..) ?_ ?_
  · intro stored hstored
    unfold Fs.delete at hstored
    dsimp only at hstored
    split at hstored
    · simp at hstored
    · exact h.stored uuid stored hstored
  · intro n hn
    simp [Fs.delete] at hn

theorem Sane.newObject (h : s.Sane) (hfresh : s.objects uuid = none) (type : DirentType) :
    (s.withObject uuid type).Sane := by
  refine h.of_frame (fun v (hv : v ≠ uuid) => update_of_ne hv ..) (fun _ _ => rfl) ?_ ?_
  · intro stored hstored
    simp only [Fs.withObject, update_self, Option.some.injEq, reduceCtorEq] at hstored
  · intro n hn hvalid
    have htracks := h.cached uuid n hn hvalid
    simp only [storedDirnode, hfresh] at htracks
    simp only [storedDirnode, Fs.withObject, update_self]
    exact htracks

/-! ## A new volume -/

theorem nxCreateVolume_state {so : StoreOutcome} {rootUuid bucket0 : Uuid}
    (h : nxCreateVolume so rootUuid bucket0 = some s) :
    s.rootUuid = rootUuid ∧ (∀ v, v ≠ rootUuid → s.objects v = none) ∧
      (∀ v, s.dirnodes v = none) ∧ s.table = none ∧ s.storedTable = HardlinkTable.create := by
  unfold nxCreateVolume at h
  split at h
  · contradiction
  · cases h
    refine ⟨rfl, ?_, fun _ => rfl, rfl, rfl⟩
    intro v hv
    simp only [update_of_ne hv]

theorem nxCreateVolume_sane {so : StoreOutcome} {rootUuid bucket0 : Uuid}
    (h : nxCreateVolume so rootUuid bucket0 = some s) : s.Sane := by
  unfold nxCreateVolume at h
  have htracks := dirnodeCreate_tracks rootUuid rootUuid bucket0
    { main := [], buckets := fun _ => none }
  split at h
  · contradiction
  next d' stored hstore =>
  cases h
  have hauth := dirnodeStore_authentic htracks.storable htracks.synced (o := so)
    (by rw [hstore])
  rw [hstore] at hauth
  refine ⟨?_, by simp⟩
  intro uuid stored' hobject
  simp only [update_apply] at hobject
  split at hobject
  · cases hobject
    exact ⟨d', hauth.1⟩
  · contradiction

end Fs

/-- A store in which nothing fails. -/
def StoreOutcome.smooth : StoreOutcome where
  macversion := some ⟨0, 0⟩
  bucketStore := fun _ => true
  bucketMac := fun _ => 0
  bucketDelete := fun _ => true
  put := true

/-- A call in which nothing fails, with the uuids that it generates. -/
def Outcome.smooth (entryUuid bucketUuid : Uuid) : Outcome where
  granted := true
  getFirst := true
  getSecond := true
  bucket0 := id
  entryUuid
  bucketUuid
  bufferNew := true
  bufferDel := true
  tableAcquire := true
  tableFlush := true
  store := fun _ => .smooth
  leaves := fun _ => false
  defers := fun _ => false
  fileLeft := false
  fileUnlock := true
  filePut := true
  fileCryptoNew := true
  chunk := fun _ => { key := 0, iv := 0, mac := 0 }

/-- A new volume with the root directory 1. -/
def newVolume : Fs := (Fs.nxCreateVolume .smooth 1 2).get rfl

theorem nxCreateVolume_newVolume : Fs.nxCreateVolume .smooth 1 2 = some newVolume :=
  (Option.some_get _).symm

theorem newVolume_sane : newVolume.Sane := Fs.nxCreateVolume_sane nxCreateVolume_newVolume

end Nexus
