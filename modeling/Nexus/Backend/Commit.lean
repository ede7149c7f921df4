import Nexus.Backend.Calls

/-!
# The commit of batch mode

The commit goes through all buffers.  A deleted object has no modified buffer, so the loop
and the deletions do not meet.
-/

namespace Nexus.Backend

open List Option

variable {io : Io} {saved : Uuid → Option Contents}

/-! ## The commit -/

section Commit

variable {main batch : Datastore} {gone : Uuid → Prop}

/-- The buffer after it was brought to the main store. -/
def MetadataBuf.synced (buf : MetadataBuf) (syncFileExists : Bool) : MetadataBuf :=
  { buf with
    handle := none
    isDirty := false
    batchModeCreated := false
    batchModeModified := false
    batchFileExists := false
    syncFileExists }

theorem coherent_synced (buf : MetadataBuf) (syncFileExists : Bool) {main batch : Option Bytes}
    {gone : Prop} {contents : Option Contents} (hstored : StoredAs contents main) :
    Coherent main batch gone contents (buf.synced syncFileExists) :=
  ⟨nofun, fun hopened => absurd rfl hopened, nofun, nofun, nofun, nofun, nofun, nofun,
    fun _ _ => hstored⟩

/-- One round of the loop brings a modified buffer to the main store, also if it fails in the
end. -/
theorem syncBuffer_writes (env : SyncEnv) {buf : MetadataBuf}
    (h : Coherent (main buf.uuid) (batch buf.uuid) (gone buf.uuid) (saved buf.uuid) buf)
    (hmodified : buf.batchModeModified = true) (hclosed : buf.handle = none)
    (hwrites : env.Writes main buf) :
    ∃ main' buf' result, syncBuffer env batch main buf = (main', buf', result) ∧ result ≠ .hung ∧
      buf'.uuid = buf.uuid ∧ buf'.batchModeModified = false ∧ (∀ v ≠ buf.uuid, main' v = main v) ∧
      Coherent (main' buf.uuid) (batch buf.uuid) (gone buf.uuid) (saved buf.uuid) buf' := by
  cases hdirty : buf.isDirty with
  | true =>
    rw [SyncEnv.Writes, if_pos hdirty] at hwrites
    obtain ⟨hopened, hwritten, hfile⟩ := hwrites
    have hopens : (env.opened && (buf.batchModeCreated || (main buf.uuid).isSome)) = true := by
      rw [hopened, Bool.true_and, Bool.or_eq_true]
      exact hfile
    refine ⟨(main.put buf.uuid ((main buf.uuid).getD [])).put buf.uuid buf.buffer, buf.synced true,
      if env.flushed && env.closed then .ok else .failed, ?_, ?_, rfl, rfl, ?_,
      coherent_synced buf true ?_⟩
    · cases hresult : env.flushed && env.closed <;>
        simp [syncBuffer, hdirty, syncInMemoryMetadata, hopens, hclosed, hwritten, hresult,
          MetadataBuf.synced]
    · split <;> exact nofun
    · intro v hv
      rw [Datastore.put_of_ne _ hv, Datastore.put_of_ne _ hv]
    · rw [Datastore.put_self, h.inMemory hdirty]
      rfl
  | false =>
    rw [SyncEnv.Writes, if_neg (by rw [hdirty]; exact nofun)] at hwrites
    obtain ⟨bytes, hbytes⟩ := ne_none_iff_exists'.mp (h.copied (h.modified hmodified))
    have hdisk := h.onDisk hmodified hdirty
    refine ⟨main.put buf.uuid bytes, buf.synced buf.syncFileExists, .ok, ?_, nofun, rfl, rfl,
      fun v hv => main.put_of_ne hv bytes, coherent_synced buf buf.syncFileExists ?_⟩
    · simp [syncBuffer, hdirty, syncOnDiskMetadata, hbytes, hwrites, hclosed, MetadataBuf.synced]
    · rw [Datastore.put_self, ← hbytes]
      exact hdisk

/-- What the loop over the buffers does. -/
structure Synced (batch : Datastore) (gone : Uuid → Prop) (saved : Uuid → Option Contents)
    (main : Datastore) (bufs : List MetadataBuf) (main' : Datastore) (bufs' : List MetadataBuf)
    (result : SyncResult) : Prop where
  uuids : bufs'.map (·.uuid) = bufs.map (·.uuid)
  frame : ∀ u, main' u = main u ∨ ∃ buf ∈ bufs, buf.uuid = u ∧ buf.batchModeModified = true
  coherent : ∀ buf ∈ bufs',
    Coherent (main' buf.uuid) (batch buf.uuid) (gone buf.uuid) (saved buf.uuid) buf
  returns : result ≠ .hung
  done : result = .ok → ∀ buf ∈ bufs', buf.batchModeModified = false

theorem Synced.cons {main₁ main' : Datastore} {buf buf₁ : MetadataBuf} {bufs bufs' : List MetadataBuf}
    {result : SyncResult} (h : Synced batch gone saved main₁ bufs main' bufs' result)
    (hfresh : buf.uuid ∉ bufs.map (·.uuid)) (huuid : buf₁.uuid = buf.uuid)
    (hframe : ∀ v, main₁ v = main v ∨ v = buf.uuid ∧ buf.batchModeModified = true)
    (hcoherent : Coherent (main₁ buf.uuid) (batch buf.uuid) (gone buf.uuid) (saved buf.uuid) buf₁)
    (hdone : buf₁.batchModeModified = false) :
    Synced batch gone saved main (buf :: bufs) main' (buf₁ :: bufs') result where
  uuids := by rw [map_cons, map_cons, huuid, h.uuids]
  frame := by
    intro u
    obtain hrest | ⟨b, hb, hu, hmodified⟩ := h.frame u
    · obtain hfirst | ⟨hu, hmodified⟩ := hframe u
      · exact .inl (hrest.trans hfirst)
      · exact .inr ⟨buf, mem_cons_self, hu.symm, hmodified⟩
    · exact .inr ⟨b, mem_cons_of_mem buf hb, hu, hmodified⟩
  coherent := by
    intro b hb
    obtain hb | hb := mem_cons.mp hb
    · -- the later rounds leave the file of the first buffer
      have hkept : main' buf.uuid = main₁ buf.uuid := by
        obtain hrest | ⟨b', hb', hu, -⟩ := h.frame buf.uuid
        · exact hrest
        · exact absurd (mem_map.mpr ⟨b', hb', hu⟩) hfresh
      rw [hb, huuid, hkept]
      exact hcoherent
    · exact h.coherent b hb
  returns := h.returns
  done := by
    intro hok b hb
    obtain hb | hb := mem_cons.mp hb
    · rw [hb]
      exact hdone
    · exact h.done hok b hb

theorem syncLoop_synced (env : Uuid → SyncEnv) (bufs : List MetadataBuf) (main : Datastore)
    (hnodup : (bufs.map (·.uuid)).Nodup)
    (h : ∀ buf ∈ bufs,
      Coherent (main buf.uuid) (batch buf.uuid) (gone buf.uuid) (saved buf.uuid) buf)
    (hcareful : ∀ buf ∈ bufs, buf.batchModeModified = true →
      buf.handle = none ∧ (env buf.uuid).Writes main buf) :
    ∃ main' bufs' result, syncLoop env batch main bufs = (main', bufs', result) ∧
      Synced batch gone saved main bufs main' bufs' result := by
  induction bufs generalizing main with
  | nil => exact ⟨main, [], .ok, rfl, rfl, fun _ => .inl rfl, nofun, nofun, nofun⟩
  | cons buf bufs ih =>
    obtain ⟨hfresh, hnodup⟩ := nodup_cons.mp hnodup
    have hbuf := h buf mem_cons_self
    have hne : ∀ b ∈ bufs, b.uuid ≠ buf.uuid := by
      intro b hb heq
      exact hfresh (mem_map.mpr ⟨b, hb, heq⟩)
    cases hmodified : buf.batchModeModified with
    | false =>
      obtain ⟨main', bufs', result, hloop, hsynced⟩ := ih main hnodup
        (fun b hb => h b (mem_cons_of_mem _ hb))
        (fun b hb => hcareful b (mem_cons_of_mem _ hb))
      refine ⟨main', buf :: bufs', result, ?_, hsynced.cons hfresh rfl (fun _ => .inl rfl) hbuf
        hmodified⟩
      simp [syncLoop, hmodified, hloop]
    | true =>
      obtain ⟨hclosed, hwrites⟩ := hcareful buf mem_cons_self hmodified
      obtain ⟨main₁, buf₁, result₁, hround, hreturns, huuid, hclean, hframe, hcoherent⟩ :=
        syncBuffer_writes (env buf.uuid) hbuf hmodified hclosed hwrites
      have hframe' : ∀ v, main₁ v = main v ∨ v = buf.uuid ∧ buf.batchModeModified = true := by
        intro v
        by_cases hv : v = buf.uuid
        · exact .inr ⟨hv, hmodified⟩
        · exact .inl (hframe v hv)
      have hrest : ∀ b ∈ bufs,
          Coherent (main₁ b.uuid) (batch b.uuid) (gone b.uuid) (saved b.uuid) b := by
        intro b hb
        rw [hframe _ (hne b hb)]
        exact h b (mem_cons_of_mem _ hb)
      cases result₁ with
      | ok =>
        obtain ⟨main', bufs', result, hloop, hsynced⟩ := ih main₁ hnodup hrest (by
          intro b hb hm
          obtain ⟨hclosed', hwrites'⟩ := hcareful b (mem_cons_of_mem _ hb) hm
          refine ⟨hclosed', ?_⟩
          rw [SyncEnv.Writes, hframe _ (hne b hb)]
          exact hwrites')
        refine ⟨main', buf₁ :: bufs', result, ?_, hsynced.cons hfresh huuid hframe' hcoherent hclean⟩
        simp [syncLoop, hmodified, hround, hloop]
      | failed =>
        -- the loop stops, and the rest is as it was
        refine ⟨main₁, buf₁ :: bufs, .failed, ?_, ?_, ?_, ?_, nofun, nofun⟩
        · simp [syncLoop, hmodified, hround]
        · rw [map_cons, map_cons, huuid]
        · intro u
          obtain hu | ⟨hu, -⟩ := hframe' u
          · exact .inl hu
          · exact .inr ⟨buf, mem_cons_self, hu.symm, hmodified⟩
        · intro b hb
          obtain hb | hb := mem_cons.mp hb
          · rw [hb, huuid]
            exact hcoherent
          · exact hrest b hb
      | hung => exact absurd rfl hreturns

end Commit

theorem Io.Inv.stored_or_scheduled (h : io.Inv saved) (u : Uuid) :
    StoredAs (saved u) (io.main u) ∨ io.Scheduled u := by
  by_cases hlive : u ∈ io.deleted
  · exact .inr (.inr hlive)
  cases hfind : bufferManagerFind io u with
  | none => exact .inl (h.rest u hfind hlive)
  | some buf =>
    cases hmodified : buf.batchModeModified with
    | true => exact .inr (.inl ⟨buf, hfind, hmodified⟩)
    | false => exact .inl ((h.buf u buf hfind).unchanged hmodified hlive)

variable {main : Datastore}

theorem Io.Inv.synced (h : io.Inv saved) {table : List MetadataBuf} {result : SyncResult}
    (hsynced : Synced io.batch (· ∈ io.deleted) saved io.main io.table main table result) :
    ({ io with main, table } : Io).Inv saved where
  nodup := by
    show (table.map (·.uuid)).Nodup
    rw [hsynced.uuids]
    exact h.nodup
  gone := h.gone
  buf := by
    intro u buf hfind
    have hcoherent := hsynced.coherent buf (mem_of_find hfind)
    rwa [uuid_of_find hfind] at hcoherent
  rest := by
    intro u hnone hlive
    rw [find_eq_none_iff] at hnone
    have hnone : u ∉ table.map (·.uuid) := hnone
    rw [hsynced.uuids] at hnone
    show StoredAs (saved u) (main u)
    obtain hmain | ⟨buf, hmem, hu, -⟩ := hsynced.frame u
    · rw [hmain]
      exact h.rest u (find_eq_none_iff.mpr hnone) hlive
    · exact absurd (mem_map.mpr ⟨buf, hmem, hu⟩) hnone

/-- Without a modified buffer, and once the deletions are made, the main store has what the
callers were told. -/
theorem Io.Inv.all_stored (h : io.Inv saved)
    (hclean : ∀ buf ∈ io.table, buf.batchModeModified = false)
    (hmain : ∀ u, main u = if u ∈ io.deleted then none else io.main u) (u : Uuid) :
    StoredAs (saved u) (main u) := by
  rw [hmain]
  by_cases hlive : u ∈ io.deleted
  · rw [if_pos hlive, h.gone u hlive]
    rfl
  · rw [if_neg hlive]
    obtain hstored | ⟨buf, hfind, hmodified⟩ | hgone := h.stored_or_scheduled u
    · exact hstored
    · rw [hclean buf (mem_of_find hfind)] at hmodified
      cases hmodified
    · exact absurd hgone hlive

theorem Io.Inv.of_all_stored (h : io.Inv saved) (hstored : ∀ u, StoredAs (saved u) (main u)) :
    ({ io with main, deleted := [] } : Io).Inv saved where
  nodup := h.nodup
  gone := nofun
  buf := fun u buf hfind =>
    { h.buf u buf hfind with
      live := fun _ => not_mem_nil
      unchanged := fun _ _ => hstored u }
  rest := fun u _ _ => hstored u

theorem sync_spec (env : Uuid → SyncEnv) (removed : Uuid → Bool) (h : io.Inv saved)
    (hcareful : (BatchCall.sync env removed).Careful ⟨io, saved⟩) :
    (ioBufferSyncBuffers env removed io).1.Inv saved ∧
      ((ioBufferSyncBuffers env removed io).2 = .ok →
        ∀ u, StoredAs (saved u) ((ioBufferSyncBuffers env removed io).1.main u)) := by
  obtain ⟨hdeleted, hbufs⟩ := hcareful
  dsimp only at hdeleted hbufs
  unfold ioBufferSyncBuffers
  by_cases hempty : io.table = []
  · rw [if_pos hempty]
    refine ⟨h, fun _ => h.all_stored ?_ ?_⟩
    · rw [hempty]
      exact nofun
    · intro u
      split
      · next hgone =>
        obtain hmain | ⟨hne, -⟩ := hdeleted u hgone
        · exact hmain
        · exact absurd hempty hne
      · rfl
  · rw [if_neg hempty]
    obtain ⟨main, table, result, hloop, hsynced⟩ := syncLoop_synced env io.table io.main h.nodup
      (fun buf hmem => h.coherent (find_of_mem h.nodup hmem)) hbufs
    rw [hloop]
    have hinv := h.synced hsynced
    cases result with
    | ok =>
      have hclean := hsynced.done rfl
      have hstored : ∀ u, StoredAs (saved u) (syncDeletedUuids removed main io.deleted u) := by
        refine hinv.all_stored hclean fun u => ?_
        unfold syncDeletedUuids
        by_cases hgone : u ∈ io.deleted
        · -- a deleted object has no modified buffer, so the loop left it
          have hkept : main u = io.main u := by
            obtain hmain | ⟨buf, hmem, hu, hmodified⟩ := hsynced.frame u
            · exact hmain
            · refine absurd hgone ?_
              rw [← hu]
              exact (h.coherent (find_of_mem h.nodup hmem)).live hmodified
          obtain hmain | ⟨-, hremoved⟩ := hdeleted u hgone
          · simp [hgone, hkept, hmain]
          · simp [hgone, hremoved]
        · simp [hgone]
      exact ⟨hinv.of_all_stored hstored, fun _ => hstored⟩
    | failed => exact ⟨hinv, nofun⟩
    | hung => exact absurd rfl hsynced.returns

/-! ## Runs -/

theorem inv_start (hstart : io.Started) : io.Inv (BatchSession.start io).saved := by
  have hsame : ∀ u, StoredAs ((io.main u).map .file) (io.main u) := by
    intro u
    cases io.main u <;> rfl
  refine ⟨hstart.nodup, ?_, ?_, fun u _ _ => hsame u⟩
  · rw [hstart.deleted]
    exact nofun
  · intro u buf hfind
    obtain ⟨hhandle, hdirty, hcreated, hmodified, hfile⟩ := hstart.table buf (mem_of_find hfind)
    constructor <;> simp [hhandle, hdirty, hcreated, hmodified, hfile]
    exact fun _ => hsame u

theorem inv_step (s : BatchSession) (call : BatchCall) (h : s.io.Inv s.saved)
    (hcareful : call.Careful s) : (s.step call).io.Inv (s.step call).saved := by
  unfold BatchSession.step
  split
  · exact h
  cases call with
  | new touched uuid => exact inv_ioBufferNew touched h hcareful
  | lock env uuid flags => exact inv_ioBufferLock env uuid flags h
  | unlock uuid closed => exact inv_ioBufferUnlock closed h hcareful
  | get env uuid flags => exact inv_ioBufferGet env uuid flags h
  | put env uuid buffer dataSize =>
    exact inv_ioBufferPut env buffer dataSize h hcareful
  | del unlinked uuid => exact inv_ioBufferDel unlinked h hcareful
  | sync env removed => exact (sync_spec env removed h hcareful).1

theorem faithful_of_careful (s : BatchSession) (call : BatchCall) (h : s.io.Inv s.saved)
    (hcareful : call.Careful s) : call.Faithful s := by
  cases call with
  | sync env removed =>
    obtain ⟨hinv, hstored⟩ := sync_spec env removed h hcareful
    exact fun _ _ => ⟨hstored, fun _ => hinv.stored_or_scheduled⟩
  | _ => trivial

/-- In every session whose calls keep track of the objects, each commit is faithful. -/
theorem commit_faithful (io : Io) (hstart : io.Started) (calls : List BatchCall)
    (hcareful : Runs.Meets BatchSession.step (fun s call => call.Careful s) (.start io) calls) :
    Runs.Meets BatchSession.step (fun s call => call.Faithful s) (.start io) calls :=
  Runs.meets_of_meets (P := fun s => s.io.Inv s.saved) inv_step faithful_of_careful
    (inv_start hstart) hcareful

/-! ## Examples -/

/-- A main store with one object. -/
def exampleIo : Io where
  main := fun u => if u = 1 then some [1] else none
  batch := fun _ => none
  table := []
  deleted := []
  hung := false

/-- Everything succeeds. -/
def openedEnv : OpenEnv := ⟨true, true⟩

def writeFlags : OpenFlags := ⟨nexusFwrite, false⟩

def syncedEnv : SyncEnv := ⟨true, true, true, true, true⟩

/-- Two objects are changed, one of them is new; after the commit the first is deleted. -/
def carefulCalls : List BatchCall :=
  [.lock openedEnv 1 writeFlags, .put ⟨true, true⟩ 1 [2] 0, .new true 5,
    .lock openedEnv 5 ⟨nexusFwrite, true⟩, .put ⟨true, true⟩ 5 [7] 3,
    .sync (fun _ => syncedEnv) fun _ => true,
    .lock openedEnv 1 writeFlags, .unlock 1 true, .del true 1, .sync (fun _ => syncedEnv) fun _ => true]

theorem started_exampleIo : exampleIo.Started := ⟨rfl, rfl, nodup_nil, nofun⟩

theorem carefulCalls_faithful :
    Runs.Meets BatchSession.step (fun s call => call.Faithful s) (.start exampleIo) carefulCalls :=
  commit_faithful exampleIo started_exampleIo carefulCalls (by decide +kernel)

/-- A put is lost when the object is locked and unlocked afterwards, and an object that was
created and committed stays in the main store when it is deleted. -/
theorem unlock_loses_put_and_commit_hides_object :
    (let s := [BatchCall.lock openedEnv 1 writeFlags, .put ⟨true, true⟩ 1 [2] 0,
        .lock openedEnv 1 writeFlags, .unlock 1 true].foldl BatchSession.step (.start exampleIo)
      let commit := ioBufferSyncBuffers (fun _ => syncedEnv) (fun _ => true) s.io
      s.io.hung = false ∧ s.saved 1 = some (.file [2]) ∧ commit.2 = .ok ∧
        commit.1.main 1 = some [1]) ∧
    (let s := [BatchCall.new true 5, .sync (fun _ => syncedEnv) (fun _ => true),
        .del true 5].foldl BatchSession.step (.start { exampleIo with table := [allocMetadataBuf 1] })
      let commit := ioBufferSyncBuffers (fun _ => syncedEnv) (fun _ => true) s.io
      s.io.hung = false ∧ s.saved 5 = none ∧ commit.2 = .ok ∧ commit.1.main 5 = some []) := by
  decide +kernel

end Nexus.Backend
