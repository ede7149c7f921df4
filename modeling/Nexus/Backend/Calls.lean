import Nexus.Backend.Sessions

/-!
# The calls of batch mode

Every call changes the buffer and the files of one uuid.  A careful call keeps every object
where its buffer says, or in the main store.
-/

namespace Nexus.Backend

open List Option

/-! ## Opening a file -/

/-- The object of the buffer stays coherent, and nothing else changes. -/
structure Keeps (main batch : Datastore) (gone : Prop) (saved : Option Contents)
    (buf : MetadataBuf) (batch' : Datastore) (buf' : MetadataBuf) : Prop where
  coherent : Coherent (main buf.uuid) (batch' buf.uuid) gone saved buf'
  uuid : buf'.uuid = buf.uuid
  dirty : buf'.isDirty = buf.isDirty
  frame : ∀ v ≠ buf.uuid, batch' v = batch v

section Opening

variable {main batch : Datastore} {gone : Prop} {saved : Option Contents} {buf : MetadataBuf}

theorem keeps_refl (h : Coherent (main buf.uuid) (batch buf.uuid) gone saved buf) :
    Keeps main batch gone saved buf batch buf :=
  ⟨h, rfl, rfl, fun _ _ => rfl⟩

theorem keeps_copyToBatch (copied : Bool)
    (h : Coherent (main buf.uuid) (batch buf.uuid) gone saved buf) :
    Keeps main batch gone saved buf (copyToBatch copied main batch buf).1
        (copyToBatch copied main batch buf).2.1 ∧
      ((copyToBatch copied main batch buf).2.2 = true →
        (copyToBatch copied main batch buf).2.1.batchFileExists = true) := by
  unfold copyToBatch
  split
  · next hexists => exact ⟨keeps_refl h, fun _ => hexists⟩
  · next hmissing =>
    have hmissing := Bool.eq_false_iff.mpr hmissing
    split
    · exact ⟨keeps_refl h, nofun⟩
    · next bytes _ =>
      split
      · refine ⟨⟨?_, rfl, rfl, fun v hv => batch.put_of_ne hv bytes⟩, fun _ => rfl⟩
        dsimp only
        rw [Datastore.put_self]
        exact h.copy hmissing bytes
      · exact ⟨keeps_refl h, nofun⟩

theorem keeps_openBatchFile (opened : Bool) (flags : OpenFlags)
    (h : Coherent (main buf.uuid) (batch buf.uuid) gone saved buf)
    (hexists : flags.fcreate = true ∨ buf.batchFileExists = true) :
    Keeps main batch gone saved buf (openBatchFile opened batch buf flags).1
      (openBatchFile opened batch buf flags).2.1 := by
  unfold openBatchFile
  split
  · refine ⟨?_, rfl, rfl, fun v hv => batch.put_of_ne hv _⟩
    dsimp only
    rw [Datastore.put_self]
    exact h.openBatch flags hexists
  · exact keeps_refl h

theorem keeps_openMetadataFile (env : OpenEnv) (flags : OpenFlags)
    (h : Coherent (main buf.uuid) (batch buf.uuid) gone saved buf) :
    Keeps main batch gone saved buf (openMetadataFile env main batch buf flags).1
      (openMetadataFile env main batch buf flags).2.1 := by
  by_cases hcreate : (flags.fcreate || buf.batchModeCreated) = true
  · rw [openMetadataFile, if_pos hcreate]
    refine keeps_openBatchFile env.opened flags h ?_
    rw [Bool.or_eq_true] at hcreate
    exact hcreate.imp_right h.created
  · rw [openMetadataFile, if_neg hcreate]
    obtain ⟨hkeeps, hexists⟩ := keeps_copyToBatch env.copied h
    generalize copyToBatch env.copied main batch buf = copy at hkeeps hexists
    obtain ⟨batch', buf', copied⟩ := copy
    dsimp only at hkeeps hexists ⊢
    cases copied with
    | false => exact hkeeps
    | true =>
      have hcoherent := hkeeps.coherent
      rw [← hkeeps.uuid] at hcoherent
      have hopen := keeps_openBatchFile env.opened flags hcoherent (.inr (hexists rfl))
      rw [if_pos rfl]
      refine ⟨?_, hopen.uuid.trans hkeeps.uuid, hopen.dirty.trans hkeeps.dirty, fun v hv => ?_⟩
      · rw [← hkeeps.uuid]
        exact hopen.coherent
      · rw [hopen.frame v (by rwa [hkeeps.uuid]), hkeeps.frame v hv]

end Opening

/-! ## Changing one object -/

variable {io : Io} {saved saved' : Uuid → Option Contents} {uuid : Uuid}

/-- The buffers and files of other objects are as they were. -/
structure SameElsewhere (uuid : Uuid) (io : Io) (saved : Uuid → Option Contents) (io' : Io)
    (saved' : Uuid → Option Contents) : Prop where
  main : ∀ v ≠ uuid, io'.main v = io.main v
  batch : ∀ v ≠ uuid, io'.batch v = io.batch v
  deleted : ∀ v ≠ uuid, v ∈ io'.deleted ↔ v ∈ io.deleted
  find : ∀ v ≠ uuid, bufferManagerFind io' v = bufferManagerFind io v
  saved : ∀ v ≠ uuid, saved' v = saved v

theorem Io.Inv.of_sameElsewhere (h : io.Inv saved) (uuid : Uuid) {io' : Io}
    (hsame : SameElsewhere uuid io saved io' saved')
    (hnodup : (io'.table.map (·.uuid)).Nodup)
    (hgone : uuid ∈ io'.deleted → saved' uuid = none)
    (hbuf : ∀ buf, bufferManagerFind io' uuid = some buf →
      Coherent (io'.main uuid) (io'.batch uuid) (uuid ∈ io'.deleted) (saved' uuid) buf)
    (hrest : bufferManagerFind io' uuid = none → uuid ∉ io'.deleted →
      StoredAs (saved' uuid) (io'.main uuid)) : io'.Inv saved' where
  nodup := hnodup
  gone := by
    intro v hv
    by_cases huuid : v = uuid
    · rw [huuid] at hv ⊢
      exact hgone hv
    · rw [hsame.saved v huuid]
      exact h.gone v ((hsame.deleted v huuid).mp hv)
  buf := by
    intro v buf hfind
    by_cases huuid : v = uuid
    · rw [huuid] at hfind ⊢
      exact hbuf buf hfind
    · rw [hsame.find v huuid] at hfind
      rw [hsame.main v huuid, hsame.batch v huuid, hsame.saved v huuid,
        propext (hsame.deleted v huuid)]
      exact h.buf v buf hfind
  rest := by
    intro v hfind hdeleted
    by_cases huuid : v = uuid
    · rw [huuid] at hfind hdeleted ⊢
      exact hrest hfind hdeleted
    · rw [hsame.find v huuid] at hfind
      rw [hsame.main v huuid, hsame.saved v huuid]
      exact h.rest v hfind (mt (hsame.deleted v huuid).mpr hdeleted)

variable {batch : Datastore} {buf : MetadataBuf}

section

variable (h : io.Inv saved) (hframe : ∀ v ≠ buf.uuid, batch v = io.batch v)
  (hsaved : ∀ v ≠ buf.uuid, saved' v = saved v)
  (hgone : buf.uuid ∈ io.deleted → saved' buf.uuid = none)
  (hcoherent : Coherent (io.main buf.uuid) (batch buf.uuid) (buf.uuid ∈ io.deleted)
    (saved' buf.uuid) buf)
include h hframe hsaved hgone hcoherent

theorem Io.Inv.set {table : List MetadataBuf}
    (hself : bufferManagerFind { io with batch, table } buf.uuid = some buf)
    (hother : ∀ v ≠ buf.uuid,
      bufferManagerFind { io with batch, table } v = bufferManagerFind io v)
    (hnodup : (table.map (·.uuid)).Nodup) : ({ io with batch, table } : Io).Inv saved' := by
  refine h.of_sameElsewhere buf.uuid ⟨fun _ _ => rfl, hframe, fun _ _ => Iff.rfl, hother, hsaved⟩
    hnodup hgone ?_ ?_
  · intro buf' hfind'
    rw [hself] at hfind'
    cases hfind'
    exact hcoherent
  · intro hnone
    rw [hself] at hnone
    cases hnone

/-- The buffer of an object changes, its batch file and what was told of it. -/
theorem Io.Inv.update (hfind : bufferManagerFind io buf.uuid ≠ none) :
    (updateBuf { io with batch } buf).Inv saved' := by
  obtain ⟨old, hold⟩ := ne_none_iff_exists'.mp hfind
  refine h.set hframe hsaved hgone hcoherent ?_ (fun v hv => ?_) ?_
  · refine (find_updateBuf { io with batch } buf buf.uuid).trans ?_
    rw [if_pos rfl]
    show (bufferManagerFind io buf.uuid).map (fun _ => buf) = some buf
    rw [hold, map_some]
  · exact (find_updateBuf { io with batch } buf v).trans (if_neg hv)
  · exact (map_uuid_updateBuf { io with batch } buf).symm ▸ h.nodup

theorem Io.Inv.add : (bufferManagerAdd { io with batch } buf).Inv saved' := by
  refine h.set hframe hsaved hgone hcoherent ?_ (fun v hv => ?_) ?_
  · exact (find_bufferManagerAdd { io with batch } buf buf.uuid).trans (if_pos rfl)
  · exact (find_bufferManagerAdd { io with batch } buf v).trans (if_neg hv)
  · exact nodup_bufferManagerAdd h.nodup buf

end

variable {buf' : MetadataBuf}

theorem Io.Inv.update_keeps (h : io.Inv saved) (hfind : bufferManagerFind io buf.uuid ≠ none)
    (hkeeps : Keeps io.main io.batch (buf.uuid ∈ io.deleted) (saved buf.uuid) buf batch buf') :
    (updateBuf { io with batch } buf').Inv saved := by
  have hcoherent := hkeeps.coherent
  rw [← hkeeps.uuid] at hcoherent hfind
  refine h.update (fun v hv => ?_) (fun _ _ => rfl) (h.gone _) hcoherent hfind
  rw [hkeeps.uuid] at hv
  exact hkeeps.frame v hv

/-! ## The calls keep the invariant -/

variable {gone : Prop}

theorem Io.Inv.coherent (h : io.Inv saved) (hfind : bufferManagerFind io uuid = some buf) :
    Coherent (io.main buf.uuid) (io.batch buf.uuid) (buf.uuid ∈ io.deleted) (saved buf.uuid) buf := by
  rw [uuid_of_find hfind]
  exact h.buf uuid buf hfind

theorem find_uuid_ne_none (hfind : bufferManagerFind io uuid = some buf) :
    bufferManagerFind io buf.uuid ≠ none := by
  rw [uuid_of_find hfind, hfind]
  exact nofun

theorem Io.Inv.alloc (h : io.Inv saved) (hnone : bufferManagerFind io uuid = none) :
    Coherent (io.main uuid) (io.batch uuid) (uuid ∈ io.deleted) (saved uuid)
      (allocMetadataBuf uuid) :=
  coherent_alloc uuid (h.rest uuid hnone)

theorem inv_hung (h : io.Inv saved) : ({ io with hung := true } : Io).Inv saved :=
  ⟨h.nodup, h.gone, h.buf, h.rest⟩

theorem inv_lockBuf (env : OpenEnv) (flags : OpenFlags) (h : io.Inv saved)
    (hfind : bufferManagerFind io uuid = some buf) :
    (ioBufferLock env io uuid flags).1.Inv saved := by
  unfold ioBufferLock
  rw [hfind]
  dsimp only
  split
  · split
    · exact h
    · split
      · exact inv_hung h
      · exact h
  · exact h.update_keeps (find_uuid_ne_none hfind)
      (keeps_openMetadataFile env flags (h.coherent hfind))

theorem inv_ioBufferLock (env : OpenEnv) (uuid : Uuid) (flags : OpenFlags) (h : io.Inv saved) :
    (ioBufferLock env io uuid flags).1.Inv saved := by
  cases hfind : bufferManagerFind io uuid with
  | some buf => exact inv_lockBuf env flags h hfind
  | none =>
    -- as if the buffer had been in the table
    have hadd : (bufferManagerAdd io (allocMetadataBuf uuid)).Inv saved :=
      h.add (fun _ _ => rfl) (fun _ _ => rfl) (h.gone uuid) (h.alloc hfind)
    have hadded : bufferManagerFind (bufferManagerAdd io (allocMetadataBuf uuid)) uuid =
        some (allocMetadataBuf uuid) := by
      rw [find_bufferManagerAdd]
      exact if_pos rfl
    have hlocked := inv_lockBuf env flags hadd hadded
    have heq : ioBufferLock env io uuid flags =
        ioBufferLock env (bufferManagerAdd io (allocMetadataBuf uuid)) uuid flags := by
      unfold ioBufferLock
      rw [hfind, find_bufferManagerAdd, show (allocMetadataBuf uuid).uuid = uuid from rfl, if_pos rfl]
    rw [heq]
    exact hlocked

@[simp] theorem uuid_releaseMetadataBuf (buf : MetadataBuf) :
    (releaseMetadataBuf buf).uuid = buf.uuid := by
  unfold releaseMetadataBuf
  split <;> rfl

theorem Io.Inv.release (h : io.Inv saved) (hfind : bufferManagerFind io uuid = some buf)
    (hclean : buf.handle ≠ none → buf.isDirty = false) :
    (updateBuf io (releaseMetadataBuf buf)).Inv saved := by
  refine h.update (fun _ _ => rfl) (fun _ _ => rfl) (h.gone _) ?_ ?_ <;>
    rw [uuid_releaseMetadataBuf]
  · exact (h.coherent hfind).release hclean
  · exact find_uuid_ne_none hfind

theorem inv_ioBufferUnlock (closed : Bool) (h : io.Inv saved)
    (hcareful : (BatchCall.unlock uuid closed).Careful ⟨io, saved⟩) :
    (ioBufferUnlock io uuid closed).1.Inv saved := by
  unfold ioBufferUnlock
  split
  · exact h
  · next buf hfind => exact h.release hfind (hcareful buf hfind)

/-- Closing a file that was opened to read a clean buffer, with what was read. -/
theorem Keeps.release {main batch' : Datastore} {saved : Option Contents}
    (h : Keeps main batch gone saved buf batch' buf') (hclean : buf.isDirty = false) :
    Keeps main batch gone saved buf batch' (releaseMetadataBuf buf') where
  coherent := h.coherent.release fun _ => h.dirty.trans hclean
  uuid := (uuid_releaseMetadataBuf buf').trans h.uuid
  dirty := by
    unfold releaseMetadataBuf
    split
    · exact h.dirty
    · exact hclean.symm
  frame := h.frame

theorem Keeps.setBuffer {main batch' : Datastore} {saved : Option Contents}
    (h : Keeps main batch gone saved buf batch' buf') (hclean : buf.isDirty = false)
    (buffer : Bytes) :
    Keeps main batch gone saved buf batch' { buf' with buffer } :=
  ⟨h.coherent.setBuffer (h.dirty.trans hclean) buffer, h.uuid, h.dirty, h.frame⟩

/-- Reading a clean buffer changes the batch file and the flags of the buffer at most; if it
fails, the table has the changed buffer. -/
theorem readDatastore_keeps (env : GetEnv) (flags : OpenFlags) (size : Nat) (buf : MetadataBuf)
    {contents : Option Contents} (hclean : buf.isDirty = false)
    (h : Coherent (io.main buf.uuid) (io.batch buf.uuid) gone contents buf) :
    ∃ batch buf', Keeps io.main io.batch gone contents buf batch buf' ∧
      (readDatastore env io buf flags size = ({ io with batch }, some buf') ∨
        readDatastore env io buf flags size = (io, none) ∨
        readDatastore env io buf flags size = (updateBuf { io with batch } buf', none)) := by
  unfold readDatastore
  split
  · exact ⟨io.batch, _, (keeps_refl h).setBuffer hclean [], .inl rfl⟩
  split
  · split
    · next buffer _ => exact ⟨io.batch, _, (keeps_refl h).setBuffer hclean buffer, .inl rfl⟩
    · exact ⟨io.batch, buf, keeps_refl h, .inr (.inl rfl)⟩
  · have hopen := keeps_openMetadataFile env.openEnv flags h
    generalize openMetadataFile env.openEnv io.main io.batch buf flags = result at hopen
    obtain ⟨batch, buf', opened⟩ := result
    dsimp only at hopen ⊢
    split
    · exact ⟨batch, buf', hopen, .inr (.inr rfl)⟩
    split
    · next buffer _ =>
      exact ⟨batch, _, (hopen.setBuffer hclean buffer).release hclean, .inl rfl⟩
    · exact ⟨batch, _, hopen.release hclean, .inr (.inr rfl)⟩

theorem inv_ioBufferRead (env : GetEnv) (uuid : Uuid) (flags : OpenFlags) (size : Nat)
    (h : io.Inv saved) : (ioBufferRead env io uuid flags size).1.Inv saved := by
  unfold ioBufferRead
  split
  · next hnone =>
    obtain ⟨batch, buf', hkeeps, hread⟩ := readDatastore_keeps env flags size
      (allocMetadataBuf uuid) rfl (h.alloc hnone)
    have huuid : buf'.uuid = uuid := hkeeps.uuid
    obtain hread | hread | hread := hread
    · rw [hread]
      refine h.add ?_ (fun _ _ => rfl) (h.gone _) ?_
      · rw [huuid]
        exact hkeeps.frame
      · rw [huuid]
        exact hkeeps.coherent
    · rw [hread]
      exact h
    · -- the buffer never comes into the table
      rw [hread]
      have hfind : ∀ v, bufferManagerFind (updateBuf { io with batch } buf') v =
          bufferManagerFind io v := by
        intro v
        rw [find_updateBuf, huuid]
        split
        · next hv =>
          show (bufferManagerFind io v).map _ = bufferManagerFind io v
          rw [hv, hnone, map_none]
        · rfl
      refine h.of_sameElsewhere uuid
        ⟨fun _ _ => rfl, hkeeps.frame, fun _ _ => Iff.rfl, fun v _ => hfind v, fun _ _ => rfl⟩ ?_
        (h.gone uuid) ?_ ?_
      · rw [map_uuid_updateBuf]
        exact h.nodup
      · intro buf hbuf
        rw [hfind, hnone] at hbuf
        cases hbuf
      · exact fun _ => h.rest uuid hnone
  · next buf hfind =>
    split
    · exact h
    · next hstale =>
      have hclean : buf.isDirty = false := by
        rw [Bool.or_eq_true, not_or] at hstale
        exact Bool.eq_false_iff.mpr hstale.1
      have hin := find_uuid_ne_none hfind
      obtain ⟨batch, buf', hkeeps, hread⟩ := readDatastore_keeps env flags size buf
        hclean (h.coherent hfind)
      obtain hread | hread | hread := hread
      · rw [hread]
        exact h.update_keeps hin hkeeps
      · rw [hread]
        exact h
      · rw [hread]
        exact h.update_keeps hin hkeeps

theorem inv_ioBufferGet (env : GetEnv) (uuid : Uuid) (flags : OpenFlags) (h : io.Inv saved) :
    (ioBufferGet env io uuid flags).1.Inv saved := by
  unfold ioBufferGet
  split
  · exact h
  · next contents _ =>
    split
    · exact h
    · have hlocked : (if flags.fwrite || flags.fcrypto then ioBufferLock env.lockEnv io uuid flags
          else (io, .ok)).1.Inv saved := by
        split
        · exact inv_ioBufferLock env.lockEnv uuid flags h
        · exact h
      generalize (if flags.fwrite || flags.fcrypto then ioBufferLock env.lockEnv io uuid flags
        else (io, .ok)) = locked at hlocked
      obtain ⟨io', result⟩ := locked
      dsimp only at hlocked ⊢
      split
      · exact inv_ioBufferRead env uuid flags contents.length hlocked
      · exact hlocked

theorem tell_failed (saved : Uuid → Option Contents) (uuid : Uuid) (contents : Option Contents) :
    tell saved .failed uuid contents = saved := if_neg nofun

theorem tell_ok_self (saved : Uuid → Option Contents) (uuid : Uuid) (contents : Option Contents) :
    tell saved .ok uuid contents uuid = contents := by
  rw [tell, if_pos rfl, if_pos rfl]

theorem tell_ok_of_ne (saved : Uuid → Option Contents) {u uuid : Uuid} (h : u ≠ uuid)
    (contents : Option Contents) : tell saved .ok uuid contents u = saved u := by
  rw [tell, if_pos rfl, if_neg h]

/-- A put that succeeds: the contents are in the buffer, or in the batch file. -/
theorem Io.Inv.stored (h : io.Inv saved) (buf : MetadataBuf) (batch : Datastore) (dirty : Bool)
    (contents : Contents) (buffer : Bytes) (hfind : bufferManagerFind io uuid = some buf)
    (hlive : uuid ∉ io.deleted) (hopen : buf.handle ≠ none)
    (hframe : ∀ v ≠ uuid, batch v = io.batch v) (hbatch : batch uuid ≠ none)
    (hmemory : dirty = true → contents = .file buffer)
    (hdisk : dirty = false → StoredAs (some contents) (batch uuid)) :
    (updateBuf { io with batch }
      { buf with buffer, handle := none, batchModeModified := true, isDirty := dirty }).Inv
        (tell saved .ok uuid (some contents)) := by
  have hexists := (h.coherent hfind).opened hopen
  have huuid := uuid_of_find hfind
  subst huuid
  have hin := find_uuid_ne_none hfind
  refine h.update hframe (fun v hv => tell_ok_of_ne saved hv _) (fun hgone => absurd hgone hlive) ?_
    hin
  · show Coherent (io.main buf.uuid) (batch buf.uuid) (buf.uuid ∈ io.deleted)
      (tell saved .ok buf.uuid (some contents) buf.uuid) _
    rw [tell_ok_self]
    refine ⟨fun _ => hexists, fun hopened => absurd rfl hopened, fun _ => hexists, fun _ => rfl,
      fun _ => hbatch, fun _ => hlive, ?_, fun _ => hdisk, nofun⟩
    intro hdirty
    rw [hmemory hdirty]

theorem inv_ioBufferPut (env : PutEnv) (buffer : Bytes) (dataSize : Nat) (h : io.Inv saved)
    (hcareful : (BatchCall.put env uuid buffer dataSize).Careful ⟨io, saved⟩) :
    (ioBufferPut env io uuid buffer dataSize).1.Inv
      (tell saved (ioBufferPut env io uuid buffer dataSize).2 uuid
        (some (putContents io uuid buffer))) := by
  unfold ioBufferPut
  cases hfind : bufferManagerFind io uuid with
  | none => rwa [tell_failed]
  | some buf =>
    have hcoherent := h.buf uuid buf hfind
    cases hhandle : buf.handle with
    | none =>
      simp only [hhandle]
      rwa [tell_failed]
    | some ioFlags =>
      simp only [hhandle]
      have hopen : buf.handle ≠ none := by
        rw [hhandle]
        exact nofun
      have hbatch := hcoherent.copied (hcoherent.opened hopen)
      obtain ⟨hlive, hcase⟩ := hcareful buf hfind ioFlags hhandle
      have hput : putContents io uuid buffer =
          if ioFlags.fnode then .filenode buffer else .file buffer := by
        simp [putContents, hfind, hhandle]
      rw [hput]
      cases hfnode : ioFlags.fnode with
      | false =>
        rw [hfnode, if_neg (by simp)] at hcase
        simp only [hcase.1, Bool.false_eq_true, Bool.not_true, Bool.not_false, if_true, if_false]
        exact h.stored buf io.batch true (.file buffer) buffer hfind hlive hopen (fun _ _ => rfl)
          hbatch (fun _ => rfl) nofun
      | true =>
        cases hstored : env.stored with
        | false =>
          rw [if_pos ⟨hfnode, hstored⟩] at hcase
          simp only [ioBufferStoreFilenode, Bool.false_eq_true, Bool.not_false, if_true, if_false]
          rw [tell_failed]
          exact h.release hfind fun _ => hcoherent.clean hcase
        | true =>
          rw [if_neg (by simp [hstored])] at hcase
          obtain ⟨hlimit, hsize⟩ := hcase.2 hfnode
          obtain ⟨file, hstore, hparse⟩ :=
            Files.parseFilenode_storeFilenode ((io.batch uuid).getD []) hlimit hsize
          simp only [ioBufferStoreFilenode, hstore, hcase.1, Bool.not_true, Bool.false_eq_true,
            if_true, if_false]
          refine h.stored buf (io.batch.put uuid file.bytes) false (.filenode buffer) buffer hfind
            hlive hopen (fun v hv => io.batch.put_of_ne hv _) ?_ nofun fun _ => ?_
          · rw [Datastore.put_self]
            exact nofun
          · rw [Datastore.put_self]
            exact hparse

theorem inv_ioBufferNew (touched : Bool) (h : io.Inv saved)
    (hcareful : (BatchCall.new touched uuid).Careful ⟨io, saved⟩) :
    (ioBufferNew touched io uuid).1.Inv (tell saved (ioBufferNew touched io uuid).2 uuid
      (some ((saved uuid).getD (.file [])))) := by
  cases touched with
  | false => exact h
  | true =>
    obtain ⟨hnone, hmain, hbatch, hlive⟩ := hcareful rfl
    -- an object that is nowhere was not told of
    have hsaved : saved uuid = none := by
      have hstored := h.rest uuid hnone hlive
      rw [hmain] at hstored
      cases hcontents : saved uuid with
      | none => rfl
      | some contents =>
        rw [hcontents] at hstored
        cases contents with
        | file bytes | filenode metadata => cases hstored
    rw [ioBufferNew, if_pos rfl, hsaved, hbatch]
    refine h.add (fun v hv => io.batch.put_of_ne hv _) (fun v hv => tell_ok_of_ne saved hv _)
      (fun hgone => absurd hgone hlive) ?_
    show Coherent (io.main uuid) (io.batch.put uuid [] uuid) (uuid ∈ io.deleted)
      (tell saved .ok uuid (some (.file [])) uuid) _
    rw [tell_ok_self, Datastore.put_self]
    exact ⟨fun _ => rfl, fun _ => rfl, fun _ => rfl, nofun, fun _ => nofun, fun _ => hlive, nofun,
      fun _ _ => rfl, nofun⟩

theorem mem_batchDeletedUuids_iff (io : Io) (uuid v : Uuid) :
    v ∈ batchDeletedUuids io uuid ↔ v ∈ io.deleted ∨ v = uuid ∧
      ∃ buf, bufferManagerFind io uuid = some buf ∧ buf.syncFileExists = true := by
  unfold batchDeletedUuids
  cases hfind : bufferManagerFind io uuid with
  | none => simp
  | some buf => cases hsync : buf.syncFileExists <;> simp [hsync]

theorem inv_ioBufferDel (unlinked : Bool) (h : io.Inv saved)
    (hcareful : (BatchCall.del unlinked uuid).Careful ⟨io, saved⟩) :
    (ioBufferDel unlinked io uuid).1.Inv (tell saved (ioBufferDel unlinked io uuid).2 uuid none) := by
  dsimp only [BatchCall.Careful] at hcareful
  have hnone := find_bufferManagerDel { io with deleted := batchDeletedUuids io uuid } uuid uuid
  rw [if_pos rfl] at hnone
  have hfind : ∀ v ≠ uuid, bufferManagerFind
      (bufferManagerDel { io with deleted := batchDeletedUuids io uuid } uuid) v =
        bufferManagerFind io v := by
    intro v hv
    rw [find_bufferManagerDel, if_neg hv]
    rfl
  have hdeleted : ∀ v ≠ uuid, v ∈ batchDeletedUuids io uuid ↔ v ∈ io.deleted := by
    intro v hv
    rw [mem_batchDeletedUuids_iff]
    exact or_iff_left fun huuid => hv huuid.1
  have hnodup : ((bufferManagerDel { io with deleted := batchDeletedUuids io uuid } uuid).table.map
      (·.uuid)).Nodup := nodup_bufferManagerDel h.nodup uuid
  by_cases hunlinked : unlinked = true ∧ io.batch uuid ≠ none
  · rw [if_pos hunlinked] at hcareful
    have hcond : (unlinked && (io.batch uuid).isSome) = true := by
      rw [Bool.and_eq_true, isSome_iff_ne_none]
      exact hunlinked
    rw [show ioBufferDel unlinked io uuid = (_, .ok) from if_pos hcond]
    refine h.of_sameElsewhere uuid
      ⟨fun _ _ => rfl, fun v hv => if_neg hv, hdeleted, hfind, fun v hv => tell_ok_of_ne saved hv _⟩
      hnodup (fun _ => tell_ok_self saved uuid none) ?_ ?_
    · intro buf hbuf
      cases hnone.symm.trans hbuf
    · -- an object that is not scheduled is not in the main store
      intro _ hlive
      rw [tell_ok_self]
      have hlive : uuid ∉ batchDeletedUuids io uuid := hlive
      rw [mem_batchDeletedUuids_iff, not_or] at hlive
      obtain hmain | hgone | hsync := hcareful
      · exact hmain
      · exact absurd hgone hlive.1
      · exact absurd ⟨rfl, hsync⟩ hlive.2
  · rw [if_neg hunlinked] at hcareful
    have hcond : ¬ (unlinked && (io.batch uuid).isSome) = true := by
      rw [Bool.and_eq_true, isSome_iff_ne_none]
      exact hunlinked
    rw [show ioBufferDel unlinked io uuid = (_, .failed) from if_neg hcond, tell_failed]
    have hself : uuid ∈ batchDeletedUuids io uuid ↔ uuid ∈ io.deleted := by
      rw [mem_batchDeletedUuids_iff]
      refine or_iff_left ?_
      intro hsync
      obtain ⟨-, buf, hbuf, hsync⟩ := hsync
      rw [(hcareful buf hbuf).2] at hsync
      cases hsync
    refine h.of_sameElsewhere uuid
      ⟨fun _ _ => rfl, fun _ _ => rfl, hdeleted, hfind, fun _ _ => rfl⟩ hnodup
      (fun hgone => h.gone uuid (hself.mp hgone)) ?_ ?_
    · intro buf hbuf
      cases hnone.symm.trans hbuf
    · intro _ hlive
      have hlive : uuid ∉ io.deleted := mt hself.mpr hlive
      cases hbuf : bufferManagerFind io uuid with
      | none => exact h.rest uuid hbuf hlive
      | some buf => exact (h.buf uuid buf hbuf).unchanged (hcareful buf hbuf).1 hlive

end Nexus.Backend
