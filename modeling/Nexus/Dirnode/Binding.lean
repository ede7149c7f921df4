import Nexus.Dirnode.FailureAtomic
import Nexus.Storage.ReadObject

/-!
# Buckets are bound to the main object

The buckets of a directory are read from files that the datastore chooses.  The
main object records the mac of each of them, so a directory that loads from the
main object of a store has the buckets of that store: the file of each recorded
bucket is the buffer of the put that has the recorded mac, and that put was made
by the store or before it.

The macs are refreshed for dirty buckets only.  `Bound` is the invariant that
carries the argument over any sequence of modifications, stores and loads: every
clean bucket in the enclave is what the put with its mac wrote.
-/

namespace Nexus

open Codec List Option

/-! ## Loading from an untrusted datastore -/

/-- The bucket objects that can be read from the files. -/
def bucketsFrom (v : Vault) (files : Uuid → Option Bytes) : BucketStore := fun uuid => do
  let external ← files uuid
  nexusCryptoBufGet v uuid external

/-- `dirnode_load` from the files of the datastore. -/
def dirnodeLoadFrom (v : Vault) (files : Uuid → Option Bytes) (uuid : Uuid) : Option Dirnode := do
  let external ← files uuid
  let (plaintext, _) ← nexusCryptoBufGet v uuid external
  dirnodeFromBuffer (bucketsFrom v files) plaintext

/-- The bucket was put as it is, with its mac. -/
def Vault.Holds (v : Vault) (b : Bucket) : Prop :=
  ∃ p ∈ v.puts, p.uuid = b.uuid ∧ p.plaintext = (bucketObject b).1 ∧ p.mac = b.mac

/-- The dirnode in the enclave after a store that succeeds. -/
def afterStore (c : StoreCut) (d : Dirnode) : Dirnode :=
  (dirnodeStore c.whole d ⟨[], fun _ => none⟩).1

/-- A store of the dirnode that succeeds, as the vault sees it: its dirty buckets
are put, then its main object. -/
structure DirnodePut (c : StoreCut) (d : Dirnode) (v v' : Vault) (main : Put) : Prop where
  grows : v.puts ⊆ v'.puts
  buckets : ∀ b ∈ (deleteEmptyBuckets d).bucketList.drop 1, b.isDirty = true →
    v'.Holds { b with mac := c.bucketMac b.uuid }
  mem : main ∈ v'.puts
  uuid : main.uuid = d.myUuid
  plaintext : main.plaintext = (dirnodeStore c.whole d ⟨[], fun _ => none⟩).2.1.main

/-- The dirnode in the enclave and the puts of the volume, in a run in which every
modification meets `ok`.  After a store that fails the copy is invalid, so the run
goes on with a load. -/
inductive BoundRun (ok : Dirnode → DirnodeOp → Prop) : Dirnode → Vault → Prop where
  | create (rootUuid myUuid bucket0 : Uuid) (v : Vault) :
      BoundRun ok (dirnodeCreate rootUuid myUuid bucket0) v
  | modify {d : Dirnode} {v : Vault} (op : DirnodeOp) (reached : BoundRun ok d v)
      (other : ∀ d' ∈ op.other, BoundRun ok d' v) (valid : op.Valid d) (allowed : ok d op) :
      BoundRun ok (op.apply d) v
  | store {d : Dirnode} {v v' : Vault} {main : Put} (c : StoreCut) (reached : BoundRun ok d v)
      (put : DirnodePut c d v v' main) : BoundRun ok (afterStore c d) v'
  | grow {d : Dirnode} {v v' : Vault} (reached : BoundRun ok d v) (grows : v.puts ⊆ v'.puts) :
      BoundRun ok d v'
  | load {d l : Dirnode} {v v₁ v' : Vault} {main : Put} {files : Uuid → Option Bytes} (c : StoreCut)
      (reached : BoundRun ok d v) (put : DirnodePut c d v v₁ main) (grows : v₁.puts ⊆ v'.puts)
      (file : files d.myUuid = some main.buffer)
      (load : dirnodeLoadFrom v' files d.myUuid = some l) : BoundRun ok l v'

/-! ## What a store leaves in the enclave -/

variable {c : StoreCut} {d : Dirnode} {v v' : Vault} {main : Put}

theorem afterStore_eq (c : StoreCut) (d : Dirnode) :
    afterStore c d =
      storedMemory c.whole c.macversion d (deleteEmptyObjects c.whole d fun _ => none) :=
  dirnodeStore_fst rfl d ⟨[], fun _ => none⟩

theorem DirnodePut.plaintext_eq (h : DirnodePut c d v v' main) :
    main.plaintext = padTo (getBucket0Size (afterStore c d)) (dirnodeSerialize (afterStore c d)) := by
  obtain ⟨mv, hmv, -, hmain⟩ :=
    dirnodeStore_of_ok (dirnodeStore_succeeds c.whole_succeeds d ⟨[], fun _ => none⟩)
  cases hmv
  rw [h.plaintext, hmain, ← afterStore_eq]

theorem afterStore_drop (h : d.WF) (c : StoreCut) :
    (afterStore c d).bucketList.drop 1 =
      ((deleteEmptyBuckets d).bucketList.drop 1).map (Bucket.passed c.bucketMac) :=
  dirnodeStore_drop h.hasBucket (dirnodeStore_succeeds c.whole_succeeds d _)

/-! ## The invariant -/

/-- The dirnode can be stored, and its clean buckets are what was put with their
macs. -/
structure Bound (d : Dirnode) (v : Vault) : Prop where
  storable : d.Storable
  buckets : ∀ b ∈ d.bucketList.drop 1, b.isDirty = false → v.Holds b

theorem Vault.Holds.mono {b : Bucket} (h : v.Holds b) (hv : v.puts ⊆ v'.puts) :
    v'.Holds b := by
  obtain ⟨p, hp, hrest⟩ := h
  exact ⟨p, hv hp, hrest⟩

theorem Bound.modify {op : DirnodeOp} (h : Bound d v) (hother : ∀ d' ∈ op.other, d'.Sound)
    (hvalid : op.Valid d) (hfits : op.Fits d) :
    Bound (op.apply d) v := by
  have hwf (d' : Dirnode) (hd' : d' ∈ op.other) : d'.WF := (hother d' hd').wf
  refine ⟨⟨op.apply_sound h.storable.toSound hother hvalid hfits.1, ?_⟩, ?_⟩
  · have hcount := (op.apply_edits h.storable.wf hwf).bucketCount
    have hroom := hfits.2
    omega
  · intro b hb hclean
    rcases (op.apply_edits h.storable.wf hwf).bucketsFrom b hb with hb | hdirty
    · exact h.buckets b hb hclean
    · simp [hclean] at hdirty

theorem Bound.afterStore_holds (h : Bound d v) (hput : DirnodePut c d v v' main) :
    ∀ b ∈ (afterStore c d).bucketList.drop 1, v'.Holds b := by
  intro b hb
  rw [afterStore_drop h.storable.wf] at hb
  obtain ⟨b, hkept, rfl⟩ := mem_map.mp hb
  cases hdirty : b.isDirty with
  | false =>
    rw [deleteEmptyBuckets_drop h.storable.wf.hasBucket] at hkept
    rw [Bucket.passed_of_clean hdirty]
    exact (h.buckets b (mem_of_mem_filter hkept) hdirty).mono hput.grows
  | true =>
    rw [Bucket.passed_of_dirty hdirty]
    exact hput.buckets b hkept hdirty

theorem Bound.store (h : Bound d v) (hput : DirnodePut c d v v' main) :
    Bound (afterStore c d) v' where
  storable := dirnodeStore_storable h.storable c.whole ⟨[], fun _ => none⟩
  buckets b hb _ := h.afterStore_holds hput b hb

/-! ## Loading the main object of a store -/

variable {files : Uuid → Option Bytes}

theorem bucketsFrom_sound {uuid : Uuid} {content : Bytes} {mac : Mac}
    (h : bucketsFrom v files uuid = some (content, mac)) :
    ∃ p ∈ v.puts, p.uuid = uuid ∧ p.plaintext = content ∧ p.mac = mac ∧
      files uuid = some p.buffer := by
  obtain ⟨external, hfile, hget⟩ := bind_eq_some_iff.mp h
  obtain ⟨p, hp, huuid, hplaintext, hmac, rfl⟩ := nexusCryptoBufGet_sound hget
  exact ⟨p, hp, huuid, hplaintext, hmac, hfile⟩

theorem Vault.eq_of_buffer {p q : Put} (hp : p ∈ v.puts) (hq : q ∈ v.puts)
    (h : p.buffer = q.buffer) : p = q := by
  have hlen : getHeaderLen ≤ p.buffer.length := p.length_buffer ▸ Nat.le_add_right ..
  have hself := ((eq_buffer_iff hlen).mp (rfl : p.buffer = p.buffer)).2.1
  have hother := ((eq_buffer_iff hlen).mp h).2.1
  exact v.eq_of_mac hp hq (hself.symm.trans hother)

/-- The main object of a store, with whatever files stand for its buckets. -/
theorem Bound.authentic {v₁ : Vault} (h : Bound d v) (hput : DirnodePut c d v v₁ main)
    (hv : v₁.puts ⊆ v'.puts) (files : Uuid → Option Bytes) :
    StoredDirnode.Authentic ⟨main.plaintext, bucketsFrom v' files⟩ (afterStore c d) where
  storable := (h.store hput).storable
  main := hput.plaintext_eq
  macs b hb content hcontent := by
    obtain ⟨p, hp, -, rfl, hmac, -⟩ := bucketsFrom_sound hcontent
    obtain ⟨q, hq, -, hplaintext, hqmac⟩ := h.afterStore_holds hput b hb
    obtain rfl := v'.eq_of_mac hp (hv hq) (hmac.trans hqmac.symm)
    exact hplaintext

theorem Bound.load {l : Dirnode} {v₁ : Vault} (h : Bound d v) (hput : DirnodePut c d v v₁ main)
    (hv : v₁.puts ⊆ v'.puts) (hfile : files d.myUuid = some main.buffer)
    (hload : dirnodeLoadFrom v' files d.myUuid = some l) :
    l = (afterStore c d).reloaded ∧
      ∀ b ∈ (afterStore c d).bucketList.drop 1,
        ∃ p ∈ v₁.puts, p.uuid = b.uuid ∧ p.mac = b.mac ∧ p.plaintext = (bucketObject b).1 ∧
          files b.uuid = some p.buffer := by
  simp only [dirnodeLoadFrom, hfile, bind_eq_bind, bind_some,
    bind_eq_some_iff] at hload
  obtain ⟨⟨plaintext, mac⟩, hget, hload⟩ := hload
  obtain ⟨p, hp, -, rfl, -, hbuffer⟩ := nexusCryptoBufGet_sound hget
  obtain rfl := v'.eq_of_buffer (hv hput.mem) hp hbuffer
  obtain ⟨hintact, rfl⟩ := (h.authentic hput hv files).load_iff.mp hload
  refine ⟨rfl, fun b hb => ?_⟩
  obtain ⟨q, hq, huuid, hplaintext, hmac⟩ := h.afterStore_holds hput b hb
  obtain ⟨p', hp', -, -, hmac', hfile'⟩ := bucketsFrom_sound (hintact b hb)
  obtain rfl := v'.eq_of_mac hp' (hv hq) (hmac'.trans hmac.symm)
  exact ⟨p', hq, huuid, hmac, hplaintext, hfile'⟩

theorem BoundRun.bound (h : BoundRun (fun d op => op.Fits d) d v) : Bound d v := by
  induction h with
  | create rootUuid myUuid bucket0 v =>
    have hcount : (dirnodeCreate rootUuid myUuid bucket0).bucketCount ≤ 65535 :=
      show 1 ≤ 65535 by decide
    exact ⟨⟨dirnodeCreate_sound rootUuid myUuid bucket0, hcount⟩, by simp [dirnodeCreate]⟩
  | modify op _ _ hvalid hfits ih ihother =>
    exact ih.modify (fun d' hd' => (ihother d' hd').storable.toSound) hvalid hfits
  | store c _ hput ih => exact ih.store hput
  | grow _ hgrows ih => exact ⟨ih.storable, fun b hb hclean => (ih.buckets b hb hclean).mono hgrows⟩
  | load c _ hput hgrows hfile hload ih =>
    obtain ⟨rfl, -⟩ := ih.load hput hgrows hfile hload
    have hstored := ih.store hput
    refine ⟨hstored.storable.reloaded, fun b hb _ => ?_⟩
    rw [drop_reloaded] at hb
    obtain ⟨b', hb', rfl⟩ := mem_map.mp hb
    exact Vault.Holds.mono (ih.afterStore_holds hput b' hb') hgrows

/-- In every run whose modifications fit the stored format: whatever loads from the
main object of a store, at any later time and with any files, has the contents of
that store, and the file of each bucket that the main object records is the buffer
of the put with the recorded mac, which was made by that store or before it. -/
theorem BoundRun.load_bound {d l : Dirnode} {v v₁ v' : Vault} {main : Put}
    {files : Uuid → Option Bytes} (hrun : BoundRun (fun d op => op.Fits d) d v) (c : StoreCut)
    (hput : DirnodePut c d v v₁ main) (hv : v₁.puts ⊆ v'.puts)
    (hfile : files d.myUuid = some main.buffer)
    (hload : dirnodeLoadFrom v' files d.myUuid = some l) :
    l.dirents = bucketEntries (afterStore c d).bucketList ∧ l.SameContents d ∧
      ∀ b ∈ (afterStore c d).bucketList.drop 1,
        ∃ p ∈ v₁.puts, p.uuid = b.uuid ∧ p.mac = b.mac ∧ p.plaintext = (bucketObject b).1 ∧
          files b.uuid = some p.buffer := by
  have hbound := hrun.bound
  obtain ⟨rfl, hfiles⟩ := hbound.load hput hv hfile hload
  exact ⟨rfl, dirnodeStore_sameContents hbound.storable c.whole _, hfiles⟩

/-! ### Runs from a new directory -/

theorem dirnodeLoadFrom_put (hmem : main ∈ v.puts) (hsize : main.plaintext.length < 2 ^ 32)
    (hfile : files main.uuid = some main.buffer) :
    dirnodeLoadFrom v files main.uuid = dirnodeFromBuffer (bucketsFrom v files) main.plaintext := by
  simp only [dirnodeLoadFrom, hfile, nexusCryptoBufGet_buffer hmem hsize, bind_eq_bind,
    bind_some]

theorem Bound.load_of_files {v₁ : Vault} (h : Bound d v) (hput : DirnodePut c d v v₁ main)
    (hv : v₁.puts ⊆ v'.puts) (hsize : ∀ p ∈ v'.puts, p.plaintext.length < 2 ^ 32)
    (hfiles : ∀ p ∈ v₁.puts, files p.uuid = some p.buffer) :
    dirnodeLoadFrom v' files d.myUuid = some (afterStore c d).reloaded := by
  rw [← hput.uuid, dirnodeLoadFrom_put (hv hput.mem) (hsize main (hv hput.mem))
    (hfiles main hput.mem)]
  refine (h.authentic hput hv files).load_iff.mpr ⟨fun b hb => ?_, rfl⟩
  obtain ⟨p, hp, huuid, hplaintext, hmac⟩ := h.afterStore_holds hput b hb
  show bucketsFrom v' files b.uuid = some (bucketObject b)
  rw [bucketsFrom, ← huuid, hfiles p hp]
  simp only [bind_eq_bind, bind_some]
  rw [nexusCryptoBufGet_buffer (hv hp) (hsize p (hv hp)), hplaintext, hmac]
  rfl

theorem DirnodeReachable.boundRun {ok : Dirnode → DirnodeOp → Prop} (h : DirnodeReachable ok d)
    (v : Vault) : BoundRun ok d v := by
  induction h with
  | create rootUuid myUuid bucket0 => exact .create rootUuid myUuid bucket0 v
  | step op _ _ hvalid hok ih ihother => exact .modify op ih ihother hvalid hok

/-- A volume in which nothing was put. -/
def noPuts : Vault where
  puts := []
  keys := List.nodup_nil
  macs := List.nodup_nil
  wraps := List.nodup_nil

/-- The contents of the separately stored buckets of the directory. -/
def otherContents (d : Dirnode) : Bytes :=
  ((deleteEmptyBuckets d).bucketList.drop 1).flatMap fun b =>
    padTo b.sizeBytes (bucketSerialize b)

/-- The put of the main object of the directory with the uuid 2. -/
def mainPut (d : Dirnode) : Put :=
  plainPut 2 1 (dirnodeStore firstStore.whole d ⟨[], fun _ => none⟩).2.1.main 42 7

/-- The put of the second bucket of a directory with two. -/
def bucketPut (d : Dirnode) : Put := plainPut 1128 1 (otherContents d) 41 5

/-- The puts of the store of a directory with two buckets. -/
def bothPuts (d : Dirnode) : Vault where
  puts := [bucketPut d, mainPut d]
  keys := by
    have hne : (41 : Key) ≠ 42 := by decide
    exact List.nodup_cons.mpr ⟨fun h => hne (List.mem_singleton.mp h), List.nodup_singleton _⟩
  macs := by
    have hne : (5 : Mac) ≠ 7 := by decide
    exact List.nodup_cons.mpr ⟨fun h => hne (List.mem_singleton.mp h), List.nodup_singleton _⟩
  wraps := by
    have hne : (1128 : Uuid) ≠ 2 := by decide
    exact List.nodup_cons.mpr
      ⟨fun h => hne (congrArg Prod.fst (List.mem_singleton.mp h)), List.nodup_singleton _⟩

/-- The files of both puts. -/
def bothFiles (d : Dirnode) (uuid : Uuid) : Option Bytes :=
  if uuid = 1128 then some (bucketPut d).buffer
  else if uuid = 2 then some (mainPut d).buffer
  else none

theorem bothFiles_put : ∀ p ∈ (bothPuts d).puts, bothFiles d p.uuid = some p.buffer := by
  intro p hp
  rcases mem_cons.mp hp with rfl | hp
  · exact if_pos rfl
  · obtain rfl := mem_singleton.mp hp
    have hne : ¬ (mainPut d).uuid = 1128 := by
      show ¬ (2 : Uuid) = 1128
      decide
    rw [bothFiles, if_neg hne]
    exact if_pos rfl

theorem bothPuts_dirnodePut (hmine : d.myUuid = 2)
    (huuids : ((deleteEmptyBuckets d).bucketList.drop 1).map Bucket.uuid = [1128]) :
    DirnodePut firstStore d noPuts (bothPuts d) (mainPut d) where
  grows := nil_subset _
  buckets b hb _ := by
    have hlength : ((deleteEmptyBuckets d).bucketList.drop 1).length = 1 := by
      rw [← length_map (f := Bucket.uuid), huuids]
      rfl
    obtain ⟨b', hlist⟩ := length_eq_one_iff.mp hlength
    rw [hlist, mem_singleton] at hb
    subst hb
    rw [hlist] at huuids
    refine ⟨bucketPut d, mem_cons_self, (cons.inj huuids).1.symm, ?_, rfl⟩
    show otherContents d = _
    rw [otherContents, hlist, flatMap_singleton]
    rfl
  mem := mem_cons_of_mem _ (mem_singleton_self _)
  uuid := hmine.symm
  plaintext := rfl

theorem bothPuts_size (hbucket : (otherContents d).length < 2 ^ 32)
    (hmain : (mainPut d).plaintext.length < 2 ^ 32) :
    ∀ p ∈ (bothPuts d).puts, p.plaintext.length < 2 ^ 32 := by
  intro p hp
  rcases mem_cons.mp hp with rfl | hp
  · exact hbucket
  · rw [mem_singleton.mp hp]
    exact hmain

theorem twoBuckets_put_evaluated :
    twoBuckets.myUuid = 2 ∧
      ((deleteEmptyBuckets twoBuckets).bucketList.drop 1).map Bucket.uuid = [1128] ∧
      (otherContents twoBuckets).length < 2 ^ 32 ∧
      (mainPut twoBuckets).plaintext.length < 2 ^ 32 := by
  decide +kernel

theorem twoBuckets_put :
    DirnodePut firstStore twoBuckets noPuts (bothPuts twoBuckets) (mainPut twoBuckets) :=
  bothPuts_dirnodePut twoBuckets_put_evaluated.1 twoBuckets_put_evaluated.2.1

theorem twoBuckets_load :
    dirnodeLoadFrom (bothPuts twoBuckets) (bothFiles twoBuckets) twoBuckets.myUuid
      = some (afterStore firstStore twoBuckets).reloaded := by
  obtain ⟨-, -, hbucket, hmain⟩ := twoBuckets_put_evaluated
  exact (twoBuckets_reachable.boundRun noPuts).bound.load_of_files twoBuckets_put
    (List.Subset.refl _) (bothPuts_size hbucket hmain) bothFiles_put

/-- The directory with two buckets, stored once and loaded. -/
theorem twoBuckets_load_bound :
    (afterStore firstStore twoBuckets).reloaded.SameContents twoBuckets ∧
      ∀ b ∈ (afterStore firstStore twoBuckets).bucketList.drop 1,
        ∃ p ∈ (bothPuts twoBuckets).puts, p.uuid = b.uuid ∧ p.mac = b.mac ∧
          p.plaintext = (bucketObject b).1 ∧ bothFiles twoBuckets b.uuid = some p.buffer := by
  have hfile : bothFiles twoBuckets twoBuckets.myUuid = some (mainPut twoBuckets).buffer := by
    rw [← twoBuckets_put.uuid]
    exact bothFiles_put _ twoBuckets_put.mem
  exact (BoundRun.load_bound (twoBuckets_reachable.boundRun noPuts) firstStore twoBuckets_put
    (List.Subset.refl _) hfile twoBuckets_load).2

/-! ### A record without a length -/

/-- 23 files next to a symlink whose target has 236 bytes.  The length of its
record is stored in one byte, as 0. -/
def linkAndFiles : Dirnode := addFiles (linkOnly 236) (manyFiles.take 23)

/-- The file of the main object of a directory. -/
def mainFile (d : Dirnode) (uuid : Uuid) : Option Bytes :=
  if uuid = 2 then some (mainPut d).buffer else none

theorem mainFile_put (d : Dirnode) : mainFile d (mainPut d).uuid = some (mainPut d).buffer :=
  if_pos rfl

theorem mainPut_dirnodePut (hmine : d.myUuid = 2)
    (hone : (deleteEmptyBuckets d).bucketList.drop 1 = []) :
    DirnodePut firstStore d noPuts (onePut (mainPut d)) (mainPut d) where
  grows := nil_subset _
  buckets b hb _ := by
    simp [hone] at hb
  mem := mem_singleton_self _
  uuid := hmine.symm
  plaintext := rfl

theorem linkAndFiles_evaluated :
    addFilesFit (linkOnly 236) (manyFiles.take 23) = true ∧
      (deleteEmptyBuckets linkAndFiles).bucketList.drop 1 = [] ∧ linkAndFiles.myUuid = 2 ∧
      (mainPut linkAndFiles).plaintext.length < 2 ^ 32 ∧
      (linkAndFiles.lookup (fileName 0)).isSome = true ∧
      ((dirnodeFromBuffer (bucketsFrom (onePut (mainPut linkAndFiles)) (mainFile linkAndFiles))
        (mainPut linkAndFiles).plaintext).map fun l => (l.lookup (fileName 0)).isSome)
        = some false := by
  decide +kernel

/-- The store succeeds, and what loads from its main object has lost the files. -/
theorem linkAndFiles_not_bound :
    BoundRun (fun _ _ => True) linkAndFiles noPuts ∧
      DirnodePut firstStore linkAndFiles noPuts (onePut (mainPut linkAndFiles))
        (mainPut linkAndFiles) ∧
      mainFile linkAndFiles linkAndFiles.myUuid = some (mainPut linkAndFiles).buffer ∧
      ∃ l, dirnodeLoadFrom (onePut (mainPut linkAndFiles)) (mainFile linkAndFiles)
          linkAndFiles.myUuid = some l ∧ ¬ l.SameContents linkAndFiles := by
  obtain ⟨hfit, hone, hmine, hsize, hfile, hlost⟩ := linkAndFiles_evaluated
  obtain ⟨l, hload, hnone⟩ := map_eq_some_iff.mp hlost
  have hput := mainPut_dirnodePut hmine hone
  have hfiles := mainFile_put linkAndFiles
  refine ⟨?_, hput, hput.uuid ▸ hfiles, l, ?_, fun hsame => ?_⟩
  · exact ((linkOnly_reachable (by decide) trivial).addFiles (fun _ _ _ _ _ => trivial)
      hfit).boundRun noPuts
  · rw [← hput.uuid, dirnodeLoadFrom_put hput.mem hsize hfiles]
    exact hload
  · have hentry := congrArg Option.isSome (hsame.entries (fileName 0))
    rw [isSome_map, isSome_map, hnone, hfile] at hentry
    exact Bool.false_ne_true hentry

end Nexus
